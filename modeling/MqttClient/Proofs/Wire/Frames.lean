import MqttClient.Packet.Ping
import MqttClient.Proofs.Sending
import MqttClient.Proofs.Wire.Bodies
import MqttClient.Session.Subscribing

/-!
# Whole packets

On the wire a packet is its first byte, the number of bytes after that number, and these bytes
(`Frame`). A stream of packets can be cut into them in one way only (`Frame.cut_unique`). What a
client lays out for a request is the form of one packet, however many spans and batches it takes,
and the size counted for it is the right one.
-/
namespace MqttClient

/-- A whole packet. -/
structure Frame where
  /-- Type and flags. -/
  firstByte : UInt8
  /-- The bytes after the header. -/
  body : Bytes
  fits : body.length ≤ VarInt.maxValue

namespace Frame

/-- A packet on the wire. The number of bytes after the header stands there in its shortest
form. -/
def bytes (f : Frame) : Bytes := f.firstByte :: VarInt.bytes f.body.length ++ f.body

/-- A packet ends where the number in its header says. -/
theorem bytes_append_inj {f g : Frame} {rest rest' : Bytes}
    (h : f.bytes ++ rest = g.bytes ++ rest') : f = g ∧ rest = rest' := by
  obtain ⟨first, body, fits⟩ := f
  obtain ⟨first', body', fits'⟩ := g
  simp only [bytes, List.cons_append, List.append_assoc, List.cons.injEq] at h
  obtain ⟨rfl, h⟩ := h
  -- The number is read from either stream, and so it is the same.
  have hread := VarInt.decode_bytes fits (body ++ rest)
  rw [h, VarInt.decode_bytes fits'] at hread
  have hlength : body'.length = body.length := congrArg Prod.fst (Except.ok.inj hread)
  rw [hlength] at h
  obtain ⟨rfl, rfl⟩ := List.append_inj (List.append_cancel_left h) hlength.symm
  exact ⟨rfl, rfl⟩

/-- There is one way to cut a stream into packets. -/
theorem cut_unique {frames frames' : List Frame}
    (h : frames.flatMap bytes = frames'.flatMap bytes) : frames = frames' := by
  induction frames generalizing frames' with
  | nil =>
    cases frames' with
    | nil => rfl
    | cons f rest => simp [bytes] at h
  | cons f rest ih =>
    cases frames' with
    | nil => simp [bytes] at h
    | cons g rest' =>
      rw [List.flatMap_cons, List.flatMap_cons] at h
      obtain ⟨rfl, hrest⟩ := bytes_append_inj h
      rw [ih hrest]

end Frame

/-- Bytes are one whole packet with a given first byte. -/
def IsFrame (firstByte : UInt8) (b : Bytes) : Prop :=
  ∃ f : Frame, f.firstByte = firstByte ∧ f.bytes = b

/-- The packet of a body that has been counted. -/
def PacketSize.Counts.frame {size : PacketSize} {body : Bytes} (h : size.Counts body)
    (firstByte : UInt8) : Frame :=
  ⟨firstByte, body, h.length_body ▸ h.fits⟩

theorem PacketSize.Counts.bytes_frame {size : PacketSize} {body : Bytes} (h : size.Counts body)
    (firstByte : UInt8) :
    (h.frame firstByte).bytes = firstByte :: VarInt.bytes size.remaining ++ body := by
  change firstByte :: VarInt.bytes body.length ++ body = _
  rw [h.length_body]

theorem isFrame_of_counts {size : PacketSize} {body : Bytes} (h : size.Counts body)
    (firstByte : UInt8) : IsFrame firstByte (firstByte :: VarInt.bytes size.remaining ++ body) :=
  ⟨h.frame firstByte, rfl, h.bytes_frame firstByte⟩

/-! ## Packets without a count of their own -/

theorem Ping.isFrame_request : IsFrame PacketType.pingreq.firstByte request :=
  ⟨⟨_, [], by decide⟩, rfl, rfl⟩

theorem Disconnect.isFrame_bare : IsFrame PacketType.disconnect.firstByte bare :=
  ⟨⟨_, [], by decide⟩, rfl, rfl⟩

theorem Ack.isFrame_wire (kind : AckKind) (id : UInt16) :
    IsFrame kind.packetType.firstByte (wire kind id) :=
  ⟨⟨_, Bytes.ofWord id, (by decide : 2 ≤ VarInt.maxValue)⟩, rfl, rfl⟩

/-! ## Packets that are counted -/

/-- Spans that make up a packet are laid out as one. -/
theorem isFrame_of_spans {firstByte : UInt8} {size : PacketSize} {body : Bytes}
    {result : Except Fault (List Bytes)} {spans : List Bytes} (hcounts : size.Counts body)
    (hresult : ∃ spans, result = .ok spans ∧
      spans.flatten = firstByte :: VarInt.bytes size.remaining ++ body)
    (h : result = .ok spans) : IsFrame firstByte spans.flatten := by
  obtain ⟨spans', hspans', hflatten⟩ := hresult
  cases h.symm.trans hspans'
  rw [hflatten]
  exact isFrame_of_counts hcounts firstByte

theorem Message.isFrame_spans {version : Version} {m : Message} {id : UInt16} {max : UInt32}
    {size : PacketSize} {spans : List Bytes} (hsize : m.size version max = .ok size)
    (h : m.spans version id size = .ok spans) :
    IsFrame (PacketType.publish.firstByte ||| m.flags) spans.flatten := by
  have hid : m.qos.isTracked = true → id ≠ 0 := by
    rintro htracked rfl
    rw [Message.spans, if_pos ⟨htracked, rfl⟩] at h
    cases h
  exact isFrame_of_spans (counts hsize id) (spans_eq hsize hid) h

theorem Connect.isFrame_spans {version : Version} {c : Connect} {size : PacketSize}
    {spans : List Bytes} (hsize : c.size version = .ok size)
    (h : c.spans version size = .ok spans) :
    IsFrame PacketType.connect.firstByte spans.flatten :=
  isFrame_of_spans (counts hsize) (spans_eq hsize) h

theorem Disconnect.isFrame_spans {reason : UInt8} {properties : Bytes} {max : UInt32}
    {size : PacketSize} {spans : List Bytes}
    (hsize : Disconnect.size reason properties max = .ok size)
    (h : Disconnect.spans reason properties size = .ok spans) :
    IsFrame PacketType.disconnect.firstByte spans.flatten :=
  isFrame_of_spans (counts hsize) (spans_eq hsize) h

/-! ## SUBSCRIBE and UNSUBSCRIBE -/

theorem flatten_batches {α : Type} (l : List α) : (batches l).flatten = l := by
  fun_induction batches l with
  | case1 a b c d rest ih => simp [ih]
  | case2 => rfl
  | case3 rest hlong hne => simp

namespace Subscribe
variable {version : Version} {type : PacketType} {id : UInt16} {properties head : Bytes}
  {size : PacketSize}

/-- The batches of a request hold the whole packet, its head first. -/
theorem flatten_spanBatches {filters : List (List Bytes)} (hne : filters ≠ []) :
    (spanBatches head properties filters).flatten.flatten =
      head ++ properties ++ filters.flatten.flatten := by
  have hflatten : ((batches filters).map List.flatten).flatten = filters.flatten := by
    rw [← List.flatten_flatten, flatten_batches]
  rw [spanBatches]
  cases hbatches : (batches filters).map List.flatten with
  | nil =>
    have hfilters := flatten_batches filters
    rw [List.map_eq_nil_iff.mp hbatches] at hfilters
    exact absurd hfilters.symm hne
  | cons first rest =>
    rw [hbatches, List.flatten_cons] at hflatten
    simp only [List.flatten_cons, List.cons_append, hflatten, List.append_assoc]

theorem flatten_spans (version : Version) (subscriptions : List Subscription) :
    (subscriptions.map (Subscription.spans version)).flatten.flatten =
      subscriptions.flatMap (Subscription.form version) := by
  induction subscriptions with
  | nil => rfl
  | cons s rest ih =>
    rw [List.map_cons, List.flatten_cons, List.flatten_append, ih, List.flatMap_cons]
    simp [Subscription.spans, Subscription.form, Bytes.framedText, Bytes.framed,
      Subscription.filterBytes]

/-- Head, properties and filters of a request make up one packet. -/
theorem isFrame_head {filters : Bytes} {max : UInt32}
    (hplain : version.hasProperties = false → properties = [])
    (hsize : PacketSize.checked (headLength version properties + filters.length) max = .ok size)
    (h : Subscribe.head type version id properties size = .ok head) :
    IsFrame type.firstByte (head ++ properties ++ filters) := by
  have hid : id ≠ 0 := by
    rintro rfl
    rw [Subscribe.head, if_pos rfl] at h
    cases h
  have hregion := regionFits hplain hsize
  have hcounts := counts_body id hregion hsize
  obtain ⟨head', hhead', hflatten⟩ := head_append type hid hregion hcounts
  cases h.symm.trans hhead'
  rw [hflatten]
  exact isFrame_of_counts hcounts _

end Subscribe

theorem Unsubscribe.flatten_spans (filters : List String) :
    (filters.map spans).flatten.flatten = filters.flatMap Bytes.framedText := by
  induction filters with
  | nil => rfl
  | cons f rest ih =>
    rw [List.map_cons, List.flatten_cons, List.flatten_append, ih, List.flatMap_cons]
    simp [spans, Bytes.framedText, Bytes.framed]

end MqttClient
