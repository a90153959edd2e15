import MqttClient.Proofs.Wire.Frames

/-!
# The two phases of sending agree

A packet is counted first, and then written into a buffer by a writer that takes the count on
trust. `Outgoing.write` is the second phase in place: it keeps what a writer has left in the
buffer when it fails halfway. After a count that was accepted none does. A buffer that is large
enough gets the whole packet and keeps every byte behind it, and one that is too small keeps all
its bytes (`Outgoing.write_of_size`).
-/
namespace MqttClient

/-! ## Writing in place -/

namespace Layout
variable {room : ℕ} {buffer b : Bytes} {pieces : List (Except Fault Bytes)}

/-- Write pieces one after another into a buffer: how many bytes were written, and the buffer
afterwards. The pieces in front of one that is refused or does not fit stay written. -/
def place : Bytes → List (Except Fault Bytes) → Except Fault ℕ × Bytes
  | buffer, [] => (.ok 0, buffer)
  | buffer, .error fault :: _ => (.error fault, buffer)
  | buffer, .ok front :: pieces =>
    if buffer.length < front.length then (.error .noMemory, buffer)
    else
      let (written, back) := place (buffer.drop front.length) pieces
      (written.map (front.length + ·), front ++ back)

/-- A framed byte string as the two pieces in which it is written. -/
def framedPieces (b : Bytes) : List (Except Fault Bytes) :=
  if Bytes.maxFieldLength < b.length then [.error .badParameter]
  else [.ok (Bytes.lengthField b.length), .ok b]

/-- Spans as pieces, of which the sum is looked at first. -/
def spanPieces (room : ℕ) (spans : List Bytes) : Except Fault (List (Except Fault Bytes)) :=
  if room < spans.flatten.length then .error .noMemory else .ok (spans.map .ok)

theorem lay_ok_cons (front : Bytes) :
    lay room (.ok front :: pieces) =
      if room < front.length then .error .noMemory
      else (lay (room - front.length) pieces).map (front ++ ·) := by
  change (if room < front.length then _ else _) = _
  split
  · rfl
  · change (lay (room - front.length) pieces >>= fun back => .ok (front ++ back)) = _
    cases lay (room - front.length) pieces <;> rfl

/-- Spans are laid out one after another as they are all at once. -/
theorem lay_map_ok (room : ℕ) (spans : List Bytes) : lay room (spans.map .ok) = fit room spans := by
  induction spans generalizing room with
  | nil => rfl
  | cons span spans ih =>
    rw [List.map_cons, lay_ok_cons, ih, fit, fit, List.flatten_cons, List.length_append]
    by_cases hspan : room < span.length
    · rw [if_pos hspan, if_pos (by omega)]
    · have hiff : room - span.length < spans.flatten.length ↔
          room < span.length + spans.flatten.length := by omega
      rw [if_neg hspan]
      simp only [hiff]
      split <;> rfl

theorem spanPieces_bind (room : ℕ) (spans : List Bytes) :
    spanPieces room spans >>= lay room = fit room spans := by
  rw [spanPieces]
  split
  · rw [fit, if_pos ‹_›]
    rfl
  · exact lay_map_ok room spans

/-- A framed byte string is laid out in two pieces as it is in one. -/
theorem lay_framedPieces (b : Bytes) :
    lay room (framedPieces b ++ pieces) = lay room (framed b :: pieces) := by
  rw [framedPieces, framed]
  split
  · rfl
  · simp only [List.cons_append, List.nil_append, lay_ok_cons, Bytes.length_framed,
      Bytes.length_lengthField]
    by_cases hroom : room < 2 + b.length
    · by_cases htwo : room < 2
      · rw [if_pos htwo, if_pos hroom]
      · rw [if_neg htwo, if_pos hroom, if_pos (by omega)]
        rfl
    · rw [if_neg (by omega), if_neg hroom, if_neg (by omega), Nat.sub_sub]
      cases lay (room - (2 + b.length)) pieces with
      | error => rfl
      | ok rest => simp [Except.map, Bytes.framed]

theorem lay_append_congr {pieces' : List (Except Fault Bytes)}
    (h : ∀ room, lay room pieces = lay room pieces') (front : List (Except Fault Bytes)) :
    lay room (front ++ pieces) = lay room (front ++ pieces') := by
  induction front generalizing room with
  | nil => exact h room
  | cons piece front ih =>
    cases piece with
    | error => rfl
    | ok b => rw [List.cons_append, List.cons_append, lay_ok_cons, lay_ok_cons, ih]

/-- Items that are laid out alike, whatever follows, make lists that are laid out alike. -/
theorem lay_flatMap_congr {α : Type} {f g : α → List (Except Fault Bytes)}
    (h : ∀ a room pieces, lay room (f a ++ pieces) = lay room (g a ++ pieces)) (l : List α) :
    lay room (l.flatMap f) = lay room (l.flatMap g) := by
  induction l generalizing room with
  | nil => rfl
  | cons a l ih =>
    rw [List.flatMap_cons, List.flatMap_cons, h]
    exact lay_append_congr (fun _ => ih) (g a)

/-- What is written in place is what is laid out. -/
theorem place_eq (buffer : Bytes) (pieces : List (Except Fault Bytes)) :
    (place buffer pieces).1 = (lay buffer.length pieces).map List.length ∧
      ∀ b, lay buffer.length pieces = .ok b →
        (place buffer pieces).2 = b ++ buffer.drop b.length := by
  induction pieces generalizing buffer with
  | nil =>
    refine ⟨rfl, ?_⟩
    rintro b ⟨⟩
    rfl
  | cons piece pieces ih =>
    obtain fault | front := piece
    · exact ⟨rfl, nofun⟩
    · rw [place, lay_ok_cons]
      by_cases hfront : buffer.length < front.length
      · rw [if_pos hfront, if_pos hfront]
        exact ⟨rfl, nofun⟩
      · rw [if_neg hfront, if_neg hfront]
        have ih := ih (buffer.drop front.length)
        rw [List.length_drop] at ih
        obtain ⟨hwritten, hback⟩ := ih
        constructor
        · simp only [hwritten]
          cases lay (buffer.length - front.length) pieces <;> simp [Except.map]
        · intro b hb
          cases hrest : lay (buffer.length - front.length) pieces with
          | error => simp [hrest, Except.map] at hb
          | ok rest =>
            rw [hrest] at hb
            cases hb
            simp only [hback rest hrest, List.drop_drop, List.length_append, List.append_assoc]

end Layout

/-! ## The packets -/

/-- A packet that is counted and then written. -/
inductive Outgoing where
  | connect (version : Version) (c : Connect)
  | publish (version : Version) (m : Message) (id : UInt16)
  | subscribe (version : Version) (subscriptions : List Subscription) (properties : Bytes)
    (id : UInt16)
  | unsubscribe (version : Version) (filters : List String) (properties : Bytes) (id : UInt16)
  | ack (kind : AckKind) (id : UInt16) (reason : UInt8) (properties : Bytes)
  | disconnect (reason : UInt8) (properties : Bytes)

namespace Outgoing

/-- The first phase. The size of a CONNECT has no limit but that of the format. -/
def size (max : UInt32) : Outgoing → Except Fault PacketSize
  | connect version c => c.size version
  | publish version m _ => m.size version max
  | subscribe version subscriptions properties _ =>
    Subscribe.size version subscriptions properties max
  | unsubscribe version filters properties _ => Unsubscribe.size version filters properties max
  | ack _ _ reason properties => Ack.size reason properties max
  | disconnect reason properties => Disconnect.size reason properties max

/-- The second phase, for a buffer of `capacity` bytes. -/
def serialize (size : PacketSize) (capacity : ℕ) : Outgoing → Except Fault Bytes
  | connect version c => c.serialize version size capacity
  | publish version m id => m.serialize version id size capacity
  | subscribe version subscriptions properties id =>
    Subscribe.serialize version subscriptions properties id size capacity
  | unsubscribe version filters properties id =>
    Unsubscribe.serialize version filters properties id size capacity
  | ack kind id reason properties =>
    Ack.serializeWithReason kind.packetType.firstByte id reason properties size capacity
  | disconnect reason properties =>
    Disconnect.serializeWithReason reason properties size capacity

/-- What the second phase writes once its checks have passed, piece by piece. -/
def pieces (size : PacketSize) (room : ℕ) : Outgoing → Except Fault (List (Except Fault Bytes))
  | connect version c => do
    if room < size.total then throw .noMemory
    Layout.spanPieces room (← c.spans version size)
  | publish version m id => do
    if room < size.total then throw .noMemory
    Layout.spanPieces room (← m.spans version id size)
  | subscribe version subscriptions properties id => do
    if room < size.total then throw .noMemory
    let head ← Subscribe.head .subscribe version id properties size
    return .ok head :: .ok properties :: subscriptions.flatMap fun s =>
      Layout.framedPieces s.filterBytes ++ [.ok [s.options version]]
  | unsubscribe version filters properties id => do
    if room < size.total then throw .noMemory
    let head ← Subscribe.head .unsubscribe version id properties size
    return .ok head :: .ok properties :: filters.flatMap fun f =>
      Layout.framedPieces (Bytes.ofText f)
  | ack kind id reason properties => do
    if !Ack.canSend kind.packetType.firstByte id then throw .badParameter
    if room < size.total then throw .noMemory
    Layout.spanPieces room (← Ack.spans kind.packetType.firstByte id reason properties size)
  | disconnect reason properties => do
    if room < size.total then throw .noMemory
    Layout.spanPieces room (← Disconnect.spans reason properties size)

/-- The second phase in place. The checks come before the first byte is written. -/
def write (p : Outgoing) (size : PacketSize) (buffer : Bytes) : Except Fault ℕ × Bytes :=
  match p.pieces size buffer.length with
  | .error fault => (.error fault, buffer)
  | .ok pieces => Layout.place buffer pieces

/-! ## Writing in place and laying out -/

section
variable {room total : ℕ}

theorem fit_eq_bind (spans : Except Fault (List Bytes)) :
    (do
      if room < total then throw .noMemory
      Layout.fit room (← spans)) =
    (do
      if room < total then throw .noMemory
      Layout.spanPieces room (← spans)) >>= Layout.lay room := by
  split
  · rfl
  · cases spans with
    | error => rfl
    | ok spans => exact (Layout.spanPieces_bind room spans).symm

/-- A request is laid out behind its head. -/
theorem lay_eq_bind {pieces pieces' : List (Except Fault Bytes)} (head : Except Fault Bytes)
    (properties : Bytes) (h : ∀ room, Layout.lay room pieces = Layout.lay room pieces') :
    (do
      if room < total then throw .noMemory
      Layout.lay room (pure (← head) :: pure properties :: pieces)) =
    (do
      if room < total then throw .noMemory
      return .ok (← head) :: .ok properties :: pieces') >>= Layout.lay room := by
  split
  · rfl
  · cases head with
    | error => rfl
    | ok head => exact Layout.lay_append_congr h [.ok head, .ok properties]

/-- The pieces are what the second phase lays out. -/
theorem serialize_eq_bind (p : Outgoing) (size : PacketSize) (room : ℕ) :
    p.serialize size room = p.pieces size room >>= Layout.lay room := by
  cases p with
  | connect version c => exact fit_eq_bind _
  | publish version m id => exact fit_eq_bind _
  | subscribe version subscriptions properties id =>
    refine lay_eq_bind _ _ fun room => Layout.lay_flatMap_congr (fun s room rest => ?_) _
    rw [List.append_assoc]
    exact (Layout.lay_framedPieces s.filterBytes).symm
  | unsubscribe version filters properties id =>
    refine lay_eq_bind _ _ fun room => ?_
    rw [List.map_eq_flatMap]
    exact Layout.lay_flatMap_congr (fun f _ _ =>
      (Layout.lay_framedPieces (Bytes.ofText f)).symm) filters
  | ack kind id reason properties =>
    rw [serialize, pieces, Ack.serializeWithReason_eq]
    cases Ack.canSend kind.packetType.firstByte id with
    | false => rfl
    | true => exact fit_eq_bind _
  | disconnect reason properties => exact fit_eq_bind _

/-- Writing in place gives what the second phase gives. -/
theorem write_eq (p : Outgoing) (size : PacketSize) (buffer : Bytes) :
    (p.write size buffer).1 = (p.serialize size buffer.length).map List.length ∧
      ∀ b, p.serialize size buffer.length = .ok b →
        (p.write size buffer).2 = b ++ buffer.drop b.length := by
  rw [write, serialize_eq_bind]
  cases p.pieces size buffer.length with
  | error => exact ⟨rfl, nofun⟩
  | ok pieces => exact Layout.place_eq buffer pieces

end

/-! ## What an accepted count promises -/

/-- The first byte of a packet. -/
def firstByte : Outgoing → UInt8
  | connect .. => PacketType.connect.firstByte
  | publish _ m _ => PacketType.publish.firstByte ||| m.flags
  | subscribe .. => PacketType.subscribe.firstByte
  | unsubscribe .. => PacketType.unsubscribe.firstByte
  | ack kind .. => kind.packetType.firstByte
  | disconnect .. => PacketType.disconnect.firstByte

/-- The bytes of a packet after its header. -/
def body : Outgoing → Bytes
  | connect version c => c.body version
  | publish version m id => m.body version id
  | subscribe version subscriptions properties id =>
    Subscribe.body version id properties (subscriptions.flatMap (Subscription.form version))
  | unsubscribe version filters properties id =>
    Subscribe.body version id properties (filters.flatMap Bytes.framedText)
  | ack _ id reason properties => Ack.body id reason properties
  | disconnect reason properties => Reason.field reason properties

/-- A packet that carries an identifier has one, which is not zero. -/
def Identified : Outgoing → Prop
  | connect .. | disconnect .. => True
  | publish _ m id => m.qos.isTracked = true → id ≠ 0
  | subscribe _ _ _ id | unsubscribe _ _ _ id | ack _ id _ _ => id ≠ 0

variable {p : Outgoing} {max : UInt32} {size : PacketSize}

/-- What is counted is the body. -/
theorem counts (h : p.size max = .ok size) : size.Counts p.body := by
  cases p with
  | connect => exact Connect.counts h
  | publish _ _ id => exact Message.counts h id
  | subscribe _ _ _ id =>
    obtain ⟨-, hplain, -, hcount⟩ := Subscribe.size_eq_ok.mp h
    exact Subscribe.counts_body id (Subscribe.regionFits hplain hcount) hcount
  | unsubscribe _ _ _ id =>
    obtain ⟨-, hplain, -, hcount⟩ := Unsubscribe.size_eq_ok.mp h
    exact Subscribe.counts_body id (Subscribe.regionFits hplain hcount) hcount
  | ack _ id => exact Ack.counts id h
  | disconnect => exact Disconnect.counts h

/-- Spans that make up a packet are pieces of it in any room that its size promises. -/
theorem pieces_of_spans {first : UInt8} {body : Bytes} {result : Except Fault (List Bytes)}
    (hcounts : size.Counts body)
    (hresult : ∃ spans, result = .ok spans ∧
      spans.flatten = first :: VarInt.bytes size.remaining ++ body) :
    ∃ spans : List Bytes, spans.flatten = first :: VarInt.bytes size.remaining ++ body ∧
      ∀ room, (do
        if room < size.total then throw Fault.noMemory
        Layout.spanPieces room (← result)) =
        if room < size.total then .error .noMemory else .ok (spans.map .ok) := by
  obtain ⟨spans, rfl, hflatten⟩ := hresult
  refine ⟨spans, hflatten, fun room => ?_⟩
  split
  · rfl
  · refine if_neg ?_
    rw [hflatten, hcounts.length_form]
    assumption

/-- So are head, properties and filters of a request. -/
theorem pieces_of_head {pieces : List (Except Fault Bytes)} {spans : List Bytes} {total : ℕ}
    (head properties : Bytes) (h : pieces = spans.map .ok) (room : ℕ) :
    (do
      if room < total then throw Fault.noMemory
      let head ← Except.ok head
      return Except.ok head :: Except.ok properties :: pieces) =
      if room < total then .error Fault.noMemory
      else .ok ((head :: properties :: spans).map .ok) := by
  subst h
  split <;> rfl

theorem framedPieces_of_canSendFilter {f : String} (h : Topic.canSendFilter f = true) :
    Layout.framedPieces (Bytes.ofText f) = (Unsubscribe.spans f).map .ok :=
  if_neg (Nat.not_lt.mpr (Topic.length_le_of_canSendFilter h))

/-- After an accepted count no piece is refused, and together they make up the packet. -/
theorem pieces_of_size (hsize : p.size max = .ok size) (hid : p.Identified) :
    ∃ spans : List Bytes, spans.flatten = p.firstByte :: VarInt.bytes size.remaining ++ p.body ∧
      ∀ room, p.pieces size room =
        if room < size.total then .error .noMemory else .ok (spans.map .ok) := by
  have hcounts := counts hsize
  cases p with
  | connect version c => exact pieces_of_spans hcounts (Connect.spans_eq hsize)
  | publish version m id => exact pieces_of_spans hcounts (Message.spans_eq hsize hid)
  | subscribe version subscriptions properties id =>
    obtain ⟨-, hplain, hvalid, hcount⟩ := Subscribe.size_eq_ok.mp hsize
    obtain ⟨head, hhead, hflatten⟩ :=
      Subscribe.head_append .subscribe hid (Subscribe.regionFits hplain hcount) hcounts
    have hpieces : (subscriptions.flatMap fun s =>
        Layout.framedPieces s.filterBytes ++ [.ok [s.options version]]) =
          (subscriptions.map (Subscription.spans version)).flatten.map .ok := by
      rw [List.map_flatten, List.map_map, List.flatMap_def]
      refine congrArg List.flatten (List.map_congr_left fun s hs => ?_)
      have hfilter := Subscription.canSendFilter_of_isValid (hvalid s hs)
      rw [Subscription.filterBytes, framedPieces_of_canSendFilter hfilter]
      rfl
    refine ⟨head :: properties :: (subscriptions.map (Subscription.spans version)).flatten, ?_,
      fun room => ?_⟩
    · rw [List.flatten_cons, List.flatten_cons, Subscribe.flatten_spans, ← List.append_assoc]
      exact hflatten
    · rw [pieces, hhead]
      exact pieces_of_head head properties hpieces room
  | unsubscribe version filters properties id =>
    obtain ⟨-, hplain, hvalid, hcount⟩ := Unsubscribe.size_eq_ok.mp hsize
    obtain ⟨head, hhead, hflatten⟩ :=
      Subscribe.head_append .unsubscribe hid (Subscribe.regionFits hplain hcount) hcounts
    have hpieces : (filters.flatMap fun f => Layout.framedPieces (Bytes.ofText f)) =
        (filters.map Unsubscribe.spans).flatten.map .ok := by
      rw [List.map_flatten, List.map_map, List.flatMap_def]
      exact congrArg List.flatten
        (List.map_congr_left fun f hf => framedPieces_of_canSendFilter (hvalid f hf))
    refine ⟨head :: properties :: (filters.map Unsubscribe.spans).flatten, ?_, fun room => ?_⟩
    · rw [List.flatten_cons, List.flatten_cons, Unsubscribe.flatten_spans, ← List.append_assoc]
      exact hflatten
    · rw [pieces, hhead]
      exact pieces_of_head head properties hpieces room
  | ack kind id reason properties =>
    have hsend : Ack.canSend kind.packetType.firstByte id = true := by
      rw [Identified] at hid
      cases kind <;> simpa [Ack.canSend, Ack.firstBytes, AckKind.packetType] using hid
    simp only [pieces, hsend]
    exact pieces_of_spans hcounts (Ack.spans_eq _ id hsize)
  | disconnect reason properties => exact pieces_of_spans hcounts (Disconnect.spans_eq hsize)

/-- After an accepted count the packet is laid out in any room for it. -/
theorem serialize_of_size {capacity : ℕ} (hsize : p.size max = .ok size) (hid : p.Identified)
    (hcapacity : size.total ≤ capacity) :
    p.serialize size capacity = .ok ((counts hsize).frame p.firstByte).bytes := by
  have hcounts := counts hsize
  obtain ⟨spans, hflatten, hpieces⟩ := pieces_of_size hsize hid
  have hlength : spans.flatten.length = size.total := by
    rw [hflatten]
    exact hcounts.length_form p.firstByte
  rw [serialize_eq_bind, hpieces, if_neg (Nat.not_lt.mpr hcapacity), hcounts.bytes_frame,
    ← hflatten]
  refine (Layout.lay_map_ok capacity spans).trans (if_neg ?_)
  rw [hlength]
  exact Nat.not_lt.mpr hcapacity

/-- The two phases agree. Once its size is counted, a packet is written into every buffer that
has room for this size: the header and as many bytes as the header says, and nothing behind them.
The number in the header is the one that was counted, in its shortest form. A smaller buffer is
refused and keeps all its bytes. -/
theorem write_of_size (hsize : p.size max = .ok size) (hid : p.Identified) (buffer : Bytes) :
    (size.total ≤ buffer.length →
      ∃ frame : Frame, frame.firstByte = p.firstByte ∧ frame.body.length = size.remaining ∧
        frame.bytes.length = size.total ∧
        VarInt.decode frame.bytes.tail = .ok (size.remaining, size.headerLength - 1) ∧
        (∀ k, 0 < k → size.remaining < 128 ^ k → size.headerLength - 1 ≤ k) ∧
        frame.bytes.drop size.headerLength = frame.body ∧
        p.serialize size buffer.length = .ok frame.bytes ∧
        p.write size buffer = (.ok size.total, frame.bytes ++ buffer.drop size.total)) ∧
    (buffer.length < size.total →
      p.serialize size buffer.length = .error .noMemory ∧
        p.write size buffer = (.error .noMemory, buffer)) := by
  have hcounts := counts hsize
  constructor
  · intro hroom
    have hform := hcounts.bytes_frame p.firstByte
    have hlength : (hcounts.frame p.firstByte).bytes.length = size.total :=
      hform ▸ hcounts.length_form p.firstByte
    have hserialize := serialize_of_size hsize hid hroom
    obtain ⟨hwritten, hbuffer⟩ := write_eq p size buffer
    refine ⟨hcounts.frame p.firstByte, rfl, hcounts.length_body, hlength, ?_, ?_, ?_, hserialize,
      ?_⟩
    · rw [hform, List.cons_append, List.tail_cons, VarInt.decode_bytes hcounts.fits,
        PacketSize.headerLength, Nat.add_sub_cancel_left]
    · intro k hpos hk
      rw [PacketSize.headerLength, Nat.add_sub_cancel_left]
      exact VarInt.width_le hpos hk
    · rw [hform, PacketSize.headerLength, ← VarInt.length_bytes hcounts.fits, List.cons_append,
        Nat.add_comm, List.drop_succ_cons, List.drop_left]
      rfl
    · refine Prod.ext ?_ ?_
      · rw [hwritten, hserialize, ← hlength]
        rfl
      · rw [hbuffer _ hserialize, hlength]
  · intro hroom
    obtain ⟨_, -, hpieces⟩ := pieces_of_size hsize hid
    have hrefused := hpieces buffer.length
    rw [if_pos hroom] at hrefused
    rw [serialize_eq_bind, write, hrefused]
    exact ⟨rfl, rfl⟩

/-- A SUBSCRIBE with a property is written in front of two bytes that stay, and not into a buffer
that is one byte short. -/
theorem write_subscribe :
    let p : Outgoing :=
      .subscribe .v5 [{ filter := "a/+", qos := .atLeastOnce, noLocal := true }] [0x0B, 1] 7
    let size : PacketSize := ⟨11, 13⟩
    p.size 100 = .ok size ∧ p.Identified ∧
      (∃ frame : Frame, frame.firstByte = 0x82 ∧ frame.body.length = 11 ∧
        p.write size (List.replicate 15 0xFF) = (.ok 13, frame.bytes ++ [0xFF, 0xFF])) ∧
      p.write size (List.replicate 12 0xFF) = (.error .noMemory, List.replicate 12 0xFF) := by
  intro p size
  have hsize : p.size 100 = .ok size := by decide +kernel
  have hid : p.Identified := by
    rw [Identified]
    decide
  obtain ⟨frame, hfirst, hbody, -, -, -, -, -, hwrite⟩ :=
    (write_of_size hsize hid (List.replicate 15 0xFF)).1 (by decide)
  obtain ⟨-, hrefused⟩ := (write_of_size hsize hid (List.replicate 12 0xFF)).2 (by decide)
  exact ⟨hsize, hid, ⟨frame, hfirst, hbody, hwrite⟩, hrefused⟩

end Outgoing

end MqttClient
