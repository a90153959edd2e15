import MqttClient.Packet.Ack
import MqttClient.Packet.Connect
import MqttClient.Packet.Disconnect
import MqttClient.Packet.Subscribe
import MqttClient.Proofs.Wire.RoundTrip

/-!
# The bodies of outgoing packets

A packet is its first byte, the number of bytes after that number, and these bytes: its body. What
is counted for a packet is its body (`PacketSize.Counts`), and what is laid out for it is the first
byte, the count and the body, however many spans that takes.
-/
namespace MqttClient

namespace PacketSize
variable {size : PacketSize} {body : Bytes}

/-- The sizes of a packet with a given body. -/
structure Counts (size : PacketSize) (body : Bytes) : Prop where
  fits : size.remaining ≤ VarInt.maxValue
  length_body : body.length = size.remaining
  total_eq : size.total = size.headerLength + size.remaining

theorem Counts.of_checked {n : ℕ} {max : UInt32} (h : checked n max = .ok size)
    (hbody : n ≤ VarInt.maxValue → body.length = n) : size.Counts body := by
  obtain ⟨hmax, rfl, -⟩ := checked_eq_ok.mp h
  exact ⟨hmax, hbody hmax, rfl⟩

theorem Counts.length_form (h : size.Counts body) (firstByte : UInt8) :
    (firstByte :: VarInt.bytes size.remaining ++ body).length = size.total := by
  rw [List.length_append, List.length_cons, VarInt.length_bytes h.fits, h.length_body, h.total_eq,
    headerLength, Nat.add_comm 1]

end PacketSize

/-- A text after its two-byte length. -/
def Bytes.framedText (s : String) : Bytes := framed (ofText s)

@[simp] theorem Bytes.length_framedText (s : String) :
    (framedText s).length = 2 + (ofText s).length :=
  length_framed _

/-! ## Property regions -/

/-- A property region after its length, which only MQTT 5 writes. -/
def Property.regionField (version : Version) (region : Bytes) : Bytes :=
  if version.hasProperties then VarInt.bytes region.length ++ region else []

/-- What a property region has to meet. -/
@[mk_iff]
structure Property.RegionFits (version : Version) (region : Bytes) : Prop where
  fits : version.hasProperties = true → region.length ≤ VarInt.maxValue
  plain : version.hasProperties = false → region = []

section
variable {version : Version} {region : Bytes}

theorem Property.length_regionField (h : RegionFits version region) :
    (regionField version region).length =
      if version.hasProperties then regionSize region else 0 := by
  rw [regionField]
  split
  · rw [List.length_append, VarInt.length_bytes (h.fits ‹_›), regionSize]
  · rfl

/-- A region is laid out as two spans, its length and itself. -/
theorem Connect.regionLength_append (h : Property.RegionFits version region) :
    ∃ length, regionLength version region = .ok length ∧
      length ++ region = Property.regionField version region := by
  rw [regionLength, Property.regionField]
  cases hproperties : version.hasProperties with
  | true => exact ⟨_, VarInt.encode_eq_ok.mpr ⟨h.fits hproperties, rfl⟩, rfl⟩
  | false => exact ⟨[], rfl, h.plain hproperties⟩

/-- A reason code and properties, which a plain success leaves out. -/
def Reason.field (reason : UInt8) (region : Bytes) : Bytes :=
  if region.isEmpty then (if reason = success then [] else [reason])
  else reason :: (VarInt.bytes region.length ++ region)

theorem Reason.length_field (reason : UInt8) (hfits : region.length ≤ VarInt.maxValue) :
    (field reason region).length =
      if region.isEmpty then (if reason = success then 0 else 1)
      else 1 + Property.regionSize region := by
  rw [field]
  split_ifs
  · rfl
  · rfl
  · rw [List.length_cons, List.length_append, VarInt.length_bytes hfits, Property.regionSize,
      Nat.add_comm]

end

/-! ## CONNECT -/

namespace Connect
variable {version : Version} {c : Connect} {will : Message} {size : PacketSize}

theorem willIsValid_iff :
    willIsValid version will = true ↔
      will.topic.isEmpty = false ∧ Topic.hasWildcard will.topic = false ∧
        will.topicBytes.length ≤ Bytes.maxFieldLength ∧
          will.payload.length ≤ Bytes.maxFieldLength ∧
            (version.hasProperties = false → will.properties = []) := by
  simp only [willIsValid, fitsField]
  grind

theorem isValid_iff :
    c.isValid version = true ↔
      (c.clientId.isEmpty = true → c.cleanSession = true) ∧
        (Bytes.ofText c.clientId).length ≤ Bytes.maxFieldLength ∧
          (∀ u, c.username = some u → (Bytes.ofText u).length ≤ Bytes.maxFieldLength) ∧
            (∀ p, c.password = some p → p.length ≤ Bytes.maxFieldLength) ∧
              (c.password.isSome = true →
                c.username.isSome = true ∨ version.hasProperties = true) ∧
                (version.hasProperties = false → c.properties = []) ∧
                  ∀ w, c.will = some w → willIsValid version w = true := by
  obtain ⟨clean, keepAlive, clientId, username, password, will, properties⟩ := c
  cases username <;> cases password <;> cases will <;>
    simp [isValid, fitsField, and_assoc, imp_iff_not_or] <;> grind

/-- The bytes of a will. -/
def willBody (version : Version) (will : Message) : Bytes :=
  Property.regionField version will.properties ++
    (Bytes.framed will.topicBytes ++ Bytes.framed will.payload)

/-- The bytes of a CONNECT after its header. -/
def body (version : Version) (c : Connect) : Bytes :=
  protocolName ++ (version.level :: c.flags :: (Bytes.ofWord c.keepAlive ++
    (Property.regionField version c.properties ++ (Bytes.framedText c.clientId ++
      (c.will.elim [] (willBody version) ++ (c.username.elim [] Bytes.framedText ++
        c.password.elim [] Bytes.framed))))))

theorem size_eq_ok :
    c.size version = .ok size ↔
      c.isValid version = true ∧
        PacketSize.checked (c.remaining version) PacketSize.maxTotal = .ok size := by
  rw [Connect.size]
  split <;> simp [*]

/-- Neither region is longer than the packet that it is part of. -/
theorem regionFits (h : c.size version = .ok size) :
    Property.RegionFits version c.properties ∧
      ∀ w, c.will = some w → Property.RegionFits version w.properties := by
  obtain ⟨hvalid, hcount⟩ := size_eq_ok.mp h
  obtain ⟨-, -, -, -, -, hplain, hwill⟩ := isValid_iff.mp hvalid
  have hmax := (PacketSize.checked_eq_ok.mp hcount).1
  rw [remaining] at hmax
  refine ⟨⟨fun hproperties => ?_, hplain⟩, fun w hw => ⟨fun hproperties => ?_, ?_⟩⟩
  · rw [if_pos hproperties, Property.regionSize] at hmax
    omega
  · simp only [hw, Option.map_some, Option.getD_some, willLength, Property.regionSize,
      if_pos hproperties] at hmax
    omega
  · exact (willIsValid_iff.mp (hwill w hw)).2.2.2.2

theorem length_body (h : c.size version = .ok size) :
    (c.body version).length = c.remaining version := by
  obtain ⟨hregion, hwills⟩ := regionFits h
  have hwill : (c.will.elim [] (willBody version)).length =
      (c.will.map (willLength version)).getD 0 := by
    cases hwill : c.will with
    | none => rfl
    | some w =>
      simp only [Option.elim_some, willBody, List.length_append,
        Property.length_regionField (hwills w hwill), Bytes.length_framed, Option.map_some,
        Option.getD_some, willLength]
      omega
  have husername : (c.username.elim [] Bytes.framedText).length =
      (c.username.map fun u => 2 + (Bytes.ofText u).length).getD 0 := by
    cases c.username with
    | none => rfl
    | some u => exact Bytes.length_framedText u
  have hpassword : (c.password.elim [] Bytes.framed).length =
      (c.password.map fun p => 2 + p.length).getD 0 := by
    cases c.password with
    | none => rfl
    | some p => exact Bytes.length_framed _
  have hname : protocolName.length = 6 := rfl
  simp only [body, remaining, fixedLength, List.length_append, List.length_cons, hwill,
    Property.length_regionField hregion, husername, hpassword, hname, Bytes.length_framedText,
    Bytes.length_ofWord]
  omega

theorem counts (h : c.size version = .ok size) : size.Counts (c.body version) :=
  .of_checked (size_eq_ok.mp h).2 fun _ => length_body h

@[simp] theorem flatten_fieldSpans (b : Bytes) : (fieldSpans b).flatten = Bytes.framed b := by
  simp [fieldSpans, Bytes.framed]

/-- The spans of a CONNECT make up the packet. -/
theorem spans_eq (h : c.size version = .ok size) :
    ∃ spans, c.spans version size = .ok spans ∧
      spans.flatten =
        PacketType.connect.firstByte :: VarInt.bytes size.remaining ++ c.body version := by
  have hcounts := counts h
  obtain ⟨hfits, hwills⟩ := regionFits h
  obtain ⟨length, hlength, hregion⟩ := regionLength_append hfits
  rw [spans, VarInt.encode_eq_ok.mpr ⟨hcounts.fits, rfl⟩, hlength]
  have husername : ((c.username.map fun u => fieldSpans (Bytes.ofText u)).getD []).flatten =
      c.username.elim [] Bytes.framedText := by
    cases c.username <;> simp [Bytes.framedText]
  have hpassword : ((c.password.map fieldSpans).getD []).flatten =
      c.password.elim [] Bytes.framed := by
    cases c.password <;> simp
  cases hwill : c.will with
  | none =>
    refine ⟨_, rfl, ?_⟩
    simp only [List.flatten_append, husername, hpassword]
    simp [body, Bytes.framedText, hwill, ← hregion]
  | some w =>
    obtain ⟨length', hlength', hregion'⟩ := regionLength_append (hwills w hwill)
    refine ⟨_, by simp only [willSpans, hlength']; rfl, ?_⟩
    simp only [List.flatten_append, husername, hpassword]
    simp [body, Bytes.framedText, willBody, hwill, ← hregion, ← hregion']

end Connect

/-! ## PUBLISH -/

namespace Message
variable {version : Version} {m : Message} {size : PacketSize} {max : UInt32}

theorem counts (h : m.size version max = .ok size) (id : UInt16) :
    size.Counts (m.body version id) := by
  rw [Message.size] at h
  split at h
  · exact .of_checked h fun hmax => length_body (length_properties_le hmax)
  · cases h

/-- The spans of a PUBLISH make up the packet. -/
theorem spans_eq {id : UInt16} (h : m.size version max = .ok size)
    (hid : m.qos.isTracked = true → id ≠ 0) :
    ∃ spans, m.spans version id size = .ok spans ∧
      spans.flatten = (PacketType.publish.firstByte ||| m.flags) ::
        VarInt.bytes size.remaining ++ m.body version id := by
  obtain ⟨hvalid, hmax, rfl, -⟩ := (size_eq_ok id).mp h
  obtain ⟨-, hplain, -⟩ := isValid_iff.mp hvalid
  exact spans_eq_form hid hplain hmax rfl

end Message

/-! ## SUBSCRIBE and UNSUBSCRIBE -/

theorem Topic.length_le_of_canSendFilter {f : String} (h : canSendFilter f = true) :
    (Bytes.ofText f).length ≤ Bytes.maxFieldLength := by
  rw [canSendFilter, Bool.and_eq_true, decide_eq_true_eq] at h
  exact h.2

theorem Subscription.canSendFilter_of_isValid {version : Version} {s : Subscription}
    (h : s.isValid version = true) : Topic.canSendFilter s.filter = true := by
  rw [isValid, Bool.and_eq_true] at h
  exact h.1

/-- The bytes of a subscription. -/
def Subscription.form (version : Version) (s : Subscription) : Bytes :=
  Bytes.framedText s.filter ++ [s.options version]

namespace Subscribe
variable {version : Version} {id : UInt16} {properties filters : Bytes} {size : PacketSize}
  {max : UInt32}

/-- The bytes of a SUBSCRIBE or an UNSUBSCRIBE after its header. -/
def body (version : Version) (id : UInt16) (properties filters : Bytes) : Bytes :=
  Bytes.ofWord id ++ (Property.regionField version properties ++ filters)

/-- What a request is refused for, its size apart. -/
theorem accepts_iff {α : Type} {items : List α} {valid : α → Bool} :
    (items.isEmpty || (!version.hasProperties && !properties.isEmpty) || !items.all valid) = false ↔
      items ≠ [] ∧ (version.hasProperties = false → properties = []) ∧
        ∀ a ∈ items, valid a = true := by
  simp [and_assoc]

/-- A region that is counted for a request is no longer than the packet. -/
theorem regionFits (hplain : version.hasProperties = false → properties = [])
    (h : PacketSize.checked (headLength version properties + filters.length) max = .ok size) :
    Property.RegionFits version properties := by
  refine ⟨fun hproperties => ?_, hplain⟩
  have hmax := (PacketSize.checked_eq_ok.mp h).1
  rw [headLength, if_pos hproperties, Property.regionSize] at hmax
  omega

theorem length_body (h : Property.RegionFits version properties) :
    (body version id properties filters).length =
      headLength version properties + filters.length := by
  simp only [body, headLength, List.length_append, Bytes.length_ofWord,
    Property.length_regionField h]
  omega

/-- Identifier, properties and filters are what is counted for a request. -/
theorem counts_body (id : UInt16) (hregion : Property.RegionFits version properties)
    (h : PacketSize.checked (headLength version properties + filters.length) max = .ok size) :
    size.Counts (body version id properties filters) :=
  .of_checked h fun _ => length_body hregion

theorem length_forms (version : Version) (subscriptions : List Subscription) :
    (subscriptions.flatMap (Subscription.form version)).length =
      subscriptions.foldr (fun s n => 2 + s.filterBytes.length + 1 + n) 0 := by
  induction subscriptions with
  | nil => rfl
  | cons s rest ih =>
    rw [List.flatMap_cons, List.length_append, ih, List.foldr_cons, Subscription.form,
      List.length_append, Bytes.length_framedText, Subscription.filterBytes]
    rfl

theorem size_eq_ok {subscriptions : List Subscription} :
    Subscribe.size version subscriptions properties max = .ok size ↔
      subscriptions ≠ [] ∧ (version.hasProperties = false → properties = []) ∧
        (∀ s ∈ subscriptions, s.isValid version = true) ∧
          PacketSize.checked (headLength version properties +
            (subscriptions.flatMap (Subscription.form version)).length) max = .ok size := by
  rw [Subscribe.size, length_forms]
  constructor
  · intro h
    split at h
    · cases h
    · obtain ⟨hne, hplain, hvalid⟩ := accepts_iff.mp (Bool.eq_false_of_not_eq_true ‹_›)
      exact ⟨hne, hplain, hvalid, h⟩
  · rintro ⟨hne, hplain, hvalid, h⟩
    rw [if_neg (Bool.not_eq_true _ ▸ accepts_iff.mpr ⟨hne, hplain, hvalid⟩)]
    exact h

theorem head_eq {type : PacketType} (hid : id ≠ 0) :
    Subscribe.head type version id properties size = (do
      let count ← VarInt.encode size.remaining
      let length ← Connect.regionLength version properties
      return type.firstByte :: count ++ Bytes.ofWord id ++ length) := by
  rw [head, if_neg hid, Connect.regionLength]
  cases version.hasProperties <;> rfl

/-- A head in front of properties and filters makes up the packet. -/
theorem head_append (type : PacketType) (hid : id ≠ 0)
    (hregion : Property.RegionFits version properties)
    (hcounts : size.Counts (body version id properties filters)) :
    ∃ head, Subscribe.head type version id properties size = .ok head ∧
      head ++ properties ++ filters =
        type.firstByte :: VarInt.bytes size.remaining ++ body version id properties filters := by
  obtain ⟨length, hlength, hfield⟩ := Connect.regionLength_append hregion
  refine ⟨_, by rw [head_eq hid, VarInt.encode_eq_ok.mpr ⟨hcounts.fits, rfl⟩, hlength]; rfl, ?_⟩
  simp [body, ← hfield]

end Subscribe

namespace Unsubscribe
variable {version : Version} {filters : List String} {properties : Bytes} {size : PacketSize}
  {max : UInt32}

theorem length_forms (filters : List String) :
    (filters.flatMap Bytes.framedText).length =
      filters.foldr (fun f n => 2 + (Bytes.ofText f).length + n) 0 := by
  induction filters with
  | nil => rfl
  | cons f rest ih =>
    rw [List.flatMap_cons, List.length_append, ih, List.foldr_cons, Bytes.length_framedText]

theorem size_eq_ok :
    Unsubscribe.size version filters properties max = .ok size ↔
      filters ≠ [] ∧ (version.hasProperties = false → properties = []) ∧
        (∀ f ∈ filters, Topic.canSendFilter f = true) ∧
          PacketSize.checked (Subscribe.headLength version properties +
            (filters.flatMap Bytes.framedText).length) max = .ok size := by
  rw [Unsubscribe.size, length_forms]
  constructor
  · intro h
    split at h
    · cases h
    · obtain ⟨hne, hplain, hvalid⟩ := Subscribe.accepts_iff.mp (Bool.eq_false_of_not_eq_true ‹_›)
      exact ⟨hne, hplain, hvalid, h⟩
  · rintro ⟨hne, hplain, hvalid, h⟩
    rw [if_neg (Bool.not_eq_true _ ▸ Subscribe.accepts_iff.mpr ⟨hne, hplain, hvalid⟩)]
    exact h

end Unsubscribe

/-! ## Acknowledgements and DISCONNECT -/

section
variable {id : UInt16} {reason : UInt8} {properties : Bytes} {size : PacketSize} {max : UInt32}

/-- Where properties are counted at all, they are no longer than what is counted. -/
theorem Property.length_le_of_counted {bare rest : ℕ}
    (h : (if properties.isEmpty then bare else rest + regionSize properties) ≤ VarInt.maxValue) :
    properties.length ≤ VarInt.maxValue := by
  rw [regionSize] at h
  split at h
  · simp [List.isEmpty_iff.mp ‹_›]
  · omega

/-- A reason code is laid out where bytes are counted for it, and properties after their length
where there are any. -/
theorem Reason.code_append (reason : UInt8) (properties : Bytes) :
    (if 0 < (field reason properties).length then [reason] else []) ++
        ((if properties.isEmpty then [] else VarInt.bytes properties.length) ++ properties) =
      field reason properties := by
  rw [field]
  cases hempty : properties.isEmpty with
  | true =>
    rw [List.isEmpty_iff.mp hempty]
    by_cases hreason : reason = success <;> simp [hreason]
  | false => simp

/-- The bytes of an acknowledgement after its header. -/
def Ack.body (id : UInt16) (reason : UInt8) (properties : Bytes) : Bytes :=
  Bytes.ofWord id ++ Reason.field reason properties

theorem Ack.counts (id : UInt16) (h : Ack.size reason properties max = .ok size) :
    size.Counts (body id reason properties) := by
  refine .of_checked h fun hmax => ?_
  rw [body, List.length_append, Bytes.length_ofWord,
    Reason.length_field reason (Property.length_le_of_counted hmax)]
  split_ifs <;> omega

/-- The two spans of an acknowledgement: everything up to the property length, and the
properties. -/
def Ack.spans (firstByte : UInt8) (id : UInt16) (reason : UInt8) (properties : Bytes)
    (size : PacketSize) : Except Fault (List Bytes) := do
  let count ← VarInt.encode size.remaining
  let regionLength ← if properties.isEmpty then pure [] else VarInt.encode properties.length
  let code := if 2 < size.remaining then [reason] else []
  return [firstByte :: count ++ Bytes.ofWord id ++ code ++ regionLength, properties]

theorem Ack.serializeWithReason_eq (firstByte : UInt8) (id : UInt16) (capacity : ℕ) :
    Ack.serializeWithReason firstByte id reason properties size capacity = (do
      if !canSend firstByte id then throw .badParameter
      if capacity < size.total then throw .noMemory
      Layout.fit capacity (← spans firstByte id reason properties size)) := by
  rw [serializeWithReason, spans, VarInt.encode, VarInt.encode]
  split_ifs <;> rfl

/-- The spans of an acknowledgement make up the packet. -/
theorem Ack.spans_eq (firstByte : UInt8) (id : UInt16)
    (h : Ack.size reason properties max = .ok size) :
    ∃ spans, Ack.spans firstByte id reason properties size = .ok spans ∧
      spans.flatten = firstByte :: VarInt.bytes size.remaining ++ body id reason properties := by
  have hcounts := counts id h
  have hfits := Property.length_le_of_counted (PacketSize.checked_eq_ok.mp h).1
  have hfield := Reason.code_append reason properties
  have hcode : 0 < (Reason.field reason properties).length ↔ 2 < size.remaining := by
    rw [← hcounts.length_body, body, List.length_append, Bytes.length_ofWord]
    omega
  simp only [hcode] at hfield
  rw [spans, VarInt.encode_eq_ok.mpr ⟨hcounts.fits, rfl⟩]
  cases hempty : properties.isEmpty with
  | true => exact ⟨_, rfl, by simpa [body, hempty] using hfield⟩
  | false =>
    rw [VarInt.encode_eq_ok.mpr ⟨hfits, rfl⟩]
    exact ⟨_, rfl, by simpa [body, hempty] using hfield⟩

theorem Disconnect.length_le_of_size (h : Disconnect.size reason properties max = .ok size) :
    properties.length ≤ VarInt.maxValue := by
  rw [Disconnect.size] at h
  split at h
  · cases h
  · exact Property.length_le_of_counted (PacketSize.checked_eq_ok.mp h).1

theorem Disconnect.counts (h : Disconnect.size reason properties max = .ok size) :
    size.Counts (Reason.field reason properties) := by
  have hlength := Reason.length_field reason (length_le_of_size h)
  rw [Disconnect.size] at h
  split at h
  · cases h
  · exact .of_checked h fun _ => hlength

/-- The spans of a DISCONNECT make up the packet. -/
theorem Disconnect.spans_eq (h : Disconnect.size reason properties max = .ok size) :
    ∃ spans, Disconnect.spans reason properties size = .ok spans ∧
      spans.flatten = PacketType.disconnect.firstByte :: VarInt.bytes size.remaining ++
        Reason.field reason properties := by
  have hcounts := counts h
  have hfits := length_le_of_size h
  have hfield := Reason.code_append reason properties
  rw [hcounts.length_body] at hfield
  rw [spans, VarInt.encode_eq_ok.mpr ⟨hcounts.fits, rfl⟩]
  cases hempty : properties.isEmpty with
  | true => exact ⟨_, rfl, by simpa [hempty] using hfield⟩
  | false =>
    rw [VarInt.encode_eq_ok.mpr ⟨hfits, rfl⟩]
    exact ⟨_, rfl, by simpa [hempty] using hfield⟩

end

end MqttClient
