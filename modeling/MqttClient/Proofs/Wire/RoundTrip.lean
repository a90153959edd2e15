import MqttClient.Proofs.Headers
import MqttClient.Proofs.Messages

/-!
# PUBLISH there and back

What the encoder writes for a message is read back as that message
(`Message.decode_serialize`), and what the decoder reads is written again byte for byte
(`Message.serialize_decode`). The decoder looks at fewer fields than the encoder: it takes
messages that could not be sent, and `Message.Irregular` says which.
-/
namespace MqttClient

theorem PacketSize.checked_eq_ok {remaining : ℕ} {max : UInt32} {size : PacketSize} :
    PacketSize.checked remaining max = .ok size ↔
      remaining ≤ VarInt.maxValue ∧ size = ⟨remaining, 1 + VarInt.width remaining + remaining⟩ ∧
        size.total ≤ max.toNat := by
  rw [checked]
  extract_lets total
  constructor
  · intro h
    split at h
    · cases h
    split at h
    · cases h
    · cases h
      exact ⟨Nat.not_lt.mp ‹_›, rfl, Nat.not_lt.mp ‹_›⟩
  · rintro ⟨hmax, rfl, htotal⟩
    rw [if_neg (Nat.not_lt.mpr hmax), if_neg (Nat.not_lt.mpr htotal)]

/-- A header is a byte that may arrive and the count of the bytes after it. -/
theorem Header.decode_eq_ok {version : Version} {b : Bytes} {header : Header} :
    Header.decode version b = .ok header ↔
      mayArrive version header.firstByte = true ∧ header.remaining ≤ VarInt.maxValue ∧
        header.length = 1 + VarInt.width header.remaining ∧
          b = header.firstByte :: VarInt.bytes header.remaining ++ b.drop header.length := by
  cases b with
  | nil => simp [decode]
  | cons first rest =>
    rw [decode]
    constructor
    · intro h
      split at h
      · split at h
        · rename_i remaining width hcount
          cases h
          obtain ⟨hmax, hwidth, hrest⟩ := VarInt.bytes_of_decode hcount
          refine ⟨‹_›, hmax, by rw [hwidth], ?_⟩
          rw [List.cons_append, Nat.add_comm, List.drop_succ_cons, ← hrest]
        · cases h
      · cases h
    · obtain ⟨firstByte, remaining, length⟩ := header
      dsimp only
      rintro ⟨harrive, hmax, rfl, hb⟩
      rw [List.cons_append, Nat.add_comm, List.drop_succ_cons] at hb
      obtain ⟨rfl, hrest⟩ := List.cons.inj hb
      rw [if_pos harrive, hrest, VarInt.decode_bytes hmax]

namespace Message
variable {version : Version} {n : Negotiated} {id : UInt16} {m : Message} {size : PacketSize}
  {max : UInt32} {capacity : ℕ} {b : Bytes}

/-- The whole PUBLISH of a message. -/
def form (version : Version) (id : UInt16) (m : Message) : Bytes :=
  (PacketType.publish.firstByte ||| m.flags) :: VarInt.bytes (m.remaining version) ++
    m.body version id

/-- A region is no longer than what it is part of. -/
theorem length_properties_le (hmax : m.remaining version ≤ VarInt.maxValue)
    (h : version.hasProperties = true) : m.properties.length ≤ VarInt.maxValue := by
  rw [remaining, if_pos h, Property.regionSize] at hmax
  omega

theorem length_form (hmax : m.remaining version ≤ VarInt.maxValue) :
    (m.form version id).length =
      1 + VarInt.width (m.remaining version) + m.remaining version := by
  rw [form, List.length_append, List.length_cons, VarInt.length_bytes hmax,
    length_body (length_properties_le hmax), Nat.add_comm (VarInt.width _)]

/-- The spans of a PUBLISH make up its form. -/
theorem spans_eq_form (hid : m.qos.isTracked = true → id ≠ 0)
    (hplain : version.hasProperties = false → m.properties = [])
    (hmax : m.remaining version ≤ VarInt.maxValue) (hsize : size.remaining = m.remaining version) :
    ∃ spans, m.spans version id size = .ok spans ∧ spans.flatten = m.form version id := by
  rw [spans, if_neg (by tauto), hsize, VarInt.encode, if_pos hmax]
  cases hproperties : version.hasProperties
  · refine ⟨_, rfl, ?_⟩
    simp [form, body, Bytes.framed, hproperties, hplain hproperties]
  · rw [VarInt.encode, if_pos (length_properties_le hmax hproperties)]
    refine ⟨_, rfl, ?_⟩
    simp [form, body, Bytes.framed, hproperties]

/-- A PUBLISH of which the size has been counted is written into any room for it. -/
theorem serialize_eq_form (hid : m.qos.isTracked = true → id ≠ 0)
    (hplain : version.hasProperties = false → m.properties = [])
    (hmax : m.remaining version ≤ VarInt.maxValue)
    (hcapacity : (m.form version id).length ≤ capacity) :
    m.serialize version id ⟨m.remaining version, (m.form version id).length⟩ capacity =
      .ok (m.form version id) := by
  obtain ⟨spans, hspans, hform⟩ := spans_eq_form hid hplain hmax
    (rfl : (⟨m.remaining version, (m.form version id).length⟩ : PacketSize).remaining = _)
  rw [serialize, if_neg (Nat.not_lt.mpr hcapacity), hspans]
  change Layout.fit capacity spans = _
  rw [Layout.fit, hform, if_neg (Nat.not_lt.mpr hcapacity)]

theorem size_eq_ok (id : UInt16) :
    m.size version max = .ok size ↔
      m.isValid version = true ∧ m.remaining version ≤ VarInt.maxValue ∧
        size = ⟨m.remaining version, (m.form version id).length⟩ ∧ size.total ≤ max.toNat := by
  rw [Message.size]
  split
  · rw [PacketSize.checked_eq_ok]
    constructor
    · rintro ⟨hmax, rfl, htotal⟩
      exact ⟨‹_›, hmax, by rw [length_form hmax], htotal⟩
    · rintro ⟨-, hmax, rfl, htotal⟩
      exact ⟨hmax, by rw [length_form hmax], htotal⟩
  · simp [*]

theorem isValid_iff :
    m.isValid version = true ↔
      ¬(m.dup = true ∧ m.qos = .atMostOnce) ∧
        (version.hasProperties = false → m.properties = []) ∧
          m.topicBytes.length ≤ Bytes.maxFieldLength ∧
            (m.topic.isEmpty = true → version.hasProperties = true ∧ m.hasTopicAlias = true) ∧
              Topic.hasWildcard m.topic = false := by
  simp only [isValid]
  grind

/-! ## Reading back what was written -/

/-- What the properties of a message have to meet for a client that takes it. -/
structure Receivable (n : Negotiated) (m : Message) : Prop where
  faultless : (Property.walk m.properties).fault = none
  allowed : ∀ p ∈ (Property.walk m.properties).properties, mayCarry p.id = true
  alias_in_range : ∀ v, ⟨.topicAlias, v⟩ ∈ (Property.walk m.properties).properties →
    1 ≤ v ∧ v ≤ n.topicAliasMax

theorem Receivable.regionIsSound (h : m.Receivable n) : regionIsSound n m.properties = true := by
  simp only [Message.regionIsSound, Walk.within, h.faultless, Option.isNone_none, Bool.true_and,
    Bool.and_eq_true, List.all_eq_true]
  refine ⟨h.allowed, fun p hp => ?_⟩
  rw [aliasInRange.eq_def]
  split
  · obtain ⟨hpos, hmax⟩ := h.alias_in_range _ hp
    have hne : ‹UInt16› ≠ 0 := fun hzero => by simp [hzero] at hpos
    simpa using ⟨hne, hmax⟩
  · rfl

/-- A message with an alias has properties. -/
theorem properties_pos_of_hasTopicAlias (h : m.hasTopicAlias = true) :
    0 < m.properties.length := by
  rw [List.length_pos_iff]
  intro hnil
  rw [hasTopicAlias, hnil] at h
  cases h

theorem topicBytes_pos (h : m.topic.isEmpty = false) : 0 < m.topicBytes.length := by
  have hne : m.topic.utf8ByteSize ≠ 0 := by
    rwa [ne_eq, String.utf8ByteSize_eq_zero_iff, ← ne_eq, ← String.isEmpty_eq_false_iff]
  rw [topicBytes, Bytes.ofText, Array.length_toList]
  exact Nat.pos_of_ne_zero hne

/-- Every message that can be sent has as many bytes as the decoder asks for. -/
theorem minRemaining_le (h : m.isValid version = true) :
    minRemaining m.qos ≤ m.remaining version := by
  obtain ⟨-, -, -, htopic, -⟩ := isValid_iff.mp h
  rw [minRemaining, remaining]
  cases hempty : m.topic.isEmpty
  · have hpos := topicBytes_pos hempty
    split_ifs <;> omega
  · -- An empty topic comes with an alias, for which the region has room.
    obtain ⟨hproperties, halias⟩ := htopic hempty
    have hpos := properties_pos_of_hasTopicAlias halias
    have hwidth := VarInt.width_pos m.properties.length
    rw [if_pos hproperties, Property.regionSize]
    split_ifs <;> omega

/-- The flags of a message stay in the low half of the first byte. -/
theorem firstByte_and (m : Message) :
    (PacketType.publish.firstByte ||| m.flags) &&& 0x0F = m.flags := by
  rw [flags]
  cases m.qos <;> cases m.retain <;> cases m.dup <;> rfl

theorem ofFirstByte?_firstByte (m : Message) :
    PacketType.ofFirstByte? (PacketType.publish.firstByte ||| m.flags) = some .publish := by
  rw [flags]
  cases m.qos <;> cases m.retain <;> cases m.dup <;> rfl

/-- Only a tracked message shows its identifier. -/
theorem body_of_shown (version : Version) (id : UInt16) (m : Message) :
    m.body version (if m.qos.isTracked then id else 0) = m.body version id := by
  rw [body, body]
  split <;> rfl

theorem drop_form (hmax : m.remaining version ≤ VarInt.maxValue) :
    (m.form version id).drop (1 + VarInt.width (m.remaining version)) = m.body version id := by
  rw [form, List.cons_append, Nat.add_comm, List.drop_succ_cons, ← VarInt.length_bytes hmax,
    List.drop_left]

theorem decodeHeader_form (hmax : m.remaining version ≤ VarInt.maxValue) :
    Header.decode version (m.form version id) =
      .ok ⟨PacketType.publish.firstByte ||| m.flags, m.remaining version,
        1 + VarInt.width (m.remaining version)⟩ := by
  refine Header.decode_eq_ok.mpr ⟨?_, hmax, rfl, ?_⟩
  · rw [mayArrive, ofFirstByte?_firstByte]
  · rw [drop_form hmax, form]

/-- Decoding a PUBLISH undoes encoding it. -/
theorem decode_serialize (hsize : m.size version max = .ok size)
    (hid : m.qos.isTracked = true → id ≠ 0) (hcapacity : size.total ≤ capacity)
    (hreceivable : version.hasProperties = true →
      m.Receivable n ∧ size.total ≤ n.maxPacketSize.toNat) :
    ∃ b header, m.serialize version id size capacity = .ok b ∧ b.length = size.total ∧
      Header.decode version b = .ok header ∧ header.total = b.length ∧
      decode version n (header.withData (b.drop header.length)) =
        .ok (if m.qos.isTracked then id else 0, m) := by
  obtain ⟨hvalid, hmax, rfl, -⟩ := (size_eq_ok id).mp hsize
  obtain ⟨-, hplain, hfits, htopic, -⟩ := isValid_iff.mp hvalid
  have hlength : (m.form version id).length = _ := length_form hmax
  have hbody : (m.body version id).length = _ := length_body (length_properties_le hmax)
  refine ⟨m.form version id, _, serialize_eq_form hid hplain hmax hcapacity, rfl,
    decodeHeader_form hmax, hlength.symm, decode_eq_ok.mpr ⟨firstByte_and m, ?_, ?_,
      minRemaining_le hvalid, ?_, ⟨hfits, ?_, hplain, ?_⟩⟩⟩
  · rw [body_of_shown]
    exact drop_form hmax
  · exact (congrArg List.length (drop_form hmax)).trans hbody
  · intro hproperties
    have htotal := (hreceivable hproperties).2
    simp only [Header.withData] at htotal ⊢
    omega
  · cases htracked : m.qos.isTracked
    · simp
    · simpa using hid htracked
  · intro hproperties
    exact ⟨length_properties_le hmax hproperties, (hreceivable hproperties).1.regionIsSound,
      fun hempty => (htopic hempty).2⟩

/-- A re-delivery that has an alias in place of a topic comes back. -/
theorem decode_serialize_alias :
    let m : Message := { topic := "", payload := [0x78], qos := .exactlyOnce, dup := true,
                         properties := [0x23, 0x00, 0x05] }
    let n : Negotiated := { topicAliasMax := 10, maxPacketSize := 12 }
    m.size .v5 12 = .ok ⟨9, 11⟩ ∧ (m.qos.isTracked = true → (7 : UInt16) ≠ 0) ∧ 11 ≤ 16 ∧
      (m.Receivable n ∧ 11 ≤ n.maxPacketSize.toNat) ∧
      ∃ b header, m.serialize .v5 7 ⟨9, 11⟩ 16 = .ok b ∧ b.length = 11 ∧
        Header.decode .v5 b = .ok header ∧ header.total = b.length ∧
        decode .v5 n (header.withData (b.drop header.length)) = .ok (7, m) := by
  intro m n
  have hsize : m.size .v5 12 = .ok ⟨9, 11⟩ := by decide +kernel
  have hwalk : Property.walk m.properties = ⟨[⟨.topicAlias, 5⟩], none⟩ := by decide +kernel
  have hreceivable : m.Receivable n := by
    refine ⟨by rw [hwalk], ?_, ?_⟩ <;> rw [hwalk]
    · decide
    · intro v hv
      cases List.mem_singleton.mp hv
      decide
  have htotal : 11 ≤ n.maxPacketSize.toNat := by decide
  exact ⟨hsize, by decide, by decide, ⟨hreceivable, htotal⟩,
    decode_serialize hsize (by decide) (by decide) fun _ => ⟨hreceivable, htotal⟩⟩

/-! ## Writing again what was read -/

/-- What the decoder lets pass and the encoder does not. -/
def Irregular (version : Version) (m : Message) : Prop :=
  (version.hasProperties = false ∧ m.topic.isEmpty = true) ∨ Topic.hasWildcard m.topic = true ∨
    (m.dup = true ∧ m.qos = .atMostOnce)

theorem Readable.isValid_iff (h : m.Readable version n id) :
    m.isValid version = true ↔ ¬m.Irregular version := by
  have hregion := h.region
  simp only [Message.isValid_iff, Irregular]
  constructor
  · rintro ⟨hdup, -, -, htopic, hwild⟩ (⟨hplain, hempty⟩ | hirregular | hirregular)
    · exact absurd (htopic hempty).1 (by simp [hplain])
    · exact absurd hirregular (by simp [hwild])
    · exact hdup hirregular
  · intro hregular
    have hplain := h.plain
    have hfits := h.topic_fits
    grind

/-- A packet with the type of a PUBLISH in the first byte, its flags as they are. -/
def asPublish : Bytes → Bytes
  | [] => []
  | first :: rest => (PacketType.publish.firstByte ||| (first &&& 0x0F)) :: rest

theorem asPublish_eq_self {first : UInt8} {rest : Bytes} :
    asPublish (first :: rest) = first :: rest ↔
      PacketType.ofFirstByte? first = some .publish := by
  have hbytes : ∀ i : Fin 256,
      PacketType.publish.firstByte ||| (UInt8.ofNat i &&& 0x0F) = UInt8.ofNat i ↔
        PacketType.ofFirstByte? (UInt8.ofNat i) = some .publish := by
    decide +kernel
  simpa [asPublish] using hbytes ⟨first.toNat, first.toNat_lt⟩

/-- A PUBLISH that was read is written again byte for byte. That its message could have been
sent is another matter: the decoder does not look at all that the encoder looks at. -/
theorem serialize_decode {header : Header} (hheader : Header.decode version b = .ok header)
    (hdecode : decode version n (header.withData (b.drop header.length)) = .ok (id, m)) :
    header.total = b.length ∧
      (∀ capacity, b.length ≤ capacity →
        m.serialize version id ⟨header.remaining, header.total⟩ capacity = .ok (asPublish b)) ∧
      (asPublish b = b ↔ PacketType.ofFirstByte? header.firstByte = some .publish) ∧
      ∀ max, m.size version max = .ok ⟨header.remaining, header.total⟩ ↔
        ¬m.Irregular version ∧ header.total ≤ max.toNat := by
  obtain ⟨-, hmax, hlength, hb⟩ := Header.decode_eq_ok.mp hheader
  obtain ⟨hflags, hbody, hdata, -, -, hreadable⟩ := decode_eq_ok.mp hdecode
  simp only [Header.withData] at hflags hbody hdata
  have hproperties := fun h => (hreadable.region h).1
  have hremaining : header.remaining = m.remaining version := by
    rw [← length_body hproperties, ← hbody, hdata]
  rw [hremaining] at hmax hlength
  rw [hbody, hremaining] at hb
  have hform : m.form version id = asPublish b := by
    rw [hb, List.cons_append, asPublish, hflags]
    rfl
  have hsame : b.length = (m.form version id).length := by
    rw [hb]
    rfl
  have htotal : header.total = (m.form version id).length := by
    rw [length_form hmax, Header.total, hlength, hremaining]
  have hid : m.qos.isTracked = true → id ≠ 0 := fun htracked hzero => by
    simp [hreadable.id_eq_zero.mp hzero] at htracked
  rw [hremaining, htotal, ← hform]
  refine ⟨hsame.symm, fun capacity hcapacity => ?_, ?_, fun max => ?_⟩
  · exact serialize_eq_form hid hreadable.plain hmax (hsame ▸ hcapacity)
  · rw [hform, hb, List.cons_append, asPublish_eq_self]
  · rw [size_eq_ok id, ← hreadable.isValid_iff]
    simp [hmax]

/-- A PUBLISH with an alias in place of a topic is written again. -/
theorem serialize_decode_alias :
    let b : Bytes := [0x32, 9, 0, 0, 0, 7, 3, 0x23, 0, 5, 0x78]
    let header : Header := ⟨0x32, 9, 2⟩
    let n : Negotiated := { topicAliasMax := 10 }
    let m : Message := { topic := "", payload := [0x78], qos := .atLeastOnce,
                         properties := [0x23, 0x00, 0x05] }
    Header.decode .v5 b = .ok header ∧
      decode .v5 n (header.withData (b.drop header.length)) = .ok (7, m) ∧
        header.total = b.length ∧
          (∀ capacity, b.length ≤ capacity →
            m.serialize .v5 7 ⟨header.remaining, header.total⟩ capacity = .ok (asPublish b)) ∧
          (asPublish b = b ↔ PacketType.ofFirstByte? header.firstByte = some .publish) ∧
          ∀ max, m.size .v5 max = .ok ⟨header.remaining, header.total⟩ ↔
            ¬m.Irregular .v5 ∧ header.total ≤ max.toNat := by
  intro b header n m
  have hheader : Header.decode .v5 b = .ok header := by decide +kernel
  have hdecode : decode .v5 n (header.withData (b.drop header.length)) = .ok (7, m) := by
    decide +kernel
  exact ⟨hheader, hdecode, serialize_decode hheader hdecode⟩

-- Messages that cannot be sent are received: one without a topic, one on a wildcard, and a
-- repeated attempt at what is attempted once.
example : ∀ p ∈ ([([0x30, 3, 0, 0, 0x78], { topic := "", payload := [0x78] }),
      ([0x30, 3, 0, 1, 0x2B], { topic := "+" }),
      ([0x38, 3, 0, 1, 0x61], { topic := "a", dup := true })] : List (Bytes × Message)),
    (Header.decode .v311 p.1).bind (fun header =>
        decode .v311 .default (header.withData (p.1.drop header.length))) = .ok (0, p.2) ∧
      p.2.size .v311 PacketSize.maxTotal = .error .badParameter := by
  decide +kernel

end Message

end MqttClient
