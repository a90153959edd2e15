import Mathlib.Tactic.MkIffOfInductiveProp
import MqttClient.Packet.Publish
import MqttClient.Proofs.Wire.Fields

/-!
# The form of a PUBLISH

After its header a PUBLISH has one form, `Message.body`, and decoding one amounts to finding
the message of that form: `Message.decode_eq_ok` lists what the bytes, the header and the
message have to meet.
-/
namespace MqttClient.Message

/-- The bytes of a PUBLISH after its header. -/
def body (version : Version) (id : UInt16) (m : Message) : Bytes :=
  Bytes.framed m.topicBytes ++
    ((if m.qos.isTracked then Bytes.ofWord id else []) ++
      ((if version.hasProperties then VarInt.bytes m.properties.length ++ m.properties else []) ++
        m.payload))

/-- What the fields of an incoming PUBLISH have to meet, its flags and its size apart. -/
@[mk_iff]
structure Readable (version : Version) (n : Negotiated) (id : UInt16) (m : Message) : Prop where
  topic_fits : m.topicBytes.length ≤ Bytes.maxFieldLength
  id_eq_zero : id = 0 ↔ m.qos.isTracked = false
  plain : version.hasProperties = false → m.properties = []
  region : version.hasProperties = true →
    m.properties.length ≤ VarInt.maxValue ∧ regionIsSound n m.properties = true ∧
      (m.topic.isEmpty = true → m.hasTopicAlias = true)

variable {version : Version} {n : Negotiated} {id : UInt16} {m : Message}

theorem length_body (h : version.hasProperties = true → m.properties.length ≤ VarInt.maxValue) :
    (m.body version id).length = m.remaining version := by
  have hid : (if m.qos.isTracked then Bytes.ofWord id else []).length =
      if m.qos.isTracked then 2 else 0 := by
    split <;> rfl
  have hregion : (if version.hasProperties then VarInt.bytes m.properties.length ++ m.properties
      else []).length = if version.hasProperties then Property.regionSize m.properties else 0 := by
    split
    · rw [List.length_append, VarInt.length_bytes (h ‹_›), Property.regionSize]
    · rfl
  simp only [body, remaining, List.length_append, Bytes.length_framed, hid, hregion]
  omega

/-- The fields of a PUBLISH are read off the form of the message. -/
theorem read_eq_ok {qos : QoS} {firstByte : UInt8} {b left : Bytes} :
    read version n qos firstByte b = .ok ((id, m), left) ↔
      left = [] ∧ b = m.body version id ∧ m.Readable version n id ∧ m.qos = qos ∧
        m.retain = (firstByte &&& retainFlag != 0) ∧ m.dup = (firstByte &&& dupFlag != 0) := by
  obtain ⟨topic, payload, qos', retain, dup, properties⟩ := m
  rw [read]
  cases htracked : qos.isTracked <;> cases hproperties : version.hasProperties
  -- Each optional field is either read, by its own lemma, or absent.
  all_goals
    simp only [Reader.bind_eq_ok, Reader.text_eq_ok, Reader.word_eq_ok, Reader.region_eq_ok,
      Reader.rest_eq_ok, Reader.check_eq_ok, Reader.pure_eq_ok, Prod.mk.injEq, mk.injEq,
      if_true, if_false, Bool.false_eq_true, false_and, true_and, body, readable_iff, topicBytes]
    constructor <;> grind

/-- The flags of a first byte spell what a message says about its delivery. -/
theorem flags_eq_iff (firstByte : UInt8) :
    firstByte &&& 0x0F = m.flags ↔
      qosOfFlags firstByte = some m.qos ∧ m.retain = (firstByte &&& retainFlag != 0) ∧
        m.dup = (firstByte &&& dupFlag != 0) := by
  have hbytes : ∀ (qos : QoS) (retain dup : Bool) (i : Fin 256),
      UInt8.ofNat i &&& 0x0F = flags { topic := "", qos, retain, dup } ↔
        qosOfFlags (UInt8.ofNat i) = some qos ∧ retain = (UInt8.ofNat i &&& retainFlag != 0) ∧
          dup = (UInt8.ofNat i &&& dupFlag != 0) := by
    intro qos retain dup
    cases qos <;> cases retain <;> cases dup <;> decide +kernel
  simpa [flags] using hbytes m.qos m.retain m.dup ⟨firstByte.toNat, firstByte.toNat_lt⟩

/-- Decoding finds the message whose form the packet has, and refuses every other packet. -/
theorem decode_eq_ok {packet : Packet} :
    decode version n packet = .ok (id, m) ↔
      packet.firstByte &&& 0x0F = m.flags ∧ packet.data = m.body version id ∧
        packet.data.length = packet.remaining ∧ minRemaining m.qos ≤ packet.remaining ∧
          (version.hasProperties = true →
            packet.remaining + packet.length ≤ n.maxPacketSize.toNat) ∧
            m.Readable version n id := by
  rw [decode, flags_eq_iff]
  cases hqos : qosOfFlags packet.firstByte with
  | none => simp
  | some qos =>
    simp only [Option.some.injEq]
    constructor
    · intro h
      split at h
      · cases h
      split at h
      · cases h
      obtain ⟨left, hread⟩ := Reader.run'_eq_ok.mp h
      obtain ⟨-, hdata, hm, rfl, hretain, hdup⟩ := read_eq_ok.mp hread
      grind
    · rintro ⟨⟨rfl, hretain, hdup⟩, hdata, hlength, hmin, hmax, hm⟩
      rw [if_neg (by omega), if_neg (by simpa using hmax)]
      exact Reader.run'_eq_ok.mpr ⟨[], read_eq_ok.mpr ⟨rfl, hdata, hm, rfl, hretain, hdup⟩⟩

/-- The identifier of a tracked message is never zero. -/
theorem id_ne_zero_of_decode {packet : Packet} (h : decode version n packet = .ok (id, m))
    (hm : m.qos.isTracked = true) : id ≠ 0 := by
  obtain ⟨-, -, -, -, -, hreadable⟩ := decode_eq_ok.mp h
  intro hid
  rw [hreadable.id_eq_zero.mp hid] at hm
  cases hm

end MqttClient.Message
