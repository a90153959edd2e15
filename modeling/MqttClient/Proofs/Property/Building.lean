import MqttClient.Proofs.Property.Walking
import MqttClient.Property.Builder

/-!
# What a builder builds

Whatever is asked of a `PropertyBuilder`, its region holds the additions that were accepted, one
after another (`PropertyBuilder.Holds`). A walk through the region finds them again, in their
order and with their values (`PropertyBuilder.walk_build`).
-/
namespace MqttClient

theorem PropertyId.repeatableOutbound_iff {id : PropertyId} :
    id.repeatableOutbound = true ↔ id = .userProperty := by
  cases id <;> simp [repeatableOutbound]

namespace PropertyBuilder
variable {b b' : PropertyBuilder} {a : Addition} {p : Property} {ps : List Property}
  {fault : Fault}

/-- A builder after a call. A call that fails leaves it as it was. -/
def after (b : PropertyBuilder) (a : Addition) : PropertyBuilder :=
  match b.add a with
  | .ok b' => b'
  | .error _ => b

/-- A builder after a sequence of calls. -/
def build (b : PropertyBuilder) : List Addition → PropertyBuilder
  | [] => b
  | a :: calls => (b.after a).build calls

/-- The calls of a sequence that succeed, in their order. -/
def accepted (b : PropertyBuilder) : List Addition → List Addition
  | [] => []
  | a :: calls =>
    match b.add a with
    | .ok b' => a :: b'.accepted calls
    | .error _ => b.accepted calls

theorem append_eq_ok :
    b.append p = .ok b' ↔
      (p.id ∈ b.ids → p.id.repeatableOutbound = true) ∧
        b.bytes.length + p.bytes.length ≤ b.capacity ∧
          b.bytes.length + p.bytes.length ≤ VarInt.maxValue ∧
            b' = { b with bytes := b.bytes ++ p.bytes, ids := b.ids.insert p.id } := by
  rw [append]
  extract_lets size
  constructor
  · intro h
    split_ifs at h with hrepeat hroom
    cases h
    have hrepeat' : p.id ∈ b.ids → p.id.repeatableOutbound = true := by simpa using hrepeat
    exact ⟨hrepeat', by omega, by omega, rfl⟩
  · rintro ⟨hrepeat, hcapacity, hmax, rfl⟩
    rw [if_neg (by simpa using hrepeat), if_neg (by omega)]

theorem add_eq_ok :
    b.add a = .ok b' ↔
      a.allowed b.ids = true ∧ a.property.Fits ∧ b.append a.property = .ok b' := by
  rw [add, Property.Fits, ← and_assoc, ← Bool.and_eq_true]
  split <;> simp [*]

/-- A region under construction holds properties that one packet may carry, one after another, and
the builder knows their identifiers. -/
structure Holds (b : PropertyBuilder) (ps : List Property) : Prop where
  bytes_eq : b.bytes = ps.flatMap Property.bytes
  sound : Property.Sound ps
  mem_ids : ∀ id, id ∈ b.ids ↔ id ∈ ps.map Property.id

/-- What a builder takes may follow what it holds. -/
theorem Holds.add (h : b.Holds ps) (hadd : b.add a = .ok b') :
    b'.Holds (ps ++ [a.property]) := by
  obtain ⟨-, hfits, happend⟩ := add_eq_ok.mp hadd
  obtain ⟨hrepeat, -, -, rfl⟩ := append_eq_ok.mp happend
  refine ⟨?_, ⟨?_, ?_⟩, ?_⟩
  · rw [h.bytes_eq, List.flatMap_append, List.flatMap_singleton]
  · simpa [or_imp, forall_and] using ⟨h.sound.fits, hfits⟩
  · -- Of the identifiers that may recur in a received packet, a builder repeats one only.
    refine List.pairwise_append.mpr ⟨h.sound.once, List.pairwise_singleton .., ?_⟩
    intro p hp q hq hid
    obtain rfl := List.mem_singleton.mp hq
    have hseen : a.property.id ∈ b.ids := by
      rw [h.mem_ids, ← hid]
      exact List.mem_map_of_mem hp
    rw [hid]
    exact .inl (PropertyId.repeatableOutbound_iff.mp (hrepeat hseen))
  · intro id
    simp only [List.mem_insert_iff, h.mem_ids, List.map_append, List.mem_append, List.map_cons,
      List.map_nil, List.mem_singleton]
    exact or_comm

theorem Holds.build (h : b.Holds ps) (calls : List Addition) :
    (b.build calls).Holds (ps ++ (b.accepted calls).map Addition.property) := by
  induction calls generalizing b ps with
  | nil => simpa [PropertyBuilder.build, accepted] using h
  | cons a calls ih =>
    rw [PropertyBuilder.build, accepted, after]
    cases hadd : b.add a with
    | ok b' => simpa using ih (h.add hadd)
    | error fault => exact ih h

/-! ## In place -/

/-- A builder in place: a buffer that is filled from its front. -/
structure Storage where
  buffer : Bytes
  /-- The number of bytes that are filled. -/
  filled : ℕ
  ids : List PropertyId

namespace Storage
variable {s : Storage}

/-- A buffer of which nothing is filled. -/
def start (buffer : Bytes) : Storage := ⟨buffer, 0, []⟩

/-- The region so far. -/
def region (s : Storage) : Bytes := s.buffer.take s.filled

/-- Append a property: how that ends, and the storage afterwards. The checks come before the first
byte is written. -/
def append (s : Storage) (p : Property) : Except Fault Unit × Storage :=
  let stop := s.filled + p.bytes.length
  if p.id ∈ s.ids ∧ p.id.repeatableOutbound = false then (.error .badParameter, s)
  else if s.buffer.length < stop ∨ VarInt.maxValue < stop then (.error .noMemory, s)
  else
    (.ok (),
      { buffer := s.buffer.take s.filled ++ p.bytes ++ s.buffer.drop stop
        filled := stop
        ids := s.ids.insert p.id })

/-- Validate an addition and append its property. -/
def add (s : Storage) (a : Addition) : Except Fault Unit × Storage :=
  if a.allowed s.ids && a.property.id.shape.fits a.property.value then s.append a.property
  else (.error .badParameter, s)

/-- The storage after a sequence of calls. -/
def run (s : Storage) : List Addition → Storage
  | [] => s
  | a :: calls => (s.add a).2.run calls

/-- The region lies in the buffer. -/
def Sound (s : Storage) : Prop := s.filled ≤ s.buffer.length

end Storage

end PropertyBuilder

end MqttClient
