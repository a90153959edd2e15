import MqttClient.Proofs.Wire.VarInt
import MqttClient.Wire.Reader

/-!
# The form of a received field

Every field that a reader takes has one form. A reader succeeds if that form stands at the
front of the received bytes, and only then. What it refuses is always `badResponse`
(`Reader.Strict`).
-/
namespace MqttClient

namespace Bytes

/-- Two bytes are the form of the word that they spell. -/
theorem ofWord_word (high low : UInt8) : ofWord (word high low) = [high, low] := by
  have hhigh := high.toNat_lt
  have hlow := low.toNat_lt
  simp only [ofWord, word, UInt16.toNat_ofNat', List.cons.injEq, and_true]
  constructor <;> apply UInt8.toNat_inj.mp <;> rw [UInt8.toNat_ofNat'] <;> omega

/-- Four bytes are the form of the number that they spell. -/
theorem ofLong_long (w x y z : UInt8) : ofLong (long w x y z) = [w, x, y, z] := by
  have hw := w.toNat_lt
  have hx := x.toNat_lt
  have hy := y.toNat_lt
  have hz := z.toNat_lt
  simp only [ofLong, long, UInt32.toNat_ofNat', List.cons.injEq, and_true]
  refine ⟨?_, ?_, ?_, ?_⟩ <;> apply UInt8.toNat_inj.mp <;> rw [UInt8.toNat_ofNat'] <;> omega

end Bytes

namespace Reader
variable {α β : Type} {b left : Bytes}

theorem bind_eq_ok {reader : Reader α} {f : α → Reader β} {r : β × Bytes} :
    (reader >>= f) b = .ok r ↔ ∃ a left, reader b = .ok (a, left) ∧ f a left = .ok r := by
  change (reader b >>= fun p => f p.1 p.2) = .ok r ↔ _
  rcases reader b with fault | ⟨a, left⟩ <;> simp [bind, Except.bind]

theorem run'_eq_ok {reader : Reader α} {a : α} :
    reader.run' b = .ok a ↔ ∃ left, reader b = .ok (a, left) := by
  simp only [StateT.run', Functor.map, Except.map]
  split
  · simp [*]
  · rename_i r hr
    simp [hr, Prod.ext_iff]

@[simp] theorem refuse_ne_ok {r : α × Bytes} : (refuse : Reader α) b ≠ .ok r := nofun

@[simp] theorem pure_eq_ok {a : α} {r : α × Bytes} :
    (pure a : Reader α) b = .ok r ↔ r = (a, b) := by
  constructor
  · intro h
    cases h
    rfl
  · rintro rfl
    rfl

/-- A check in front of a reader. -/
theorem check_eq_ok {p : Prop} [Decidable p] {f : α → Reader β} {reader : Reader β}
    {r : β × Bytes} :
    (if p then refuse >>= f else reader) b = .ok r ↔ ¬p ∧ reader b = .ok r := by
  split
  · simpa [bind_eq_ok] using fun hp => absurd ‹p› hp
  · simp [*]

theorem rest_eq_ok {a : Bytes} : rest b = .ok (a, left) ↔ b = a ∧ left = [] := by
  simp [rest, eq_comm]

theorem take_eq_ok {n : ℕ} {a : Bytes} :
    take n b = .ok (a, left) ↔ a.length = n ∧ b = a ++ left := by
  rw [take]
  constructor
  · intro h
    split at h
    · cases h
      exact ⟨‹_›, (List.take_append_drop n b).symm⟩
    · cases h
  · rintro ⟨rfl, rfl⟩
    simp

theorem byte_eq_ok {a : UInt8} : byte b = .ok (a, left) ↔ b = a :: left := by
  cases b <;> simp [byte]

theorem word_eq_ok {w : UInt16} : word b = .ok (w, left) ↔ b = Bytes.ofWord w ++ left := by
  constructor
  · intro h
    rw [word.eq_def] at h
    split at h
    · cases h
      rw [Bytes.ofWord_word]
      rfl
    · cases h
  · rintro rfl
    exact congrArg (fun w => Except.ok (w, left)) (Bytes.word_ofWord w)

theorem long_eq_ok {v : UInt32} : long b = .ok (v, left) ↔ b = Bytes.ofLong v ++ left := by
  constructor
  · intro h
    rw [long.eq_def] at h
    split at h
    · cases h
      rw [Bytes.ofLong_long]
      rfl
    · cases h
  · rintro rfl
    exact congrArg (fun v => Except.ok (v, left)) (Bytes.long_ofLong v)

theorem varint_eq_ok {n : ℕ} :
    varint b = .ok (n, left) ↔ n ≤ VarInt.maxValue ∧ b = VarInt.bytes n ++ left := by
  rw [varint]
  constructor
  · intro h
    split at h
    · rename_i value used hdecode
      cases h
      obtain ⟨hmax, -, hb⟩ := VarInt.bytes_of_decode hdecode
      exact ⟨hmax, hb⟩
    · cases h
  · rintro ⟨hmax, rfl⟩
    rw [VarInt.decode_bytes hmax, ← VarInt.length_bytes hmax]
    simp

theorem framed_eq_ok {a : Bytes} :
    framed b = .ok (a, left) ↔
      a.length ≤ Bytes.maxFieldLength ∧ b = Bytes.framed a ++ left := by
  simp only [framed, bind_eq_ok, word_eq_ok, take_eq_ok, Bytes.framed, Bytes.lengthField]
  constructor
  · rintro ⟨length, _, rfl, hlength, rfl⟩
    rw [hlength, UInt16.ofNat_toNat, List.append_assoc]
    exact ⟨Nat.le_of_lt_succ length.toNat_lt, rfl⟩
  · rintro ⟨hmax, rfl⟩
    refine ⟨_, _, List.append_assoc .., ?_, rfl⟩
    rw [UInt16.toNat_ofNat']
    exact (Nat.mod_eq_of_lt (Nat.lt_succ_of_le hmax)).symm

theorem text_eq_ok {s : String} :
    text b = .ok (s, left) ↔
      (Bytes.ofText s).length ≤ Bytes.maxFieldLength ∧
        b = Bytes.framed (Bytes.ofText s) ++ left := by
  rw [text, bind_eq_ok, ← framed_eq_ok]
  constructor
  · rintro ⟨a, left', hframed, h⟩
    cases htext : Bytes.text? a <;> rw [htext] at h
    · cases h
    · cases h
      rwa [Bytes.ofText_of_text? htext]
  · intro h
    refine ⟨_, _, h, ?_⟩
    rw [Bytes.text?_ofText]
    rfl

theorem region_eq_ok {a : Bytes} :
    region b = .ok (a, left) ↔
      a.length ≤ VarInt.maxValue ∧ b = VarInt.bytes a.length ++ a ++ left := by
  simp only [region, bind_eq_ok, varint_eq_ok, take_eq_ok]
  constructor
  · rintro ⟨_, _, ⟨hmax, rfl⟩, rfl, rfl⟩
    exact ⟨hmax, (List.append_assoc ..).symm⟩
  · rintro ⟨hmax, rfl⟩
    exact ⟨_, _, ⟨hmax, List.append_assoc ..⟩, rfl, rfl⟩

/-! ## What a reader refuses -/

/-- A reader that fails with `badResponse` only. -/
def Strict (reader : Reader α) : Prop :=
  ∀ b fault, reader b = .error fault → fault = .badResponse

namespace Strict
variable {reader other : Reader α}

theorem pure (a : α) : Strict (Pure.pure a : Reader α) := nofun

theorem refuse : Strict (Reader.refuse : Reader α) := by
  rintro b _ ⟨⟩
  rfl

theorem bind {f : α → Reader β} (h : Strict reader) (hf : ∀ a, Strict (f a)) :
    Strict (reader >>= f) := by
  intro b fault hrun
  change (reader b >>= fun p => f p.1 p.2) = .error fault at hrun
  cases hread : reader b with
  | error fault' =>
    rw [hread] at hrun
    cases hrun
    exact h b _ hread
  | ok read =>
    rw [hread] at hrun
    exact hf read.1 read.2 fault hrun

theorem ite {c : Prop} [Decidable c] (h : Strict reader) (hother : Strict other) :
    Strict (if c then reader else other) := by
  split
  · exact h
  · exact hother

theorem check {c : Prop} [Decidable c] {f : β → Reader α} (h : Strict reader) :
    Strict (if c then (Reader.refuse : Reader β) >>= f else reader) := by
  refine ite ?_ h
  rintro b _ ⟨⟩
  rfl

theorem take (n : ℕ) : Strict (Reader.take n) := by
  intro b fault h
  simp only [Reader.take] at h
  split at h <;> cases h
  rfl

theorem rest : Strict Reader.rest := nofun

theorem done : Strict Reader.done := by
  intro b fault h
  rw [Reader.done] at h
  split at h <;> cases h
  rfl

theorem byte : Strict Reader.byte := by
  rintro (_ | ⟨a, b⟩) fault ⟨⟩
  rfl

theorem word : Strict Reader.word := by
  intro b fault h
  rw [Reader.word.eq_def] at h
  split at h <;> cases h
  rfl

theorem long : Strict Reader.long := by
  intro b fault h
  rw [Reader.long.eq_def] at h
  split at h <;> cases h
  rfl

theorem varint : Strict Reader.varint := by
  intro b fault h
  rw [Reader.varint] at h
  split at h <;> cases h
  rfl

theorem framed : Strict Reader.framed := word.bind fun _ => take _

theorem text : Strict Reader.text := by
  refine framed.bind fun b => ?_
  split
  · exact pure _
  · exact refuse

theorem region : Strict Reader.region := varint.bind fun _ => take _

theorem run' {b : Bytes} {fault : Fault} (h : Strict reader)
    (hrun : reader.run' b = .error fault) : fault = .badResponse := by
  simp only [StateT.run', Functor.map, Except.map] at hrun
  split at hrun
  · rename_i hread
    cases hrun
    exact h b _ hread
  · cases hrun

end Strict

end Reader

end MqttClient
