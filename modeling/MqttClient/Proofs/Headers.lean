import Mathlib.Data.Nat.Notation
import MqttClient.Packet.Header

/-!
# Headers and what follows them

Decoding a header looks at the front of the bytes received so far. A verdict other than
`needMoreBytes` is final, in that no further bytes change it.
-/
namespace MqttClient

namespace VarInt

theorem decodeFrom_append {p : Pending} {b : Bytes} (more : Bytes)
    (h : decodeFrom p b ≠ .error .needMoreBytes) :
    decodeFrom p (b ++ more) = decodeFrom p b := by
  induction b generalizing p with
  | nil => exact absurd rfl h
  | cons x rest ih =>
    rw [List.cons_append, decodeFrom, decodeFrom]
    rw [decodeFrom] at h
    rcases hpush : p.push x with fault | ⟨q⟩ | ⟨value⟩ <;> simp only [hpush] at h ⊢
    exact ih h

/-- The bytes of a number's own form are enough to read it. -/
theorem decodeFrom_take {p : Pending} {b : Bytes} {value used n : ℕ}
    (h : decodeFrom p b = .ok (value, used)) (hn : used ≤ p.taken + n) :
    p.taken < used ∧ decodeFrom p (b.take n) = .ok (value, used) := by
  induction b generalizing p n with
  | nil => cases h
  | cons x rest ih =>
    rw [decodeFrom] at h
    rcases hpush : p.push x with fault | ⟨q⟩ | ⟨value'⟩ <;> simp only [hpush] at h
    · cases h
    · have hq : q.taken = p.taken + 1 := by grind [Pending.push]
      obtain ⟨hused, hrest⟩ := ih (n := n - 1) h (by omega)
      obtain ⟨m, hm⟩ : ∃ m, n = m + 1 := Nat.exists_eq_succ_of_ne_zero (by omega)
      subst hm
      rw [Nat.add_sub_cancel] at hrest
      refine ⟨by omega, ?_⟩
      rw [List.take_succ_cons, decodeFrom]
      simpa only [hpush] using hrest
    · simp only [Except.ok.injEq, Prod.mk.injEq] at h
      obtain ⟨m, hm⟩ : ∃ m, n = m + 1 := Nat.exists_eq_succ_of_ne_zero (by omega)
      subst hm
      refine ⟨by omega, ?_⟩
      rw [List.take_succ_cons, decodeFrom]
      simpa only [hpush, Except.ok.injEq, Prod.mk.injEq] using h

/-- A byte that is refused is no reason to wait for more. -/
theorem Pending.push_error {p : Pending} {b : UInt8} {fault : Fault}
    (h : p.push b = .error fault) : fault = .badResponse := by
  grind [Pending.push]

/-- A number that is not finished has taken every byte that there is, and at most four. -/
theorem length_le_of_needMoreBytes {p : Pending} {b : Bytes} (hp : p.taken ≤ maxWidth)
    (h : decodeFrom p b = .error .needMoreBytes) : p.taken + b.length ≤ maxWidth := by
  induction b generalizing p with
  | nil => simpa using hp
  | cons x rest ih =>
    rw [decodeFrom] at h
    rcases hpush : p.push x with fault | ⟨q⟩ | ⟨value⟩ <;> rw [hpush] at h
    · cases h
      cases Pending.push_error hpush
    · have hq : q.taken = p.taken + 1 ∧ p.taken ≠ maxWidth := by grind [Pending.push]
      have := ih (by omega) h
      rw [List.length_cons]
      omega
    · cases h

end VarInt

/-- The high half of a first byte tells a PINGRESP. -/
theorem PacketType.ofFirstByte?_eq_pingresp_iff {b : UInt8} :
    ofFirstByte? b = some .pingresp ↔ kindBits b = pingresp.firstByte := by
  have hbytes : ∀ i : Fin 256, ofFirstByte? (UInt8.ofNat i) = some .pingresp ↔
      kindBits (UInt8.ofNat i) = pingresp.firstByte := by decide +kernel
  simpa using hbytes ⟨b.toNat, b.toNat_lt⟩

namespace Header
variable {version : Version} {b : Bytes}

theorem decode_append (more : Bytes) (hne : b ≠ [])
    (h : decode version b ≠ .error .needMoreBytes) :
    decode version (b ++ more) = decode version b := by
  obtain ⟨first, rest, rfl⟩ := List.exists_cons_of_ne_nil hne
  rw [List.cons_append, decode, decode]
  rw [decode] at h
  by_cases harrive : mayArrive version first
  · simp only [if_pos harrive] at h ⊢
    rw [VarInt.decode, VarInt.decode, VarInt.decodeFrom_append more]
    intro hmore
    rw [VarInt.decode, hmore] at h
    exact h rfl
  · rw [if_neg harrive, if_neg harrive]

/-- A front part of bytes that begin with a header either has the same header or is too short. -/
theorem decode_front {more : Bytes} {h : Header} (hne : b ≠ [])
    (hdecode : decode version (b ++ more) = .ok h) :
    decode version b = .ok h ∨ decode version b = .error .needMoreBytes := by
  by_cases hshort : decode version b = .error .needMoreBytes
  · exact .inr hshort
  · exact .inl (decode_append more hne hshort ▸ hdecode)

/-- The bytes of a header are enough to read it. -/
theorem decode_take {h : Header} {n : ℕ} (hdecode : decode version b = .ok h) (hn : h.length ≤ n) :
    decode version (b.take n) = .ok h := by
  cases b with
  | nil => cases hdecode
  | cons first rest =>
    rw [decode] at hdecode
    by_cases harrives : mayArrive version first = true
    · rw [if_pos harrives] at hdecode
      split at hdecode
      · rename_i remaining width hnumber
        cases hdecode
        have hpos : 1 + width ≤ n := hn
        obtain ⟨m, hm⟩ : ∃ m, n = m + 1 := Nat.exists_eq_succ_of_ne_zero (by omega)
        subst hm
        have hfront : VarInt.decode (rest.take m) = .ok (remaining, width) :=
          (VarInt.decodeFrom_take hnumber (by simp only [VarInt.Pending.start]; omega)).2
        rw [List.take_succ_cons, decode, if_pos harrives, hfront]
      · cases hdecode
    · rw [if_neg harrives] at hdecode
      cases hdecode

/-- Only five bytes or fewer leave a header open. -/
theorem length_le_of_needMoreBytes (h : decode version b = .error .needMoreBytes) :
    0 < b.length ∧ b.length ≤ 1 + VarInt.maxWidth := by
  cases b with
  | nil => cases h
  | cons first rest =>
    rw [decode] at h
    split at h
    · split at h
      · cases h
      · rename_i hrest
        cases h
        have := VarInt.length_le_of_needMoreBytes (Nat.zero_le _) hrest
        simp only [VarInt.Pending.start] at this
        rw [List.length_cons]
        omega
    · cases h

theorem total_pos {h : Header} (hdecode : decode version b = .ok h) : 0 < h.total := by
  cases b with
  | nil => cases hdecode
  | cons first rest =>
    rw [decode] at hdecode
    split at hdecode
    · split at hdecode
      · cases hdecode
        simp only [total]
        omega
      · cases hdecode
    · cases hdecode

end Header

end MqttClient
