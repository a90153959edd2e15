import Mathlib.Data.Nat.Notation
import Mathlib.Tactic.Linarith
import Mathlib.Tactic.Ring
import MqttClient.Proofs.Headers
import MqttClient.Wire.Layout

/-!
# The form of a variable byte integer

Every number up to the largest has one form. `decode` reads it back, whatever follows it
(`VarInt.decode_bytes`), and reads nothing else (`VarInt.bytes_of_decode`). `write` puts the form
at the front of a buffer, and no front of the form is read as a number (`VarInt.write_decode`).
-/
namespace MqttClient.VarInt

/-- A number of `k + 1` groups that do not fit into `k` has that width. -/
theorem width_eq {k value : ℕ} (hk : k < maxWidth) (hlow : k = 0 ∨ 128 ^ k ≤ value)
    (hhigh : value < 128 ^ (k + 1)) : width value = k + 1 := by
  have hk' : k = 0 ∨ k = 1 ∨ k = 2 ∨ k = 3 := by
    simp only [maxWidth] at hk
    omega
  rcases hk' with rfl | rfl | rfl | rfl
  all_goals
    simp only [Nat.reducePow, Nat.reduceAdd] at hlow hhigh
    rw [width]
    split_ifs <;> omega

/-- No number of groups that can carry a value is less than its width. -/
theorem width_le {k value : ℕ} (hpos : 0 < k) (h : value < 128 ^ k) : width value ≤ k := by
  by_cases hk : maxWidth ≤ k
  · rw [maxWidth] at hk
    rw [width]
    split_ifs <;> omega
  · have hk' : k = 1 ∨ k = 2 ∨ k = 3 := by
      rw [maxWidth] at hk
      omega
    rcases hk' with rfl | rfl | rfl
    all_goals
      simp only [Nat.reducePow] at h
      rw [width]
      split_ifs <;> omega

theorem width_pos (value : ℕ) : 0 < width value := by
  rw [width]
  split_ifs <;> omega

/-- What has been seen of a number and what is still to come make up the number. -/
theorem value_succ (v x k : ℕ) :
    v + x % 128 * 128 ^ k + x / 128 * 128 ^ (k + 1) = v + x * 128 ^ k := by
  have hx := Nat.mod_add_div x 128
  calc v + x % 128 * 128 ^ k + x / 128 * 128 ^ (k + 1)
      = v + (x % 128 + 128 * (x / 128)) * 128 ^ k := by ring
    _ = v + x * 128 ^ k := by rw [hx]

theorem value_lt {v g k : ℕ} (hv : v < 128 ^ k) (hg : g < 128) :
    v + g * 128 ^ k < 128 ^ (k + 1) := by
  have hle : g * 128 ^ k ≤ 127 * 128 ^ k := Nat.mul_le_mul_right _ (by omega)
  have hpow : 128 ^ (k + 1) = 127 * 128 ^ k + 128 ^ k := by ring
  omega

/-- The groups that are left of a number finish it. -/
theorem decodeFrom_groups {n k v x : ℕ} (hn : k + n = maxWidth) (hv : v < 128 ^ k)
    (hx : x < 128 ^ n) (hpos : k = 0 ∨ 0 < x) (rest : Bytes) :
    decodeFrom ⟨v, k⟩ (groups n x ++ rest) =
      .ok (v + x * 128 ^ k, width (v + x * 128 ^ k)) := by
  induction n generalizing k v x with
  | zero =>
    simp only [maxWidth] at hn
    omega
  | succ n ih =>
    have hk : k ≠ maxWidth := by omega
    rw [groups]
    split
    · rename_i hlast
      have hbyte : (UInt8.ofNat x).toNat = x := by
        rw [UInt8.toNat_ofNat']
        omega
      have hwidth : width (v + x * 128 ^ k) = k + 1 := by
        refine width_eq (by omega) ?_ (value_lt hv hlast)
        rcases hpos with rfl | hpos
        · exact .inl rfl
        · exact .inr (Nat.le_add_left_of_le (Nat.le_mul_of_pos_left _ hpos))
      have hmod : x % 128 = x := Nat.mod_eq_of_lt hlast
      rw [List.singleton_append, decodeFrom, Pending.push]
      simp only [hbyte, if_neg hk, Nat.not_le.mpr hlast, if_false, Nat.pow_eq, hmod, hwidth,
        if_true]
    · rename_i hmore
      have hbyte : (UInt8.ofNat (x % 128 + 128)).toNat = x % 128 + 128 := by
        rw [UInt8.toNat_ofNat']
        omega
      have hle : 128 ≤ x % 128 + 128 := Nat.le_add_left _ _
      have hmod : (x % 128 + 128) % 128 = x % 128 := by omega
      have hdiv : x / 128 < 128 ^ n := by
        rw [Nat.div_lt_iff_lt_mul (by decide)]
        rwa [pow_succ] at hx
      rw [List.cons_append, decodeFrom, Pending.push]
      simp only [hbyte, if_neg hk, hle, if_true, Nat.pow_eq, hmod]
      rw [ih (by omega) (value_lt hv (Nat.mod_lt _ (by decide))) hdiv (.inr (by omega)),
        value_succ]

/-- A last byte is the only group of its number. -/
theorem groups_toNat {c : UInt8} (n : ℕ) (hc : c.toNat < 128) : groups (n + 1) c.toNat = [c] := by
  rw [groups, if_pos hc, UInt8.ofNat_toNat]

/-- Any other byte is the first of more groups. -/
theorem groups_more {c : UInt8} {n x : ℕ} (hc : 128 ≤ c.toNat) (hx : 0 < x) :
    groups (n + 1) (c.toNat % 128 + 128 * x) = c :: groups n x := by
  have hlow : (c.toNat % 128 + 128 * x) % 128 = c.toNat % 128 := by omega
  have hhigh : (c.toNat % 128 + 128 * x) / 128 = x := by omega
  have hbyte : UInt8.ofNat (c.toNat % 128 + 128) = c := by
    have := c.toNat_lt
    apply UInt8.toNat_inj.mp
    rw [UInt8.toNat_ofNat']
    omega
  rw [groups, if_neg (by omega), hlow, hhigh, hbyte]

/-- What finishes a number is the groups that were left of it. -/
theorem decodeFrom_inv {n k v value used : ℕ} {b : Bytes} (hn : k + n = maxWidth)
    (hv : v < 128 ^ k) (h : decodeFrom ⟨v, k⟩ b = .ok (value, used)) :
    ∃ x rest, b = groups n x ++ rest ∧ x < 128 ^ n ∧ (k = 0 ∨ 0 < x) ∧ value = v + x * 128 ^ k ∧
      used = width value ∧ used = k + (groups n x).length := by
  induction n generalizing k v b with
  | zero =>
    cases b with
    | nil => cases h
    | cons c b =>
      rw [decodeFrom, Pending.push, if_pos (by omega)] at h
      cases h
  | succ n ih =>
    cases b with
    | nil => cases h
    | cons c b =>
      have hk : k ≠ maxWidth := by omega
      have hmod : c.toNat % 128 < 128 := Nat.mod_lt _ (by decide)
      rw [decodeFrom, Pending.push, if_neg hk] at h
      simp only [Nat.pow_eq] at h
      split_ifs at h with hmore hwidth
      · obtain ⟨x, rest, rfl, hx, hpos, rfl, hwidth, hused⟩ := ih (by omega) (value_lt hv hmod) h
        have hx0 : 0 < x := hpos.resolve_left (Nat.succ_ne_zero k)
        have hgroups := groups_more (n := n) hmore hx0
        refine ⟨c.toNat % 128 + 128 * x, rest, ?_, ?_, .inr (by omega), by ring, hwidth, ?_⟩
        · rw [hgroups, List.cons_append]
        · rw [pow_succ]
          omega
        · rw [hgroups, List.length_cons, hused]
          omega
      · cases h
        have hlast : c.toNat < 128 := Nat.not_le.mp hmore
        have hgroups := groups_toNat n hlast
        rw [Nat.mod_eq_of_lt hlast] at hwidth ⊢
        refine ⟨c.toNat, b, ?_, ?_, ?_, rfl, hwidth, ?_⟩
        · rw [hgroups, List.singleton_append]
        · exact hlast.trans_le (Nat.le_self_pow (Nat.succ_ne_zero n) 128)
        · -- A last group of zero would have been left out.
          by_contra! hzero
          have hle : width v ≤ k := width_le (by omega) hv
          simp only [Nat.le_zero.mp hzero.2, Nat.zero_mul, Nat.add_zero] at hwidth
          omega
        · rw [hgroups, List.length_singleton]

variable {n used : ℕ} {b : Bytes}

theorem encode_eq_ok : encode n = .ok b ↔ n ≤ maxValue ∧ b = bytes n := by
  rw [encode]
  split <;> simp [*, eq_comm]

/-- The form of a number is read back, whatever follows it. -/
theorem decode_bytes (h : n ≤ maxValue) (rest : Bytes) :
    decode (bytes n ++ rest) = .ok (n, width n) := by
  have hn : n < 128 ^ maxWidth := Nat.lt_succ_of_le h
  have hread := decodeFrom_groups (Nat.zero_add _) Nat.one_pos hn (.inl rfl) rest
  rw [pow_zero, Nat.mul_one, Nat.zero_add] at hread
  exact hread

theorem decode_inv (h : decode b = .ok (n, used)) :
    n ≤ maxValue ∧ used = width n ∧ used = (bytes n).length ∧ ∃ rest, b = bytes n ++ rest := by
  obtain ⟨x, rest, hb, hx, -, hvalue, hwidth, hused⟩ :=
    decodeFrom_inv (Nat.zero_add maxWidth) Nat.one_pos h
  obtain rfl : n = x := by rwa [pow_zero, Nat.mul_one, Nat.zero_add] at hvalue
  exact ⟨Nat.le_of_lt_succ hx, hwidth, hused.trans (Nat.zero_add _), rest, hb⟩

/-- The form of a number is as long as its width. -/
theorem length_bytes (h : n ≤ maxValue) : (bytes n).length = width n := by
  obtain ⟨-, -, hlength, -⟩ := decode_inv (decode_bytes h [])
  exact hlength.symm

/-- What is read as a number is its form, and not a longer one. -/
theorem bytes_of_decode (h : decode b = .ok (n, used)) :
    n ≤ maxValue ∧ used = width n ∧ b = bytes n ++ b.drop used := by
  obtain ⟨hmax, hwidth, hlength, rest, rfl⟩ := decode_inv h
  refine ⟨hmax, hwidth, ?_⟩
  rw [hlength, List.drop_left]

/-- A number is unfinished until the last byte of its form. -/
theorem decode_take {k : ℕ} (h : n ≤ maxValue) (hk : k < width n) :
    decode ((bytes n).take k) = .error .needMoreBytes := by
  by_contra hdone
  -- A verdict on a front of the form would be the verdict on the whole form.
  have hwhole := decodeFrom_append ((bytes n).drop k) hdone
  rw [List.take_append_drop] at hwhole
  have hread := decode_bytes h []
  rw [List.append_nil] at hread
  obtain ⟨-, -, -, rest, hrest⟩ := decode_inv (hwhole.symm.trans hread)
  have hlength := congrArg List.length hrest
  rw [List.length_take, List.length_append, length_bytes h] at hlength
  omega

/-! ## In place -/

variable {value : ℕ} {buffer : Bytes}

/-- A buffer with room for the groups of a number gets them in front of the bytes that it keeps. -/
theorem overwrite_groups (h : (groups n value).length ≤ buffer.length) :
    overwrite (groups n value).length value buffer =
      groups n value ++ buffer.drop (groups n value).length := by
  induction n generalizing value buffer with
  | zero => simp [groups, overwrite]
  | succ n ih =>
    cases buffer with
    | nil =>
      simp only [groups] at h
      split at h <;> simp at h
    | cons c buffer =>
      by_cases hlast : value < 128
      · have hdiv : value / 128 = 0 := Nat.div_eq_of_lt hlast
        simp [groups, hlast, overwrite, hdiv, Nat.mod_eq_of_lt hlast]
      · have hleft : 0 < value / 128 := by omega
        simp only [groups, if_neg hlast, List.length_cons, Nat.add_le_add_iff_right] at h ⊢
        simp only [overwrite, if_pos hleft, ih h, List.cons_append, List.drop_succ_cons]

theorem write_eq (hmax : value ≤ maxValue) (hroom : width value ≤ buffer.length) :
    write value buffer = (.ok (width value), bytes value ++ buffer.drop (width value)) := by
  have hlength := length_bytes hmax
  rw [write, if_neg (Nat.not_lt.mpr hmax), if_neg (Nat.not_lt.mpr hroom), ← hlength, bytes,
    overwrite_groups]
  rw [← bytes, hlength]
  exact hroom

/-- To write a number is to lay out its form at the front of a buffer. -/
theorem write_eq_store (value : ℕ) (buffer : Bytes) :
    write value buffer = Layout.store buffer fun room => Layout.lay room [encode value] := by
  by_cases hmax : value ≤ maxValue
  · have hlength := length_bytes hmax
    have hlay : Layout.lay buffer.length [encode value] =
        if buffer.length < width value then .error .noMemory else .ok (bytes value) := by
      rw [encode, if_pos hmax, ← hlength]
      change (if buffer.length < (bytes value).length then _ else _) = _
      split
      · rfl
      · exact congrArg Except.ok (List.append_nil _)
    rw [Layout.store, hlay]
    by_cases hroom : width value ≤ buffer.length
    · simp [write_eq hmax hroom, Nat.not_lt.mpr hroom, hlength]
    · simp [write, Nat.not_lt.mpr hmax, Nat.not_le.mp hroom]
  · rw [write, if_pos (Nat.not_le.mp hmax), encode, if_neg hmax]
    rfl

/-- Numbers and forms determine each other. A number up to the largest is written as its form, of
as many bytes as its width, into every buffer with room for them, and the bytes behind stay. The
form is read back, whatever follows it, and no shorter front of it is enough. Conversely, the
bytes that are read as a number are the form of this number. -/
theorem write_decode (value : ℕ) :
    (value ≤ maxValue → ∀ buffer rest : Bytes, width value ≤ buffer.length →
      write value buffer = (.ok (width value), bytes value ++ buffer.drop (width value)) ∧
        (bytes value).length = width value ∧
        decode (bytes value ++ rest) = .ok (value, width value) ∧
        ∀ k < width value, decode ((bytes value).take k) = .error .needMoreBytes) ∧
      ∀ b used, decode b = .ok (value, used) →
        value ≤ maxValue ∧ used = width value ∧ b.take used = bytes value := by
  constructor
  · intro hmax buffer rest hroom
    exact ⟨write_eq hmax hroom, length_bytes hmax, decode_bytes hmax rest,
      fun k hk => decode_take hmax hk⟩
  · intro b used h
    obtain ⟨hmax, hwidth, hlength, rest, rfl⟩ := decode_inv h
    refine ⟨hmax, hwidth, ?_⟩
    rw [hlength, List.take_left]

/-- The least number of three bytes, in a buffer of five. -/
theorem write_decode_three :
    let form : Bytes := [0x80, 0x80, 0x01]
    width 16384 = 3 ∧
      write 16384 (List.replicate 5 0xEE) = (.ok 3, form ++ [0xEE, 0xEE]) ∧
      decode (form ++ [0xFF]) = .ok (16384, 3) ∧
      decode (form.take 2) = .error .needMoreBytes ∧
      (form ++ [0xFF]).take 3 = bytes 16384 := by
  intro form
  obtain ⟨hforth, hback⟩ := write_decode 16384
  obtain ⟨hwrite, -, hread, hfront⟩ :=
    hforth (by decide) (List.replicate 5 0xEE) [0xFF] (by decide)
  obtain ⟨-, -, hform⟩ := hback (form ++ [0xFF]) 3 hread
  exact ⟨rfl, hwrite, hread, hfront 2 (by decide), hform⟩

end MqttClient.VarInt
