import Mathlib.Logic.Function.Iterate
import MqttClient.Proofs.Faults
import MqttClient.Proofs.Wire.VarInt
import MqttClient.Scripted

/-!
# Headers that are not all there

A header ends where the number in it ends. Where received bytes end before, there is reason to wait
for more, and `VarInt.decode_waits` says when a decoder does. The wait is the only answer that
further bytes can change (`Header.decode_final`). Bytes that are read off a stream one by one have
to be there, so the reader of a stream does not wait. Apart from that it reads the same headers,
and takes no byte beyond them (`Host.readHeader_agrees`).
-/
namespace MqttClient

namespace VarInt

/-! ## Numbers -/

/-- Bytes with their high bits set belong to a number that goes on behind them. -/
def Continued (b : Bytes) : Prop := ∀ c ∈ b, 128 ≤ c.toNat

theorem continued_of_needMoreBytes {p : Pending} {b : Bytes}
    (h : decodeFrom p b = .error .needMoreBytes) : Continued b := by
  fun_induction decodeFrom p b with
  | case1 p => exact nofun
  | case2 p c rest fault hpush =>
    cases h
    cases Pending.push_error hpush
  | case3 p c rest q hpush ih =>
    have hc : 128 ≤ c.toNat := by grind [Pending.push]
    exact List.forall_mem_cons.mpr ⟨hc, ih h⟩
  | case4 p c rest value hpush => cases h

theorem decodeFrom_error {p : Pending} {b : Bytes} {fault : Fault}
    (h : decodeFrom p b = .error fault) : fault = .needMoreBytes ∨ fault = .badResponse := by
  fun_induction decodeFrom p b with
  | case1 p =>
    cases h
    exact .inl rfl
  | case2 p c rest fault' hpush =>
    cases h
    exact .inr (Pending.push_error hpush)
  | case3 p c rest q hpush ih => exact ih h
  | case4 p c rest value hpush => cases h

/-- Groups of a number that goes on are taken in while there is room for them. -/
theorem decodeFrom_continued {k v : ℕ} {b : Bytes} (hv : v < 128 ^ k)
    (hroom : k + b.length ≤ maxWidth) (hb : Continued b) :
    ∃ w < 128 ^ (k + b.length), ∀ more,
      decodeFrom ⟨v, k⟩ (b ++ more) = decodeFrom ⟨w, k + b.length⟩ more := by
  induction b generalizing k v with
  | nil => exact ⟨v, hv, fun _ => rfl⟩
  | cons c rest ih =>
    obtain ⟨hc, hrest⟩ := List.forall_mem_cons.mp hb
    rw [List.length_cons, Nat.add_comm rest.length, ← Nat.add_assoc] at hroom ⊢
    have hmod : c.toNat % 128 < 128 := Nat.mod_lt _ (by decide)
    obtain ⟨w, hw, hmore⟩ := ih (value_lt hv hmod) hroom hrest
    have hk : k ≠ maxWidth := by omega
    refine ⟨w, hw, fun more => ?_⟩
    rw [← hmore, List.cons_append, decodeFrom, Pending.push, if_neg hk]
    simp only [if_pos hc, Nat.pow_eq]

theorem decode_continued {b : Bytes} (hroom : b.length ≤ maxWidth) (hb : Continued b) :
    ∃ w < 128 ^ b.length, ∀ more, decode (b ++ more) = decodeFrom ⟨w, b.length⟩ more := by
  have hgroups := decodeFrom_continued (k := 0) Nat.one_pos (by omega) hb
  rwa [Nat.zero_add] at hgroups

/-- A number is unfinished as long as it goes on and there is room for what has been seen. -/
theorem decode_eq_needMoreBytes_iff {b : Bytes} :
    decode b = .error .needMoreBytes ↔ b.length ≤ maxWidth ∧ Continued b := by
  constructor
  · intro h
    have hlength := length_le_of_needMoreBytes (Nat.zero_le _) h
    exact ⟨(Nat.zero_add _).symm.trans_le hlength, continued_of_needMoreBytes h⟩
  · rintro ⟨hroom, hb⟩
    obtain ⟨w, -, hmore⟩ := decode_continued hroom hb
    rw [← List.append_nil b, hmore]
    rfl

/-- As long as there is room for another group, a group of one finishes the number. -/
theorem decode_finish {b : Bytes} (hroom : b.length < maxWidth) (hb : Continued b) :
    ∃ found, decode (b ++ [1]) = .ok found := by
  obtain ⟨w, hw, hmore⟩ := decode_continued (Nat.le_of_lt hroom) hb
  obtain ⟨n, hn⟩ : ∃ n, maxWidth = b.length + (n + 1) := Nat.exists_eq_add_of_lt hroom
  have hone : groups (n + 1) 1 = [1] := groups_toNat (c := 1) n (by decide)
  have hfits : 1 < 128 ^ (n + 1) := Nat.one_lt_pow (Nat.succ_ne_zero n) (by decide)
  have hread := decodeFrom_groups hn.symm hw hfits (.inr Nat.one_pos) []
  rw [hone, List.append_nil, ← hmore] at hread
  exact ⟨_, hread⟩

/-- A fifth group is refused. -/
theorem decode_overlong {b : Bytes} (hfull : b.length = maxWidth) (hb : Continued b) (c : UInt8)
    (more : Bytes) : decode (b ++ c :: more) = .error .badResponse := by
  obtain ⟨w, -, hmore⟩ := decode_continued (Nat.le_of_eq hfull) hb
  rw [hmore, decodeFrom, Pending.push, if_pos hfull]

/-- **Waiting for more bytes.** Bytes that hold no number yet are kept waiting when further bytes
can finish one. One more case waits: four bytes that all go on, although any byte behind them is
refused. All other bytes are refused at once. -/
theorem decode_waits {b : Bytes} (h : ∀ found, decode b ≠ .ok found) :
    (decode b = .error .needMoreBytes ↔
      (∃ more found, decode (b ++ more) = .ok found) ∨ b.length = maxWidth ∧ Continued b) ∧
    (decode b ≠ .error .needMoreBytes → decode b = .error .badResponse) ∧
    (b.length = maxWidth → Continued b →
      ∀ c more, decode (b ++ c :: more) = .error .badResponse) := by
  refine ⟨⟨fun hwaits => ?_, ?_⟩, fun hrefused => ?_, decode_overlong⟩
  · obtain ⟨hroom, hb⟩ := decode_eq_needMoreBytes_iff.mp hwaits
    rcases Nat.lt_or_eq_of_le hroom with hlt | hfull
    · exact .inl ⟨[1], decode_finish hlt hb⟩
    · exact .inr ⟨hfull, hb⟩
  · rintro (⟨more, found, hread⟩ | ⟨hfull, hb⟩)
    · -- Without the verdict to wait, further bytes would change nothing.
      by_contra hfinal
      exact h found ((decodeFrom_append more hfinal).symm.trans hread)
    · exact decode_eq_needMoreBytes_iff.mpr ⟨Nat.le_of_eq hfull, hb⟩
  · cases hdecode : decode b with
    | ok found => exact absurd hdecode (h found)
    | error fault =>
      rcases decodeFrom_error hdecode with rfl | rfl
      · exact absurd hdecode hrefused
      · rfl

/-- Four bytes that all go on are kept waiting, and no byte can follow them. -/
theorem decode_waits_four :
    let b : Bytes := [0x80, 0xFF, 0x80, 0x80]
    (∀ found, decode b ≠ .ok found) ∧ decode b = .error .needMoreBytes ∧
      ∀ c more, decode (b ++ c :: more) = .error .badResponse := by
  intro b
  have hb : Continued b := by simp [Continued, b]
  have hfull : b.length = maxWidth := rfl
  have hopen : ∀ found, decode b ≠ .ok found := by
    intro found hread
    rw [decode_eq_needMoreBytes_iff.mpr ⟨hfull.le, hb⟩] at hread
    cases hread
  obtain ⟨hwaits, -, hrefused⟩ := decode_waits hopen
  exact ⟨hopen, hwaits.mpr (.inr ⟨hfull, hb⟩), hrefused hfull hb⟩

end VarInt

/-! ## Headers among received bytes -/

namespace Header
variable {version : Version} {b : Bytes}

/-- A header lies within the bytes that it is found in. -/
theorem length_le_of_decode {h : Header} (hdecode : decode version b = .ok h) :
    h.length ≤ b.length := by
  cases b with
  | nil => cases hdecode
  | cons first rest =>
    rw [decode] at hdecode
    split_ifs at hdecode
    cases hnumber : VarInt.decode rest with
    | error fault =>
      rw [hnumber] at hdecode
      cases hdecode
    | ok found =>
      obtain ⟨remaining, used⟩ := found
      rw [hnumber] at hdecode
      cases hdecode
      obtain ⟨hmax, rfl, hrest⟩ := VarInt.bytes_of_decode hnumber
      have hlength := congrArg List.length hrest
      rw [List.length_append, VarInt.length_bytes hmax] at hlength
      change 1 + VarInt.width remaining ≤ rest.length + 1
      omega

/-- Bytes are kept waiting while the number behind a type that may arrive is unfinished. -/
theorem decode_eq_needMoreBytes_iff {first : UInt8} {rest : Bytes} :
    decode version (first :: rest) = .error .needMoreBytes ↔
      mayArrive version first = true ∧ VarInt.decode rest = .error .needMoreBytes := by
  rw [decode]
  split_ifs with harrives
  · cases VarInt.decode rest <;> simp [harrives]
  · simp [harrives]

/-- The wait has an end: the next byte can finish the header, or else every byte is refused. -/
theorem exists_decided (h : decode version b = .error .needMoreBytes) :
    ∃ c, decode version (b ++ [c]) ≠ .error .needMoreBytes := by
  cases b with
  | nil => cases h
  | cons first rest =>
    obtain ⟨-, hwaits⟩ := decode_eq_needMoreBytes_iff.mp h
    obtain ⟨hroom, hrest⟩ := VarInt.decode_eq_needMoreBytes_iff.mp hwaits
    refine ⟨1, fun hmore => ?_⟩
    obtain ⟨-, hmore⟩ := decode_eq_needMoreBytes_iff.mp hmore
    rcases Nat.lt_or_eq_of_le hroom with hlt | hfull
    · obtain ⟨found, hfound⟩ := VarInt.decode_finish hlt hrest
      cases hmore.symm.trans hfound
    · cases hmore.symm.trans (VarInt.decode_overlong hfull hrest 1 [])

/-- **A verdict on a header is final.** A header that is found at the front of received bytes lies
within them, and is found whatever comes behind them. Bytes that are refused are refused whatever
comes behind. In between there is one answer only, to wait for more, and it is the answer exactly
where further bytes can change it. -/
theorem decode_final (version : Version) {b : Bytes} (hne : b ≠ []) :
    (∀ h, decode version b = .ok h →
      h.length ≤ b.length ∧ ∀ more, decode version (b ++ more) = .ok h) ∧
    (decode version b = .error .badResponse →
      ∀ more, decode version (b ++ more) = .error .badResponse) ∧
    (decode version b = .error .needMoreBytes ↔
      ∃ more, decode version (b ++ more) ≠ decode version b) ∧
    ∀ fault, decode version b = .error fault → fault = .needMoreBytes ∨ fault = .badResponse := by
  have hkept : ∀ more, decode version b ≠ .error .needMoreBytes →
      decode version (b ++ more) = decode version b := fun more => decode_append more hne
  refine ⟨fun h hdecode => ⟨length_le_of_decode hdecode, fun more => ?_⟩, fun hrefused more => ?_,
    ⟨fun hwaits => ?_, ?_⟩, fun fault hfault => ?_⟩
  · rw [hkept more (by rw [hdecode]; nofun), hdecode]
  · rw [hkept more (by rw [hrefused]; nofun), hrefused]
  · obtain ⟨c, hdecided⟩ := exists_decided hwaits
    exact ⟨[c], by rwa [hwaits]⟩
  · rintro ⟨more, hchanged⟩
    by_contra hfinal
    exact hchanged (hkept more hfinal)
  · exact (decode_error hfault).resolve_left fun hnone => hne hnone.2

/-- A PUBLISH of 321 bytes has its header after three bytes, a number in too many bytes is refused
after as many, and after two bytes it is open which of them it will be. -/
theorem decode_final_publish :
    ([0x32, 0xC1, 0x02] : Bytes) ≠ [] ∧ ([0x32, 0xC1, 0x00] : Bytes) ≠ [] ∧
      ([0x32, 0xC1] : Bytes) ≠ [] ∧
      (∀ more, decode .v311 ([0x32, 0xC1, 0x02] ++ more) = .ok ⟨0x32, 321, 3⟩) ∧
      (∀ more, decode .v311 ([0x32, 0xC1, 0x00] ++ more) = .error .badResponse) ∧
      decode .v311 [0x32, 0xC1] = .error .needMoreBytes ∧
      ∃ more, decode .v311 ([0x32, 0xC1] ++ more) ≠ decode .v311 [0x32, 0xC1] := by
  have hfound : ([0x32, 0xC1, 0x02] : Bytes) ≠ [] := List.cons_ne_nil _ _
  have hrefused : ([0x32, 0xC1, 0x00] : Bytes) ≠ [] := List.cons_ne_nil _ _
  have hopen : ([0x32, 0xC1] : Bytes) ≠ [] := List.cons_ne_nil _ _
  exact ⟨hfound, hrefused, hopen, ((decode_final .v311 hfound).1 ⟨0x32, 321, 3⟩ rfl).2,
    (decode_final .v311 hrefused).2.1 rfl, rfl, (decode_final .v311 hopen).2.2.1.mp rfl⟩

end Header

/-! ## Headers off a stream -/

namespace Host
variable {ω : Type} [Host ω] {b : Bytes} {h : ω}

/-- Reads of one byte bring these bytes, one after another, and the next read brings nothing. -/
def Yields : Bytes → ω → Prop
  | [], h => ∃ arrived, (read 1 h).1 = some (0, arrived)
  | c :: b, h => (read 1 h).1 = some (1, [c]) ∧ Yields b (read 1 h).2

/-- The host after `n` reads of one byte. -/
def afterReads (n : ℕ) (h : ω) : ω := (fun h => (read 1 h).2)^[n] h

theorem Yields.drop {n : ℕ} (hb : Yields b h) (hn : n ≤ b.length) :
    Yields (b.drop n) (afterReads n h) := by
  induction n generalizing b h with
  | zero => exact hb
  | succ n ih =>
    cases b with
    | nil => simp at hn
    | cons c rest => exact ih hb.2 (Nat.le_of_succ_le_succ hn)

theorem readByte_of_read {count : ℕ} {arrived : Bytes}
    (hread : (read 1 h).1 = some (count, arrived)) :
    readByte h = (some (count, arrived.headD 0), (read 1 h).2) := by
  rw [readByte]
  generalize read 1 h = answer at hread
  obtain ⟨_, h'⟩ := answer
  cases hread
  rfl

theorem readByte_of_yields {c : UInt8} (hb : Yields (c :: b) h) :
    readByte h = (some (1, c), (read 1 h).2) :=
  readByte_of_read hb.1

/-- The rest of a number is read off the stream as it is decoded from the bytes that come. A rest
that does not come in full is refused. -/
theorem readVarIntFrom_of_yields {n : ℕ} {p : VarInt.Pending} (hp : p.taken ≤ VarInt.maxWidth)
    (hn : p.taken + n = VarInt.maxWidth + 1) (hb : Yields b h) :
    (∀ fault, VarInt.decodeFrom p b = .error fault →
      ∃ h', readVarIntFrom n p h = (.error .badResponse, h')) ∧
    ∀ value used, VarInt.decodeFrom p b = .ok (value, used) →
      ∃ k ≤ b.length, used = p.taken + k ∧
        readVarIntFrom n p h = (.ok value, afterReads k h) := by
  obtain ⟨m, rfl⟩ : ∃ m, n = m + 1 := ⟨n - 1, by omega⟩
  induction b generalizing m p h with
  | nil =>
    obtain ⟨arrived, hread⟩ := hb
    rw [readVarIntFrom, readByte_of_read hread]
    exact ⟨fun _ _ => ⟨_, rfl⟩, fun _ _ hok => by cases hok⟩
  | cons c rest ih =>
    rw [readVarIntFrom, readByte_of_yields hb, VarInt.decodeFrom]
    rcases hpush : p.push c with fault | ⟨q⟩ | ⟨value⟩ <;> simp only [hpush, if_true]
    · cases VarInt.Pending.push_error hpush
      exact ⟨fun _ _ => ⟨_, rfl⟩, fun _ _ hok => by cases hok⟩
    · have hq : q.taken = p.taken + 1 ∧ p.taken ≠ VarInt.maxWidth := by
        grind [VarInt.Pending.push]
      obtain ⟨m, rfl⟩ : ∃ k, m = k + 1 := ⟨m - 1, by omega⟩
      obtain ⟨herror, hok⟩ := ih (p := q) (by omega) hb.2 m (by omega)
      refine ⟨herror, fun value used hdecode => ?_⟩
      obtain ⟨k, hk, hused, hread⟩ := hok value used hdecode
      exact ⟨k + 1, by simpa using hk, by omega, hread⟩
    · refine ⟨fun _ herror => (by cases herror), ?_⟩
      rintro _ _ ⟨⟩
      exact ⟨1, by simp, rfl, rfl⟩

theorem readVarInt_of_yields (hb : Yields b h) :
    (∀ fault, VarInt.decode b = .error fault → ∃ h', readVarInt h = (.error .badResponse, h')) ∧
    ∀ value used, VarInt.decode b = .ok (value, used) →
      used ≤ b.length ∧ readVarInt h = (.ok value, afterReads used h) := by
  obtain ⟨herror, hok⟩ :=
    readVarIntFrom_of_yields (p := .start) (Nat.zero_le _) (Nat.zero_add _) hb
  refine ⟨herror, fun value used hdecode => ?_⟩
  obtain ⟨k, hk, hused, hread⟩ := hok value used hdecode
  obtain rfl : used = k := hused.trans (Nat.zero_add k)
  exact ⟨hk, hread⟩

/-- A header is read off the stream as it is decoded from the bytes that come. -/
theorem readHeader_of_yields (version : Version) (hb : Yields b h) :
    (∀ fault, Header.decode version b = .error fault →
      (readHeader version h).1 = .error (if b = [] then .noDataAvailable else .badResponse)) ∧
    ∀ header, Header.decode version b = .ok header →
      header.length ≤ b.length ∧
        readHeader version h = (.ok header, afterReads header.length h) := by
  cases b with
  | nil =>
    obtain ⟨arrived, hread⟩ := hb
    rw [readHeader, readByte_of_read hread]
    exact ⟨fun _ _ => rfl, fun _ hok => by cases hok⟩
  | cons first rest =>
    rw [readHeader, readByte_of_yields hb, Header.decode]
    by_cases harrive : mayArrive version first
    · obtain ⟨herror, hok⟩ := readVarInt_of_yields hb.2
      simp only [if_pos harrive, Nat.one_ne_zero, if_false, reduceCtorEq]
      cases hdecode : VarInt.decode rest with
      | error fault =>
        obtain ⟨h', hread⟩ := herror fault hdecode
        rw [hread]
        exact ⟨fun _ _ => rfl, fun _ hok => by cases hok⟩
      | ok found =>
        obtain ⟨value, used⟩ := found
        obtain ⟨hused, hread⟩ := hok value used hdecode
        -- The one side has counted the bytes and the other the width of the number.
        obtain ⟨-, rfl, -⟩ := VarInt.bytes_of_decode hdecode
        have hafter : afterReads (1 + VarInt.width value) h =
            afterReads (VarInt.width value) (read 1 h).2 := by
          rw [Nat.add_comm]
          rfl
        rw [hread, ← hafter]
        refine ⟨fun _ herror => (by cases herror), ?_⟩
        rintro _ ⟨⟩
        refine ⟨?_, rfl⟩
        rw [List.length_cons, Nat.add_comm]
        exact Nat.succ_le_succ hused
    · simp only [if_neg harrive]
      exact ⟨fun _ _ => rfl, fun _ hok => by cases hok⟩

/-- A scripted host without a script for its reads brings the bytes in its queue. -/
theorem yields_incoming {h : Scripted} (hreads : h.reads = []) : Yields h.incoming h := by
  obtain ⟨b, hb⟩ : ∃ b, b = h.incoming := ⟨_, rfl⟩
  rw [← hb]
  induction b generalizing h with
  | nil =>
    have hread : read 1 h = h.deliver 1 0 0 := by
      simp [read, Scripted.read, hreads, ← hb]
    rw [Yields, hread]
    exact ⟨_, rfl⟩
  | cons c rest ih =>
    have hread : read 1 h = h.deliver 1 1 1 := by
      simp [read, Scripted.read, hreads, ← hb]
    have hrest : rest = (h.deliver 1 1 1).2.incoming := by
      simp [Scripted.deliver, Scripted.see, ← hb]
    rw [Yields, hread]
    exact ⟨by simp [Scripted.deliver, ← hb], ih hreads hrest⟩

/-- **Two ways to read a header.** Off a stream that brings bytes one by one and then nothing, the
reader takes the header that a decoder finds at the front of these bytes, and no byte more. Without
a first byte nothing has begun. Everything else is refused, whether it is malformed or cut
short. -/
theorem readHeader_agrees (version : Version) (hb : Yields b h) :
    (∀ header, (readHeader version h).1 = .ok header ↔ Header.decode version b = .ok header) ∧
    (∀ header, (readHeader version h).1 = .ok header → header.length ≤ b.length ∧
      (readHeader version h).2 = afterReads header.length h ∧
      Yields (b.drop header.length) (readHeader version h).2) ∧
    ((readHeader version h).1 = .error .noDataAvailable ↔ b = []) ∧
    ∀ fault, (readHeader version h).1 = .error fault → b ≠ [] → fault = .badResponse := by
  obtain ⟨herror, hok⟩ := readHeader_of_yields version hb
  cases hdecode : Header.decode version b with
  | error fault =>
    rw [herror fault hdecode]
    by_cases hb : b = [] <;> simp [hb]
  | ok header =>
    obtain ⟨hlength, hread⟩ := hok header hdecode
    have hne : b ≠ [] := by
      rintro rfl
      cases hdecode
    rw [hread]
    refine ⟨fun _ => Iff.rfl, ?_, ?_, nofun⟩
    · rintro _ ⟨⟩
      exact ⟨hlength, rfl, hb.drop hlength⟩
    · simp [hne]

/-- A PUBLISH with two bytes in its number, and a stream that ends inside such a number. -/
theorem readHeader_agrees_publish :
    let h : Scripted := { incoming := [0x32, 0xC1, 0x02, 7] }
    let cut : Scripted := { incoming := [0x32, 0xC1] }
    (Yields [0x32, 0xC1, 0x02, 7] h ∧ (readHeader .v311 h).1 = .ok ⟨0x32, 321, 3⟩ ∧
      Yields [7] (readHeader .v311 h).2) ∧
    Yields [0x32, 0xC1] cut ∧ Header.decode .v311 [0x32, 0xC1] = .error .needMoreBytes ∧
      (readHeader .v311 cut).1 = .error .badResponse := by
  intro h cut
  have hall : Yields [0x32, 0xC1, 0x02, 7] h := yields_incoming (h := h) rfl
  have hcut : Yields [0x32, 0xC1] cut := yields_incoming (h := cut) rfl
  obtain ⟨hheader, htaken, -⟩ := readHeader_agrees .v311 hall
  obtain ⟨hnone, -, -, hrefused⟩ := readHeader_agrees .v311 hcut
  have hread := (hheader ⟨0x32, 321, 3⟩).mpr rfl
  refine ⟨⟨hall, hread, (htaken _ hread).2.2⟩, hcut, rfl, ?_⟩
  cases hresult : (readHeader .v311 cut).1 with
  | error fault => rw [hrefused fault hresult (List.cons_ne_nil _ _)]
  | ok header => cases (hnone header).mp hresult

end Host

end MqttClient
