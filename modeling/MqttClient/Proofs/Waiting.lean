import MqttClient.Proofs.Arriving
import MqttClient.Proofs.Reassembly

/-!
# Packets that wait

A read may bring several packets at once, and a call handles one of them. The others wait in the
network buffer: `Session.waiting` lists them. A read adds to the end of this list
(`Session.waiting_afterRead`), and a packet that is handled leaves it at the front
(`Session.waiting_consume`).
-/
namespace MqttClient

/-- The whole packets at the front of received bytes, at most `n` of them. -/
def packetsFrom (version : Version) : ℕ → Bytes → List Packet
  | 0, _ => []
  | n + 1, b =>
    match Header.decode version b with
    | .error _ => []
    | .ok header =>
      if header.total ≤ b.length then
        header.withData ((b.take header.total).drop header.length) ::
          packetsFrom version n (b.drop header.total)
      else []

/-- The whole packets at the front of received bytes. There are no more of them than bytes. -/
def packetsIn (version : Version) (b : Bytes) : List Packet := packetsFrom version b.length b

section
variable {version : Version} {b : Bytes} {header : Header}

theorem packetsFrom_nil (n : ℕ) : packetsFrom version n [] = [] := by
  cases n <;> rfl

/-- A number of packets that is not reached makes no difference. -/
theorem packetsFrom_eq {n k : ℕ} (hn : b.length ≤ n) (hk : b.length ≤ k) :
    packetsFrom version n b = packetsFrom version k b := by
  induction n generalizing k b with
  | zero =>
    rw [List.length_eq_zero_iff.mp (Nat.le_zero.mp hn), packetsFrom_nil, packetsFrom_nil]
  | succ n ih =>
    cases k with
    | zero =>
      rw [List.length_eq_zero_iff.mp (Nat.le_zero.mp hk), packetsFrom_nil, packetsFrom_nil]
    | succ k =>
      rw [packetsFrom, packetsFrom]
      cases hdecode : Header.decode version b with
      | error fault => rfl
      | ok header =>
        have hpos := Header.total_pos hdecode
        have hrest : packetsFrom version n (b.drop header.total) =
            packetsFrom version k (b.drop header.total) := by
          apply ih <;> rw [List.length_drop] <;> omega
        simp only [hrest]

theorem packetsIn_front (hdecode : Header.decode version b = .ok header)
    (hwhole : header.total ≤ b.length) :
    packetsIn version b = header.withData ((b.take header.total).drop header.length) ::
      packetsIn version (b.drop header.total) := by
  have hpos := Header.total_pos hdecode
  obtain ⟨n, hn⟩ : ∃ n, b.length = n + 1 := ⟨b.length - 1, by omega⟩
  rw [packetsIn, hn, packetsFrom, hdecode]
  simp only [if_pos hwhole, packetsIn]
  rw [packetsFrom_eq _ (Nat.le_refl _)]
  rw [List.length_drop]
  omega

theorem packetsIn_part (h : ∀ header, Header.decode version b = .ok header →
    b.length < header.total) : packetsIn version b = [] := by
  rw [packetsIn]
  cases b.length with
  | zero => rfl
  | succ n =>
    rw [packetsFrom]
    split
    · rfl
    · exact if_neg (Nat.not_le.mpr (h _ ‹_›))

/-- Further bytes only add packets. -/
theorem packetsIn_append (b more : Bytes) :
    packetsIn version b <+: packetsIn version (b ++ more) := by
  -- A header that has been decoded is the same with more bytes behind it.
  induction hn : b.length using Nat.strongRecOn generalizing b with
  | _ n ih =>
    by_cases hfront : ∃ header, Header.decode version b = .ok header ∧ header.total ≤ b.length
    · obtain ⟨header, hdecode, hwhole⟩ := hfront
      have hpos := Header.total_pos hdecode
      have hne : b ≠ [] := by
        rintro rfl
        simp at hwhole
        omega
      have hdecode' : Header.decode version (b ++ more) = .ok header := by
        rw [Header.decode_append more hne (by simp [hdecode]), hdecode]
      rw [packetsIn_front hdecode hwhole,
        packetsIn_front hdecode' (by rw [List.length_append]; omega),
        List.take_append_of_le_length hwhole, List.drop_append_of_le_length hwhole]
      exact (List.prefix_cons_inj _).mpr (ih _ (by rw [List.length_drop]; omega) _ rfl)
    · have hpart : packetsIn version b = [] := packetsIn_part fun header hdecode =>
        Nat.not_le.mp fun hwhole => hfront ⟨header, hdecode, hwhole⟩
      rw [hpart]
      exact List.nil_prefix

end

namespace Session
variable {s : Session}

/-- The received bytes that are still to handle. -/
def pending (s : Session) : Bytes := s.buffer.take s.filled

theorem length_pending (hfilled : s.filled ≤ s.capacity) : s.pending.length = s.filled := by
  rw [pending, List.length_take]
  exact Nat.min_eq_left hfilled

/-- The whole packets among them. -/
def waiting (s : Session) : List Packet := packetsIn s.version s.pending

theorem capacity_afterRead (hfilled : s.filled ≤ s.capacity) (answer : Option (ℕ × Bytes)) :
    (s.afterRead answer).capacity = s.capacity ∧
      (s.afterRead answer).filled ≤ (s.afterRead answer).capacity := by
  cases answer with
  | none => exact ⟨rfl, hfilled⟩
  | some answer =>
    obtain ⟨count, arrived⟩ := answer
    have hroom : s.filled + (arrived.take (s.capacity - s.filled)).length ≤ s.capacity := by
      rw [List.length_take]
      omega
    have hcapacity := capacity_readAt _ hroom
    refine ⟨hcapacity, ?_⟩
    change s.filled + min count (s.capacity - s.filled) ≤ Session.capacity (s.readAt _ _)
    rw [hcapacity]
    omega

/-- A read leaves what was there before. -/
theorem pending_afterRead (hfilled : s.filled ≤ s.capacity) (answer : Option (ℕ × Bytes)) :
    s.pending <+: (s.afterRead answer).pending := by
  cases answer with
  | none => exact List.prefix_refl _
  | some answer =>
    obtain ⟨count, arrived⟩ := answer
    have hlength := length_pending hfilled
    simp only [afterRead, readAt, pending] at hlength ⊢
    rw [List.append_assoc, List.take_append, hlength, List.take_take]
    rw [Nat.min_eq_right (by omega)]
    exact List.prefix_append ..

/-- A read only adds packets. -/
theorem waiting_afterRead (hfilled : s.filled ≤ s.capacity) (answer : Option (ℕ × Bytes)) :
    s.waiting <+: (s.afterRead answer).waiting := by
  obtain ⟨more, hmore⟩ := pending_afterRead hfilled answer
  rw [waiting, waiting, version_afterRead, ← hmore]
  exact packetsIn_append _ _

/-- Taking bytes off the front leaves those behind them. -/
theorem pending_consume {n : ℕ} (hfilled : s.filled ≤ s.capacity) (hn : n ≤ s.filled) :
    (s.consume n).pending = s.pending.drop n ∧ (s.consume n).capacity = s.capacity ∧
      (s.consume n).filled ≤ s.capacity := by
  have hlength : (s.pending.take n).length = n := by
    rw [List.length_take, length_pending hfilled, Nat.min_eq_left hn]
  exact take_consume hlength (List.take_append_drop ..).symm hfilled

/-- A packet that is handled leaves the list at the front. -/
theorem waiting_consume {header : Header} (hfilled : s.filled ≤ s.capacity)
    (hdecode : Header.decode s.version s.pending = .ok header) (hwhole : header.total ≤ s.filled) :
    s.waiting = s.frontPacket header :: (s.consume header.total).waiting := by
  have hfront : s.pending.take header.total = s.buffer.take header.total := by
    rw [pending, List.take_take, Nat.min_eq_left hwhole]
  rw [waiting, packetsIn_front hdecode (length_pending hfilled ▸ hwhole), hfront, waiting,
    (pending_consume hfilled hwhole).1]
  rfl

end Session

end MqttClient
