import MqttClient.Proofs.Sending

/-!
# Packets that are taken in time

`Timely` says how a host goes along that takes packets of given sizes within a time limit for each.
What it says of a write is about the bytes that are left of the packet being sent, so a host may
take one span at a time and look at a clock that goes on in between. On such a host the sending of
these packets comes to an end, and it succeeds (`Timely.sendAll`). What gets to the far end then is
not said here: that needs no time limit (`Session.sendAll_ends`). Scripted hosts are timely if none
of their writes fails and their clocks stay below the limit (`Scripted.timely`).
-/
namespace MqttClient

/-- How a host goes along that takes packets of given sizes within a time limit. A write may take
less than is left of a packet, or nothing, as long as the clock shows that there is time left.
Writes that take nothing use up pauses, and the host has patience for these. -/
structure Timely (ω : Type) [Host ω] (limit : UInt32) where
  /-- No packet is being sent, and packets of these sizes are to come. -/
  Ready : List ℕ → ω → Prop
  /-- A packet is being sent that was begun at a time, so many bytes of it are left, and packets of
  these sizes are to come. -/
  Sending : UInt32 → ℕ → List ℕ → ω → Prop
  /-- How many writes may still take nothing. -/
  pauses : ω → ℕ
  patient : ∀ start left sizes h, Sending start left sizes h → pauses h ≤ Host.patience h
  begins : ∀ size sizes h, Ready (size :: sizes) h → Sending (Host.now h).1 size sizes (Host.now h).2
  write : ∀ start left sizes h spans, Sending start left sizes h → spans.flatten.length = left →
    left ≠ 0 → ∃ count h', Host.write spans (Host.enter h) = (some count, h') ∧
      if count < left then
        (Host.now (Host.exit h')).1 - start < limit ∧
          Sending start (left - count) sizes (Host.now (Host.exit h')).2 ∧
          pauses (Host.now (Host.exit h')).2 < pauses h + count
      else Sending start 0 sizes (Host.exit h')
  ends : ∀ start sizes h, Sending start 0 sizes h →
    (Host.flush h).1 = true ∧ Ready sizes (Host.now (Host.flush h).2).2

namespace Timely
variable {ω : Type} [Host ω] {limit : UInt32} {session : Session} {h : ω} {sizes : List ℕ}

/-- To be watched makes no difference to a host. -/
def watched (t : Timely ω limit) : Timely (Watched ω) limit where
  Ready sizes w := t.Ready sizes w.host
  Sending start left sizes w := t.Sending start left sizes w.host
  pauses w := t.pauses w.host
  patient start left sizes w := t.patient start left sizes w.host
  begins size sizes w := t.begins size sizes w.host
  write start left sizes w spans hsending hleft hne := by
    obtain ⟨count, h', hwrite, hgoes⟩ := t.write start left sizes w.host spans hsending hleft hne
    have hwatched : Host.write spans (Host.enter w) =
        ((Host.write spans (Host.enter w.host)).1, ⟨(Host.write spans (Host.enter w.host)).2,
          .write spans (Host.write spans (Host.enter w.host)).1 :: .enter :: w.calls⟩) := rfl
    rw [hwrite] at hwatched
    exact ⟨count, _, hwatched, hgoes⟩
  ends start sizes w := t.ends start sizes w.host

variable (t : Timely ω limit) (hlimit : session.settings.sendTimeout = limit)
include hlimit

/-- Every write takes something or uses up a pause. So all the spans are taken while there is
patience for the pauses. -/
theorem offer {n left : ℕ} {start : UInt32} {spans : List Bytes}
    (hsending : t.Sending start left sizes h) (hleft : spans.flatten.length = left)
    (hn : t.pauses h + left ≤ n) :
    ∃ h', (Session.offer n start left spans).runOn ⟨session, h⟩ = some (.ok (), ⟨session, h'⟩) ∧
      t.Sending start 0 sizes h' := by
  induction n generalizing left spans h with
  | zero =>
    obtain rfl : left = 0 := by omega
    exact ⟨h, Session.runOn_offer_zero _ start spans _, hsending⟩
  | succ n ih =>
    by_cases hzero : left = 0
    · subst hzero
      exact ⟨h, Session.runOn_offer_zero _ start spans _, hsending⟩
    obtain ⟨offered, -, hflat, hround⟩ := Session.runOn_offer_succ n start spans hzero ⟨session, h⟩
    rw [hround]
    rw [← hflat] at hleft
    obtain ⟨count, h', hwrite, hgoes⟩ := t.write start left sizes h offered hsending hleft hzero
    rw [hwrite]
    rcases Nat.lt_or_ge count left with hpart | hall
    · -- After an incomplete write the clock is read, and there is time left.
      rw [if_pos hpart] at hgoes
      obtain ⟨hearly, hsending, hpauses⟩ := hgoes
      have hleft' : (Spans.advance count offered).flatten.length = left - count := by
        rw [Spans.flatten_advance, List.length_drop, hleft]
      obtain ⟨h'', hrun, hsending⟩ := ih hsending hleft' (by omega)
      refine ⟨h'', ?_, hsending⟩
      rw [Session.runOn_goOn_part hpart]
      simp only [hlimit, if_neg (UInt32.not_le.mpr hearly)]
      exact hrun
    · rw [if_neg (Nat.not_lt.mpr hall)] at hgoes
      exact ⟨Host.exit h', Session.runOn_goOn_all hall _, hgoes⟩

/-- The next packet is sent. -/
theorem send {spans : List Bytes} (hready : t.Ready (spans.flatten.length :: sizes) h) :
    ∃ time h', (Session.send spans).runOn ⟨session, h⟩ =
        some (.ok (), ⟨{ session with lastTx := time }, h'⟩) ∧ t.Ready sizes h' := by
  have hsending := t.begins _ _ h hready
  rw [← Spans.size_eq] at hsending
  have hpatient := Nat.add_le_add_right (t.patient _ _ _ _ hsending) (Spans.size spans)
  obtain ⟨h', hoffer, hsending⟩ :=
    t.offer hlimit hsending (Spans.size_eq spans).symm hpatient
  obtain ⟨hflush, hready⟩ := t.ends _ _ h' hsending
  refine ⟨(Host.now (Host.flush h').2).1, _, ?_, hready⟩
  rw [Session.send, Act.runOn_bind_of_ok (Act.runOn_now _)]
  simp only
  rw [Act.runOn_bind_of_ok (Act.runOn_get _), Act.runOn_bind_of_ok hoffer,
    Act.runOn_bind_of_ok (Act.runOn_host _ _), hflush]
  rfl

/-- Packets are sent one after another. -/
theorem sendAll {packets : List (List Bytes)}
    (hready : t.Ready (packets.map fun spans => spans.flatten.length) h) :
    ∃ τ, (Session.sendAll packets).runOn ⟨session, h⟩ = some (.ok (), τ) := by
  induction packets generalizing session h with
  | nil => exact ⟨_, rfl⟩
  | cons spans rest ih =>
    obtain ⟨time, h', hsend, hready⟩ := t.send hlimit hready
    have hlimit' : { session with lastTx := time }.settings.sendTimeout = limit := hlimit
    obtain ⟨τ, hrest⟩ := ih hlimit' hready
    exact ⟨τ, by rw [Session.sendAll, Act.runOn_bind_of_ok hsend, hrest]⟩

end Timely

/-! ## Scripted hosts -/

namespace Scripted
variable {h h' h'' : Scripted} {n : ℕ}

/-- A script without failures and claims, under which a write takes something in the end. -/
structure Steady (h : Scripted) : Prop where
  moves : ∀ turn ∈ h.writes, ∃ n, turn = .move n
  goesOn : h.writeLimit ≠ some 0
  flushes : h.flushFails = false

/-- How far the clock moves on in all. -/
def tickTime (ticks : List UInt32) : ℕ := ticks.foldr (fun tick n => tick.toNat + n) 0

theorem tickTime_le_of_suffix {ticks ticks' : List UInt32} (h : ticks' <:+ ticks) :
    tickTime ticks' ≤ tickTime ticks := by
  obtain ⟨front, rfl⟩ := h
  induction front with
  | nil => exact Nat.le_refl _
  | cons tick front ih => exact Nat.le_trans ih (Nat.le_add_left _ _)

/-- The most that passes on the clock while `n` bytes are taken: the clock is read after each write
that the script names, and after each that takes some of the bytes. -/
def timeFor (h : Scripted) (n : ℕ) : ℕ :=
  tickTime h.ticks + (h.writes.length + n) * h.step.toNat

/-- How a call leaves the script: what is still to come of it is its end. -/
structure Continues (h h' : Scripted) : Prop where
  writes : h'.writes <:+ h.writes
  ticks : h'.ticks <:+ h.ticks
  step : h'.step = h.step
  writeLimit : h'.writeLimit = h.writeLimit
  flushFails : h'.flushFails = h.flushFails

namespace Continues

theorem refl (h : Scripted) : Continues h h :=
  ⟨List.suffix_rfl, List.suffix_rfl, rfl, rfl, rfl⟩

theorem trans (hc : Continues h h') (hc' : Continues h' h'') : Continues h h'' :=
  ⟨hc'.writes.trans hc.writes, hc'.ticks.trans hc.ticks, hc'.step.trans hc.step,
    hc'.writeLimit.trans hc.writeLimit, hc'.flushFails.trans hc.flushFails⟩

theorem see (h : Scripted) (s : Sighting) : Continues h (h.see s) :=
  ⟨List.suffix_rfl, List.suffix_rfl, rfl, rfl, rfl⟩

theorem guardMark (h : Scripted) (s : Sighting) : Continues h (h.guardMark s) := by
  unfold Scripted.guardMark
  split
  · exact see h s
  · exact refl h

theorem steady (hc : Continues h h') (hsteady : h.Steady) : h'.Steady where
  moves turn hturn := hsteady.moves turn (hc.writes.subset hturn)
  goesOn := hc.writeLimit ▸ hsteady.goesOn
  flushes := hc.flushFails.trans hsteady.flushes

/-- The time that is needed depends on what is left of the script. -/
theorem timeFor_le (hc : Continues h h') {m : ℕ}
    (hle : h'.writes.length + m ≤ h.writes.length + n) : h'.timeFor m ≤ h.timeFor n := by
  rw [timeFor, timeFor, hc.step]
  exact Nat.add_le_add (tickTime_le_of_suffix hc.ticks) (Nat.mul_le_mul_right _ hle)

/-- What is in time stays so. -/
theorem in_time (hc : Continues h h') {sizes : List ℕ} {limit : ℕ}
    (htimes : ∀ n ∈ sizes, h.timeFor n < limit) : ∀ n ∈ sizes, h'.timeFor n < limit :=
  fun n hn => Nat.lt_of_le_of_lt
    (hc.timeFor_le (Nat.add_le_add_right hc.writes.length_le n)) (htimes n hn)

end Continues

/-! ### Calls -/

/-- A look at the clock shows how much has passed, and uses up as much of what may pass. -/
theorem continues_now (h : Scripted) : Continues h h.now.2 ∧ h.now.2.writes = h.writes ∧
    h.now.2.clock = h.now.1 ∧ ∃ passed, h.now.1 = h.clock + UInt32.ofNat passed ∧
      ∀ n, passed + h.now.2.timeFor n ≤ h.timeFor (n + 1) := by
  cases hticks : h.ticks with
  | nil =>
    have hnow : h.now = (h.clock + h.step, { h with clock := h.clock + h.step }) := by
      simp only [now, hticks]
    rw [hnow]
    refine ⟨⟨List.suffix_rfl, List.suffix_rfl, rfl, rfl, rfl⟩, rfl, rfl, h.step.toNat, ?_, ?_⟩
    · rw [UInt32.ofNat_toNat]
    · intro n
      simp only [timeFor, hticks, ← Nat.add_assoc, Nat.succ_mul]
      omega
  | cons tick ticks =>
    have hnow : h.now = (h.clock + tick, { h with clock := h.clock + tick, ticks }) := by
      simp only [now, hticks]
    rw [hnow]
    refine ⟨⟨List.suffix_rfl, hticks ▸ List.suffix_cons tick ticks, rfl, rfl, rfl⟩, rfl, rfl,
      tick.toNat, ?_, ?_⟩
    · rw [UInt32.ofNat_toNat]
    · intro n
      simp only [timeFor, hticks, tickTime, List.foldr_cons, ← Nat.add_assoc, Nat.succ_mul]
      omega

/-- A write of something takes some of it, or uses up what the script says. -/
theorem Steady.writeRun (hsteady : h.Steady) {offered : Bytes} (hne : offered ≠ [])
    (lengths : Option (List ℕ)) :
    ∃ count h', h.writeRun offered lengths = (some count, h') ∧ Continues h h' ∧
      h'.clock = h.clock ∧ h'.writes.length < h.writes.length + count := by
  have hpos := List.length_pos_iff.mpr hne
  rw [Scripted.writeRun]
  cases hwrites : h.writes with
  | nil =>
    refine ⟨_, _, rfl, .see h _, rfl, ?_⟩
    simp only [Scripted.see, hwrites]
    cases hlimit : h.writeLimit with
    | none => simpa using hpos
    | some n =>
      have hn : n ≠ 0 := fun hzero => hsteady.goesOn (hzero ▸ hlimit)
      simp only [List.length_take]
      omega
  | cons turn rest =>
    obtain ⟨n, rfl⟩ := hsteady.moves turn (hwrites ▸ List.mem_cons_self)
    refine ⟨_, _, rfl, ⟨?_, List.suffix_rfl, rfl, rfl, rfl⟩, rfl, ?_⟩
    · exact hwrites ▸ List.suffix_cons _ rest
    · simp only [Scripted.see, List.length_cons]
      omega

theorem Steady.write (hsteady : h.Steady) {spans : List Bytes} (hne : spans.flatten ≠ []) :
    ∃ count h', h.write spans = (some count, h') ∧ Continues h h' ∧
      h'.clock = h.clock ∧ h'.writes.length < h.writes.length + count := by
  rw [Scripted.write]
  split
  · exact hsteady.writeRun hne _
  · cases hspan : firstSpan? spans with
    | none =>
      refine absurd (List.flatten_eq_nil_iff.mpr fun span hmem => ?_) hne
      simpa using List.find?_eq_none.mp hspan span hmem
    | some span =>
      have hspan' : span ≠ [] := by simpa using List.find?_some hspan
      exact hsteady.writeRun hspan' none

theorem clock_guardMark (h : Scripted) (s : Sighting) : (h.guardMark s).clock = h.clock := by
  unfold guardMark
  split <;> rfl

theorem writes_guardMark (h : Scripted) (s : Sighting) : (h.guardMark s).writes = h.writes := by
  unfold guardMark
  split <;> rfl

/-- A write between the guard hooks, which do not touch the script. -/
theorem Steady.guarded_write (hsteady : h.Steady) {spans : List Bytes}
    (hne : spans.flatten ≠ []) : ∃ count h', (h.guardMark .enter).write spans = (some count, h') ∧
      Continues h (h'.guardMark .exit) ∧ (h'.guardMark .exit).clock = h.clock ∧
        (h'.guardMark .exit).writes.length < h.writes.length + count := by
  have henter := Continues.guardMark h .enter
  obtain ⟨count, h', hwrite, hwritten, hclock, hpauses⟩ := (henter.steady hsteady).write hne
  refine ⟨count, h', hwrite, (henter.trans hwritten).trans (.guardMark h' .exit), ?_, ?_⟩
  · rw [clock_guardMark, hclock, clock_guardMark]
  · rwa [writes_guardMark, ← writes_guardMark h .enter]

/-- Such a script takes packets in time if their time suffices for each of them, one by one. -/
def timely (limit : UInt32) : Timely Scripted limit where
  Ready sizes h := h.Steady ∧ ∀ n ∈ sizes, h.timeFor n < limit.toNat
  Sending start left sizes h := h.Steady ∧ (∃ elapsed, h.clock = start + UInt32.ofNat elapsed ∧
    elapsed + h.timeFor left < limit.toNat) ∧ ∀ n ∈ sizes, h.timeFor n < limit.toNat
  pauses h := h.writes.length
  patient start left sizes h _ := by
    change h.writes.length ≤ h.patience
    rw [patience]
    omega
  begins size sizes h := by
    rintro ⟨hsteady, htimes⟩
    obtain ⟨hnow, -, hclock, -⟩ := continues_now h
    obtain ⟨hsize, hsizes⟩ := List.forall_mem_cons.mp (hnow.in_time htimes)
    refine ⟨hnow.steady hsteady, ⟨0, hclock.trans (UInt32.add_zero _).symm, ?_⟩, hsizes⟩
    rwa [Nat.zero_add]
  write start left sizes h spans := by
    rintro ⟨hsteady, ⟨elapsed, hclock, htime⟩, hsizes⟩ hleft hne
    have hflat : spans.flatten ≠ [] := fun hnil => hne (by rw [← hleft, hnil, List.length_nil])
    obtain ⟨count, h', hwrite, hgoes, hkept, hpauses⟩ := hsteady.guarded_write hflat
    obtain ⟨hnow, hwrites, hmoved, passed, hshown, hpassed⟩ := continues_now (h'.guardMark .exit)
    have hon := hgoes.trans hnow
    refine ⟨count, h', hwrite, ?_⟩
    split
    · -- What has passed on the clock was set aside for this write.
      have hcost := Nat.le_trans (hpassed (left - count))
        (hgoes.timeFor_le (m := left - count + 1) (n := left) (by omega))
      rw [hkept, hclock, UInt32.add_assoc, ← UInt32.ofNat_add] at hshown
      refine ⟨?_, ⟨hon.steady hsteady, ⟨elapsed + passed, hmoved.trans hshown, ?_⟩,
        hon.in_time hsizes⟩, ?_⟩
      · change (h'.guardMark .exit).now.1 - start < limit
        rw [hshown, UInt32.add_comm, UInt32.add_sub_cancel, UInt32.lt_iff_toNat_lt,
          UInt32.toNat_ofNat']
        exact Nat.lt_of_le_of_lt (Nat.mod_le _ _) (by omega)
      · change elapsed + passed + (h'.guardMark .exit).now.2.timeFor (left - count) < limit.toNat
        omega
      · change (h'.guardMark .exit).now.2.writes.length < h.writes.length + count
        rwa [hwrites]
    · refine ⟨hgoes.steady hsteady, ⟨elapsed, hkept.trans hclock, ?_⟩, hgoes.in_time hsizes⟩
      have hcost := hgoes.timeFor_le (m := 0) (n := left)
        (Nat.add_le_add hgoes.writes.length_le (Nat.zero_le left))
      exact Nat.lt_of_le_of_lt (Nat.add_le_add_left hcost elapsed) htime
  ends start sizes h := by
    rintro ⟨hsteady, -, hsizes⟩
    have hflushed := Continues.see h (.flush !h.flushFails)
    have hon := hflushed.trans (continues_now _).1
    refine ⟨?_, hon.steady hsteady, hon.in_time hsizes⟩
    change (!h.flushFails) = true
    rw [hsteady.flushes]
    rfl

end Scripted

end MqttClient
