import MqttClient.Proofs.Oversized

/-!
# A network buffer that is full

A client that waits for the rest of a packet has room for it in its network buffer, with one
exception. A header takes up to five bytes and is read from what is in the buffer, so a buffer that
is no longer may be full before the header is known (`Session.Stuck`). From then on nothing is read:
as long as the connection lasts, every call that receives finds the same part of a header
(`run_needs_more`).
-/
namespace MqttClient
variable {ω : Type}

/-- The network buffer is full, and what it holds is part of a header. -/
structure Session.Stuck (s : Session) : Prop where
  full : s.filled = s.capacity
  undecided : Header.decode s.version s.pending = .error .needMoreBytes

instance : DecidablePred Session.Stuck := fun s =>
  decidable_of_iff (s.filled = s.capacity ∧
      Header.decode s.version s.pending = .error .needMoreBytes)
    ⟨fun h => ⟨h.1, h.2⟩, fun h => ⟨h.full, h.undecided⟩⟩

/-- The network buffer is at least as long as it was. -/
def Grows (σ τ : Scene ω) : Prop := σ.session.capacity ≤ τ.session.capacity

instance : IsPreorder (Scene ω) Grows where
  refl _ := Nat.le_refl _
  trans _ _ _ := Nat.le_trans

theorem Act.Keeps.grows_change {f : Session → Session}
    (h : ∀ s : Session, s.capacity ≤ (f s).capacity) : Act.Keeps (@Grows ω) (Act.change f) :=
  .change fun σ => h σ.session

variable [Host ω]

namespace Session
variable {σ υ τ : Scene (Watched ω)} {managed : Bool}

omit [Host ω] in
/-- A header is no longer than five bytes. -/
theorem Stuck.capacity_le {s : Session} (h : s.Stuck) : 0 < s.capacity ∧ s.capacity ≤ 5 := by
  have hlength := Header.length_le_of_needMoreBytes h.undecided
  rw [length_pending (Nat.le_of_eq h.full), h.full] at hlength
  exact hlength

/-! ## Waiting for more -/

/-- A call waits for the rest of a header, or for the rest of a packet that fits. -/
theorem handleBuffered_needMoreBytes
    (h : (handleBuffered managed).runOn σ = some (.ok .needMoreBytes, τ)) :
    τ = σ ∧ (Header.decode σ.session.version σ.session.pending = .error .needMoreBytes ∨
      ∃ header, Header.decode σ.session.version σ.session.pending = .ok header ∧
        header.total ≤ σ.session.capacity ∧ σ.session.filled < header.total) := by
  rw [handleBuffered, Act.runOn_bind_of_ok (Act.runOn_session _)] at h
  split at h
  · cases h
  split at h
  · rename_i hdecode
    cases h
    exact ⟨rfl, .inl hdecode⟩
  · cases h
  rename_i header hdecode
  split at h
  · rcases Act.runOn_bind_inv h with ⟨_, -, ⟨⟩⟩ | ⟨_, υ, -, ⟨⟩⟩
  split at h
  · cases h
    exact ⟨rfl, .inr ⟨header, hdecode, Nat.not_lt.mp ‹_›, ‹_›⟩⟩
  · rcases handleFront_inv h with ⟨_, -, ⟨⟩, -⟩ | ⟨_, _, -, ⟨⟩, -⟩

theorem receive_needMoreBytes (hfilled : σ.session.filled ≤ σ.session.capacity)
    (h : (receive managed).runOn σ = some (.ok .needMoreBytes, τ)) :
    τ.session.filled < τ.session.capacity ∨ τ.session.Stuck := by
  rw [receive_eq] at h
  rcases Act.runOn_bind_inv h with ⟨_, -, ⟨⟩⟩ | ⟨_, υ, harrive, hbuffered⟩
  obtain ⟨rfl, hundecided | ⟨header, -, hfits, hpart⟩⟩ := handleBuffered_needMoreBytes hbuffered
  · rcases Nat.lt_or_eq_of_le (filled_le_of_arrive hfilled harrive) with hroom | hfull
    · exact .inl hroom
    · exact .inr ⟨hfull, hundecided⟩
  · exact .inl (Nat.lt_of_lt_of_le hpart hfits)

/-! ## No way out -/

omit [Host ω] in
theorem Stuck.of_intake {s t : Session} (h : s.Stuck) (hintake : t.intake = s.intake) :
    t.Stuck := by
  obtain ⟨hversion, hpending, hcapacity, hfilled⟩ := pending_of_intake hintake
  exact ⟨by rw [hfilled, hcapacity, h.full], by rw [hversion, hpending, h.undecided]⟩

/-- A full buffer has no room for what a read brings. -/
theorem session_fetch_of_full (hfull : σ.session.filled = σ.session.capacity) :
    (fetch σ).session = σ.session := by
  rw [fetch]
  cases (firstAnswer σ).1 with
  | none => rfl
  | some answer =>
    obtain ⟨count, arrived⟩ := answer
    simp only [afterRead, readAt, hfull, Nat.sub_self, List.take_zero, Nat.min_zero, Nat.add_zero,
      List.append_nil, List.length_nil, List.take_append_drop]
    rw [← hfull]

/-- Receiving brings nothing, and leaves what has been received. When it does not fail it asks for
more. -/
theorem receive_of_stuck {r : Except Fault Progress} (hstuck : σ.session.Stuck)
    (h : (receive managed).runOn σ = some (r, τ)) :
    τ.session.intake = σ.session.intake ∧ (∀ p, r = .ok p → p = .needMoreBytes) ∧
      ∃ calls, τ.host.calls = calls ++ σ.host.calls ∧ (Honest calls → received calls = []) := by
  have hends : ∃ r', (arrive managed).runOn σ = some (r', τ) ∧ τ.session.intake = σ.session.intake ∧
      ∀ p, r = .ok p → p = .needMoreBytes := by
    have hfetch := session_fetch_of_full hstuck.full
    rw [receive_eq] at h
    rcases Act.runOn_bind_inv h with ⟨fault, harrive, rfl⟩ | ⟨_, υ, harrive, hbuffered⟩ <;>
      have hsame := (arrive_unread harrive).same <;> rw [Same, hfetch] at hsame
    · exact ⟨_, harrive, hsame, nofun⟩
    · have hυ := hstuck.of_intake hsame
      have hne : υ.session.filled ≠ 0 := by
        rw [hυ.full]
        exact Nat.ne_of_gt hυ.capacity_le.1
      rw [handleBuffered_needMore hne hυ.undecided] at hbuffered
      cases hbuffered
      exact ⟨_, harrive, hsame, by rintro p ⟨⟩; rfl⟩
  obtain ⟨r', harrive, hintake, hmore⟩ := hends
  obtain ⟨calls, hcalls, -, hpending⟩ := arrive_receives (Nat.le_of_eq hstuck.full) harrive
  refine ⟨hintake, hmore, calls, hcalls, fun hhonest => ?_⟩
  have hgrown := hpending hhonest
  rw [(pending_of_intake hintake).2.1] at hgrown
  exact List.self_eq_append_right.mp hgrown

/-! ## Room -/

theorem listens_grows : Listens (@Grows (Watched ω)) where
  toInward := {
    read := fun offset n => by
      refine .readInto (.host fun _ => Nat.le_refl _) fun _ => .grows_change fun s => ?_
      simp only [capacity, List.length_append, List.length_take, List.length_drop]
      omega
    now := .host fun _ => Nat.le_refl _
    header := fun _ => .host fun _ => Nat.le_refl _
    reset := .grows_change fun s => by simp [capacity, resetBuffer]
    blank := fun n => .grows_change fun s => by
      simp only [capacity, List.length_append, List.length_replicate, List.length_drop]
      omega
    negotiate := fun _ => .grows_change fun _ => Nat.le_refl _ }
  toOutward := (outward_same (f := capacity) fun _ _ _ => rfl).mono fun _ _ h => Nat.le_of_eq h.symm
  grow _ := .grows_change fun _ => Nat.le_refl _
  wait := .grows_change fun _ => Nat.le_refl _
  answer := .grows_change fun _ => Nat.le_refl _
  consume n := .grows_change fun s => Nat.le_of_eq (capacity_consume s n).symm
  stamp _ := .grows_change fun _ => Nat.le_refl _

theorem connect_grows (c : Connect) (timeout : UInt32) :
    Act.Keeps (@Grows (Watched ω)) (connect c timeout) := by
  rw [connect_eq]
  refine (listens_grows.handshake listens_grows.send c timeout).bind fun present =>
    (listens_grows.resume present).bind fun _ => Act.Keeps.bind ?_ fun _ => .pure _
  exact Act.Keeps.bind (.grows_change fun _ => Nat.le_refl _) fun _ =>
    listens_grows.now.bind fun _ => .grows_change fun _ => Nat.le_refl _

end Session

/-! ## Runs -/

namespace Step

/-- No step makes the network buffer smaller. -/
theorem grows (s : Step ω) : Grows s.before s.after :=
  s.call.perform_keeps Session.listens_grows.toOutward (fun _ _ _ => Session.connect_grows _ _)
    (fun _ => .grows_change fun _ => Nat.le_of_eq List.length_replicate.symm)
    (fun _ => Session.listens_grows.ping) (.grows_change fun _ => Nat.le_refl _)
    (fun _ _ => Session.listens_grows.receive _ (.grows_change fun _ => Nat.le_refl _))
    s.before s.result s.after s.performed

/-- A step that receives and succeeds ends as receiving ends. -/
theorem receives_ok {s : Step ω} {managed : Bool} {p : Progress}
    (h : s.call = .receive managed) (hresult : s.result = .ok (.progress p)) :
    (Session.receive managed).runOn s.before = some (.ok p, s.after) := by
  obtain ⟨call, σ, r, τ, hperform⟩ := s
  cases h
  obtain ⟨r', hreceive, rfl⟩ := Act.runOn_bind_pure_inv hperform
  rcases r' with fault | p' <;> cases hresult
  exact hreceive

/-- As long as the connection lasts, a client that is stuck reads nothing, and what it has received
stays as it is. -/
theorem of_stuck {s : Step ω} (hstuck : s.before.session.Stuck) (hstays : s.StaysConnected) :
    s.after.session.intake = s.before.session.intake ∧ (Honest s.calls → s.received = []) := by
  by_cases hcall : ∃ managed, s.call = .receive managed
  · obtain ⟨managed, hcall⟩ := hcall
    obtain ⟨r, hreceive, -⟩ := s.receives hcall
    obtain ⟨hintake, -, calls, hcalls, hnothing⟩ := Session.receive_of_stuck hstuck hreceive
    rw [received, Step.calls_eq hcalls]
    exact ⟨hintake, hnothing⟩
  · have hunread := s.unread hstays (not_exists.mp hcall)
    obtain ⟨calls, hcalls, hkind⟩ := hunread.makes
    rw [received, Step.calls_eq hcalls]
    exact ⟨hunread.same, fun _ => received_eq_nil hkind⟩

end Step

/-- Along a connection a client that is stuck keeps what it has received. -/
theorem intake_of_isRun {steps : List (Step ω)} {start : Session} (hrun : IsRun steps)
    (hstuck : start.Stuck) (hfirst : ∀ s ∈ steps.head?, s.before.session.intake = start.intake)
    (hstays : ∀ s ∈ steps, s.StaysConnected) :
    ∀ s ∈ steps, s.before.session.intake = start.intake :=
  before_of_isRun (P := fun s => s.intake = start.intake) hrun hfirst fun s hs hbefore =>
    (s.of_stuck (hstuck.of_intake hbefore) (hstays s hs)).1.trans hbefore

/-- Along a run the network buffer has room for what it had room for in the beginning. -/
theorem capacity_le_of_isRun {steps : List (Step ω)} {capacity : ℕ} (hrun : IsRun steps)
    (hfirst : ∀ s ∈ steps.head?, capacity ≤ s.before.session.capacity) :
    ∀ s ∈ steps, capacity ≤ s.before.session.capacity :=
  before_of_isRun (P := fun s => capacity ≤ s.capacity) hrun hfirst fun s _ h =>
    Nat.le_trans h s.grows

/-- **Room for what is missing.** When a call of a new client asks for more bytes, there is room in
the network buffer for at least one of them, or the client is stuck. A client whose network buffer
has six bytes or more is never stuck. One that is stuck stays so as long as the connection lasts,
whatever arrives: it reads nothing, what it holds stays as it is, and every call that receives asks
for more bytes unless it fails. -/
theorem run_needs_more {steps earlier later : List (Step ω)} {s : Step ω} {managed : Bool}
    {capacity : ℕ} (hrun : IsRun steps)
    (hnew : ∀ s ∈ steps.head?, ∃ exchanges version settings,
      s.before.session = .create capacity exchanges version settings)
    (hsteps : steps = earlier ++ s :: later) (hcall : s.call = .receive managed)
    (hresult : s.result = .ok (.progress .needMoreBytes)) :
    (s.after.session.filled < s.after.session.capacity ∨ s.after.session.Stuck) ∧
      (s.after.session.Stuck → capacity ≤ 5 ∧
        ∀ between t rest, later = between ++ t :: rest →
          (∀ u ∈ between ++ [t], u.StaysConnected) →
          t.after.session.Stuck ∧ t.after.session.pending = s.after.session.pending ∧
            (Honest t.calls → t.received = []) ∧
            ∀ managed' p, t.call = .receive managed' → t.result = .ok (.progress p) →
              p = .needMoreBytes) := by
  subst hsteps
  have hfilled := filled_le_of_isRun hrun fun s hs => by
    obtain ⟨exchanges, version, settings, hcreate⟩ := hnew s hs
    rw [hcreate]
    exact Nat.zero_le _
  have hcapacity : ∀ u ∈ earlier ++ s :: later, capacity ≤ u.before.session.capacity :=
    capacity_le_of_isRun hrun fun u hu => by
      obtain ⟨exchanges, version, settings, hcreate⟩ := hnew u hu
      rw [hcreate, Session.capacity, Session.create, List.length_replicate]
  refine ⟨Session.receive_needMoreBytes (hfilled s (by simp)) (s.receives_ok hcall hresult),
    fun hstuck => ⟨?_, ?_⟩⟩
  · exact (hcapacity s (by simp)).trans (Nat.le_trans s.grows hstuck.capacity_le.2)
  rintro between t rest rfl hstays
  -- The steps from `s` on up to `t` are part of the same connection.
  have hconnection : IsRun (s :: (between ++ [t])) := hrun.infix ⟨earlier, rest, by simp⟩
  obtain ⟨hfollows, hbetween⟩ := List.isChain_cons.mp hconnection
  have hbefore : t.before.session.intake = s.after.session.intake :=
    intake_of_isRun hbetween hstuck
      (fun u hu => congrArg Session.intake (show u.before.session = _ from hfollows u hu)) hstays t
      (by simp)
  have hstuck' : t.before.session.Stuck := hstuck.of_intake hbefore
  obtain ⟨hintake, hnothing⟩ := t.of_stuck hstuck' (hstays t (by simp))
  refine ⟨hstuck'.of_intake hintake, (Session.pending_of_intake (hintake.trans hbefore)).2.1,
    hnothing, fun managed' p hcall' hresult' => ?_⟩
  exact (Session.receive_of_stuck hstuck' (t.receives_ok hcall' hresult')).2.1 p rfl

/-- A client with room for two bytes receives the header of a packet, which takes three. -/
def narrow : List (Step Scripted) :=
  stepsFrom
    { session := .create 2 (.empty 0 0) .v311 {}
      host := { host := {
        incoming := [0x20, 2, 0, 0, 0x30, 0x80, 1] ++ List.replicate 128 0
        ticks := List.replicate 4 1 } } }
    [.connect { clientId := "c" } 1000, .receive true, .receive true]

/-- The two bytes stay in the network buffer, and the third one is never read. -/
theorem run_needs_more_narrow :
    ∃ opened full again, narrow = [opened, full, again] ∧
      full.result = .ok (.progress .needMoreBytes) ∧ full.after.session.pending = [0x30, 0x80] ∧
      full.after.session.Stuck ∧ again.after.session.Stuck ∧
      again.result = .ok (.progress .needMoreBytes) ∧ again.received = [] := by
  have hcalls : narrow.map (fun s => (s.call, s.result)) =
      [(.connect { clientId := "c" } 1000, .ok (.session false)),
        (.receive true, .ok (.progress .needMoreBytes)),
        (.receive true, .ok (.progress .needMoreBytes))] := by decide +kernel
  have hpending : narrow.map (fun s => (s.after.session.pending, decide s.after.session.Stuck,
      decide (Honest s.calls))) =
      [([], false, true), ([0x30, 0x80], true, true), ([0x30, 0x80], true, true)] := by
    decide +kernel
  obtain ⟨opened, _, hsteps, hopened, hcalls⟩ := List.map_eq_cons_iff.mp hcalls
  obtain ⟨full, _, rfl, hfull, hcalls⟩ := List.map_eq_cons_iff.mp hcalls
  obtain ⟨again, _, rfl, hagain, hcalls⟩ := List.map_eq_cons_iff.mp hcalls
  cases List.map_eq_nil_iff.mp hcalls
  simp only [Prod.mk.injEq] at hopened hfull hagain
  simp only [hsteps, List.map_cons, List.map_nil, List.cons.injEq, Prod.mk.injEq,
    decide_eq_true_eq] at hpending
  have hnew : ∀ s ∈ narrow.head?, ∃ exchanges version settings,
      s.before.session = .create 2 exchanges version settings := fun s hs =>
    ⟨.empty 0 0, .v311, {}, by rw [before_of_mem_head?_stepsFrom hs]⟩
  have hstays : ∀ u ∈ [] ++ [again], u.StaysConnected := by
    simp [Step.StaysConnected, Step.HangsUp, hagain.1]
  obtain ⟨-, hstuck⟩ := run_needs_more (isRun_stepsFrom _ _) hnew
    (show narrow = [opened] ++ full :: [again] from hsteps) hfull.1 hfull.2
  obtain ⟨-, hstuck⟩ := hstuck hpending.2.1.2.1
  obtain ⟨hagainStuck, -, hnothing, -⟩ := hstuck [] again [] rfl hstays
  exact ⟨opened, full, again, hsteps, hfull.2, hpending.2.1.1, hpending.2.1.2.1, hagainStuck,
    hagain.2, hnothing hpending.2.2.1.2.2⟩

end MqttClient
