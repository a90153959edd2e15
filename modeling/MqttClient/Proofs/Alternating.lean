import MqttClient.Proofs.Tending

/-!
# PINGREQ and PINGRESP take turns

A program that connects and then leaves keep-alive to its client (`Call.IsManaged`) can tell from
the calls of the host and from the results alone whether a PINGREQ is outstanding (`Outstanding`),
and when a packet was last sent or handled. The session goes by the same (`Reflects`), whatever
comes in and whatever the clock shows, as long as the transport delivers what is sent
(`Step.Delivers`). So a PINGREQ goes out only when none is outstanding.
-/
namespace MqttClient

/-- The calls of a program that leaves keep-alive to its client. -/
def Call.IsManaged : Call → Prop
  | publish _ _ | subscribe _ _ _ | unsubscribe _ _ _ | takePacketId | receive true => True
  | _ => False

instance : DecidablePred Call.IsManaged
  | .publish _ _ | .subscribe _ _ _ | .unsubscribe _ _ _ | .takePacketId | .receive true =>
    isTrue trivial
  | .connect _ _ | .disconnect | .disconnectWithReason _ _ | .ping | .receive false => isFalse id

variable {ω : Type} [Host ω]

namespace Step
variable {s : Step ω}

/-- The transport accepts all that a step asks of it, or sending does not fail for all that. -/
def Delivers (s : Step ω) : Prop :=
  (∀ c ∈ s.calls, c.IsAccepted) ∨ s.result ≠ .error .sendFailed

/-- Among the packets that the transport takes in a step there is a PINGREQ. -/
def WritesPingreq (s : Step ω) : Prop := ∃ frames, HoldsPingreq frames (written s.calls)

/-- A PINGRESP is handled in a step. -/
def HandlesPingresp (s : Step ω) : Prop :=
  ∃ b, s.result = .ok (.progress (.packet b)) ∧ kindBits b = PacketType.pingresp.firstByte

/-- A step that sees to keep-alive and whose read yields nothing. -/
def IsQuiet (s : Step ω) : Prop :=
  s.call = .receive true ∧ ∃ later asked count arrived,
    s.calls = later ++ [.read asked (some (count, arrived))] ∧ min count asked = 0

/-- When a step first looks at the clock. -/
def askedAt (s : Step ω) : UInt32 := (clockTimes s.calls).getLastD 0

/-- When it last does. -/
def endedAt (s : Step ω) : UInt32 := (clockTimes s.calls).headD 0

/-- When the first packet of a step has been sent. -/
def pingedAt (s : Step ω) : UInt32 := (sentTimes s.calls).getLastD 0

/-- When the last packet of a step has been sent. -/
def sentAt? (s : Step ω) : Option UInt32 := (sentTimes s.calls).head?

/-- When a step has handled a packet. -/
def heardAt? (s : Step ω) : Option UInt32 :=
  match s.result with
  | .ok (.progress (.packet _)) => (clockTimes s.calls).head?
  | _ => none

/-- What a step does to the times that keep-alive goes by and to the wait for a PINGRESP. -/
structure Tends (s : Step ω) : Prop where
  sent : s.after.session.lastTx = s.sentAt?.getD s.before.session.lastTx
  heard : s.after.session.lastRx = s.heardAt?.getD s.before.session.lastRx
  awaits_iff : s.after.session.awaitsPingresp = true ↔
    (s.WritesPingreq ∨ s.before.session.awaitsPingresp = true) ∧ ¬s.HandlesPingresp
  pinged : s.WritesPingreq → s.after.session.pingSentAt = s.pingedAt
  unpinged : ¬s.WritesPingreq → s.after.session.pingSentAt = s.before.session.pingSentAt
  calm : s.before.session.awaitsPingresp = true → ¬s.WritesPingreq
  first : ∀ frames, HoldsPingreq frames (written s.calls) → frames = []
  due : s.IsQuiet → (s.WritesPingreq ↔ s.before.session.PingDue s.askedAt)
  overdue : s.IsQuiet →
    (s.result = .error .keepAliveTimeout ↔ s.before.session.Overdue s.askedAt)

/-! ## Requests -/

theorem sent_of_stamps (h : Stamps s.before s.after) :
    s.after.session.lastTx = s.sentAt?.getD s.before.session.lastTx := by
  obtain ⟨calls, hcalls, -, hlast⟩ := h
  rw [hlast, sentAt?, s.calls_eq hcalls]
  cases sentTimes calls <;> rfl

section
variable (hmanaged : s.call.IsManaged) (hreceive : ∀ managed, s.call ≠ .receive managed)
include hmanaged hreceive

/-- A managed call that does not receive answers with no progress. -/
theorem result_ne_progress (p : Progress) : s.result ≠ .ok (.progress p) := by
  obtain ⟨call, σ, r, τ, hrun⟩ := s
  rintro rfl
  cases call with
  | publish m id => obtain ⟨_ | _, -, hr⟩ := Act.runOn_bind_pure_inv hrun <;> cases hr
  | subscribe subscriptions properties id =>
    obtain ⟨_ | _, -, hr⟩ := Act.runOn_bind_pure_inv hrun <;> cases hr
  | unsubscribe filters properties id =>
    obtain ⟨_ | _, -, hr⟩ := Act.runOn_bind_pure_inv hrun <;> cases hr
  | takePacketId => cases hrun
  | receive managed => exact hreceive managed rfl
  | _ => exact hmanaged

/-- It sends no PINGREQ. -/
theorem isPingless_of_request : IsPingless (written s.calls) := by
  have hdrafts : (s.call.perform : Act (Watched ω) Answer).Drafts := by
    cases hcall : s.call with
    | publish m id => exact (Session.publish_drafts m id).bind fun _ => .pure _
    | subscribe subscriptions properties id =>
      exact (Session.subscribe_drafts _ _ _).bind fun _ => .pure _
    | unsubscribe filters properties id =>
      exact (Session.unsubscribe_drafts _ _ _).bind fun _ => .pure _
    | takePacketId =>
      exact .session_bind fun _ => .of_mute (Act.Keeps.makes_change.bind fun _ => .pure _)
    | receive managed => exact absurd hcall (hreceive managed)
    | _ => simp [hcall, Call.IsManaged] at hmanaged
  obtain ⟨calls, hcalls, frames, hothers, hfront, -⟩ := hdrafts _ _ _ s.performed
  rw [s.calls_eq hcalls]
  exact ⟨frames, hothers, hfront⟩

/-- It keeps what sending keeps. -/
theorem keeps_of_request {R : Scene (Watched ω) → Scene (Watched ω) → Prop}
    [IsPreorder (Scene (Watched ω)) R] (houtward : Session.Outward R)
    (htake : Act.Keeps R (Act.change fun s => s.takePacketId.2)) : R s.before s.after := by
  refine s.call.perform_keeps houtward ?_ ?_ ?_ htake
    (fun managed hcall => absurd hcall (hreceive managed)) _ _ _ s.performed
  · intro c timeout hcall
    simp [hcall, Call.IsManaged] at hmanaged
  · rintro (hcall | ⟨reason, properties, hcall⟩) <;> simp [hcall, Call.IsManaged] at hmanaged
  · intro hcall
    simp [hcall, Call.IsManaged] at hmanaged

/-- So it leaves to keep-alive what is its own. -/
theorem tends_of_request : s.Tends := by
  have hsame : Same (fun t => (t.awaitsPingresp, t.pingSentAt, t.lastRx)) s.before s.after :=
    keeps_of_request hmanaged hreceive (Session.outward_same fun _ _ _ => rfl)
      (.change fun _ => rfl)
  obtain ⟨hawaits, hsame⟩ := Prod.mk.inj hsame
  obtain ⟨hping, hheard⟩ := Prod.mk.inj hsame
  have hprogress := result_ne_progress hmanaged hreceive
  have hpingless := (isPingless_of_request hmanaged hreceive).not_holdsPingreq
  have hunwritten : ¬s.WritesPingreq := fun ⟨frames, hholds⟩ => hpingless frames hholds
  have hunhandled : ¬s.HandlesPingresp := fun ⟨b, hr, _⟩ => hprogress _ hr
  have hunquiet : ¬s.IsQuiet := fun ⟨hcall, _⟩ => hreceive true hcall
  have hunheard : s.heardAt? = none := by
    rw [heardAt?]
    split
    · exact absurd ‹_› (hprogress _)
    · rfl
  exact {
    sent := sent_of_stamps (keeps_of_request hmanaged hreceive Session.listens_stamps.toOutward
      (Stamps.change fun _ => rfl))
    heard := by rw [hunheard, hheard]; rfl
    awaits_iff := by simp [hawaits, hunwritten, hunhandled]
    pinged := fun hwrites => absurd hwrites hunwritten
    unpinged := fun _ => hping
    calm := fun _ => hunwritten
    first := fun frames hholds => absurd hholds (hpingless frames)
    due := fun hquiet => absurd hquiet hunquiet
    overdue := fun hquiet => absurd hquiet hunquiet }

end

/-! ## Receiving -/

/-- A step that receives ends as receiving ends, and answers with what that came to. -/
theorem receives_map {managed : Bool} (h : s.call = .receive managed) :
    ∃ r, (Session.receive managed).runOn s.before = some (r, s.after) ∧
      s.result = r.map .progress := by
  obtain ⟨call, σ, r, τ, hrun⟩ := s
  cases h
  exact Act.runOn_bind_pure_inv hrun

/-- The calls of a step that sees to keep-alive begin with a read. -/
theorem calls_of_receive (hcall : s.call = .receive true) :
    ∃ later, s.calls = later ++ [.read (s.before.session.capacity - s.before.session.filled)
        (Session.firstAnswer s.before).1] ∧
      (Session.FindsNothing s.before →
        ∃ rest, later = rest ++ [.now (Host.now (Session.firstAnswer s.before).2).1]) := by
  obtain ⟨r, hreceive, -⟩ := s.receives_map hcall
  obtain ⟨later, hlater, hclock⟩ := Session.receive_starts hreceive
  refine ⟨later, s.calls_eq ?_, hclock⟩
  rw [hlater, List.append_assoc]
  rfl

/-- A quiet step finds nothing to read, and asks for the time then. -/
theorem IsQuiet.finds (h : s.IsQuiet) : Session.FindsNothing s.before ∧
    s.askedAt = (Host.now (Session.firstAnswer s.before).2).1 := by
  obtain ⟨hcall, later', asked, count, arrived, hcalls', hnothing⟩ := h
  obtain ⟨later, hcalls, hclock⟩ := calls_of_receive hcall
  obtain ⟨rfl, hread⟩ := List.append_inj' (hcalls'.symm.trans hcalls) rfl
  obtain ⟨rfl, hanswer⟩ : asked = s.before.session.capacity - s.before.session.filled ∧
      some (count, arrived) = (Session.firstAnswer s.before).1 := by simpa using hread
  have hfinds : Session.FindsNothing s.before := ⟨count, arrived, hanswer.symm, hnothing⟩
  obtain ⟨rest, rfl⟩ := hclock hfinds
  have htimes : clockTimes s.calls =
      clockTimes rest ++ [(Host.now (Session.firstAnswer s.before).2).1] := by
    rw [hcalls, clockTimes, List.filterMap_append, List.filterMap_append, List.append_assoc]
    rfl
  exact ⟨hfinds, by rw [askedAt, htimes, List.getLastD_concat]⟩

/-- What a step that sees to keep-alive comes to: the part before a packet is handled, and a look at
the network buffer, in which no PINGREQ is sent. -/
theorem process_inv (hcall : s.call = .receive true) :
    ∃ r υ r' later, Session.Arrives s.before r υ ∧
      s.after.host.calls = later ++ υ.host.calls ∧ IsPingless (written later) ∧
      Session.Heeds υ r' s.after ∧ s.result = r'.map .progress ∧
      (r = .error .sendFailed → r' = .error .sendFailed) := by
  obtain ⟨r', hreceive, hresult⟩ := s.receives_map hcall
  rw [Session.receive_eq] at hreceive
  rcases Act.runOn_bind_inv hreceive with ⟨fault, harrive, rfl⟩ | ⟨_, υ, harrive, hbuffered⟩
  · refine ⟨_, s.after, _, [], Session.arrive_arrives harrive, rfl, isPingless_nil, ?_, hresult,
      by rintro ⟨⟩; rfl⟩
    exact ⟨rfl, by simp [Session.HandledPingresp], by rintro _ ⟨⟩, fun _ => rfl⟩
  · obtain ⟨later, hlater, frames, hothers, hfront, -⟩ :=
      Session.handleBuffered_drafts true υ r' s.after hbuffered
    exact ⟨_, υ, r', later, Session.arrive_arrives harrive, hlater, ⟨frames, hothers, hfront⟩,
      Session.handleBuffered_heeds hbuffered, hresult, by rintro ⟨⟩⟩

/-- A step that delivers what is sent has no PINGREQ refused. -/
theorem not_refused {υ : Scene (Watched ω)} {later : List HostCall} {r' : Except Fault Progress}
    (hdelivers : s.Delivers) (hrefused : Refused s.before υ)
    (hlater : s.after.host.calls = later ++ υ.host.calls)
    (hresult : s.result = r'.map .progress) : r' ≠ .error .sendFailed := by
  rintro rfl
  rcases hdelivers with haccepted | hsends
  · obtain ⟨calls, hcalls, c, hc, hnot⟩ :=
      hrefused.before (τ := s.after) ⟨later, hlater, fun _ _ => trivial⟩
    exact hnot (haccepted c (s.calls_eq hcalls ▸ hc))
  · exact hsends hresult

theorem handlesPingresp_iff {r' : Except Fault Progress} (hresult : s.result = r'.map .progress) :
    s.HandlesPingresp ↔ Session.HandledPingresp r' := by
  rw [HandlesPingresp, hresult, Session.HandledPingresp]
  cases r' <;> simp [Except.map]

/-- The time at which a packet has been handled is the last one that the step has read. -/
theorem heard_of_heeds {υ : Scene (Watched ω)} {r' : Except Fault Progress}
    {later : List HostCall} (hheeds : Session.Heeds υ r' s.after)
    (hcalls : υ.host.calls = later ++ s.before.host.calls) (hresult : s.result = r'.map .progress)
    (hlast : υ.session.lastRx = s.before.session.lastRx) :
    s.after.session.lastRx = s.heardAt?.getD s.before.session.lastRx := by
  by_cases hpacket : ∃ b, r' = .ok (.packet b)
  · obtain ⟨b, rfl⟩ := hpacket
    obtain ⟨t, earlier, hearlier, ht⟩ := hheeds.heard b rfl
    have hstep : s.calls = .now t :: (earlier ++ later) :=
      s.calls_eq (by rw [hearlier, hcalls]; simp)
    rw [ht, heardAt?, hresult, hstep]
    rfl
  · rw [hheeds.unheard fun b hr => hpacket ⟨b, hr⟩, hlast, heardAt?, hresult]
    rcases r' with fault | ⟨_ | _ | b⟩
    · rfl
    · rfl
    · rfl
    · exact absurd ⟨b, rfl⟩ hpacket

/-- The times of a step that sends a PINGREQ first. -/
theorem pingedAt_eq {t : UInt32} {later before : List HostCall}
    (hcalls : s.calls = later ++ (.now t :: .flush true :: before))
    (hbefore : ∀ c ∈ before, c ≠ .flush true) : s.pingedAt = t := by
  rw [pingedAt, hcalls, sentTimes_append (by simp), sentTimes, sentTimes_eq_nil hbefore,
    List.getLastD_concat]

theorem tends_of_process (hcall : s.call = .receive true) (hdelivers : s.Delivers) : s.Tends := by
  obtain ⟨r, υ, r', later, harrives, hlater, hpingless, hheeds, hresult, hfails⟩ :=
    process_inv hcall
  have hsent := sent_of_stamps (s := s) (s.call.perform_keeps Session.listens_stamps.toOutward
    (by simp [hcall]) (by simp [hcall]) (by simp [hcall]) (Stamps.change fun _ => rfl)
    (fun managed _ => Session.listens_stamps.receive managed (Stamps.change fun _ => rfl))
    _ _ _ s.performed)
  have hhandled := handlesPingresp_iff hresult
  have hdue : ∀ {P : Prop}, (P ↔ Session.MustPing s.before) → s.IsQuiet →
      (P ↔ s.before.session.PingDue s.askedAt) := by
    intro P hP hquiet
    rw [hP, Session.mustPing_iff hquiet.finds.1, hquiet.finds.2]
  have hoverdue : s.IsQuiet →
      (s.result = .error .keepAliveTimeout ↔ s.before.session.Overdue s.askedAt) := by
    intro hquiet
    obtain ⟨r, hreceive, hends⟩ := s.receives hcall
    rw [hends, Session.receive_times_out_iff hreceive, Session.givesUp_iff hquiet.finds.1,
      hquiet.finds.2]
  cases harrives with
  | @rests calls rests made mute session_eq =>
    have hcalls : s.calls = later ++ calls :=
      s.calls_eq (by rw [hlater, made, List.append_assoc])
    have hwritten : written s.calls = written later := by
      rw [hcalls, written_append, written_eq_nil fun c hc => (mute c hc).1, List.nil_append]
    have hunwritten : ¬s.WritesPingreq := by
      rintro ⟨frames, hholds⟩
      exact hpingless.not_holdsPingreq frames (hwritten ▸ hholds)
    have hkept : υ.session.awaitsPingresp = s.before.session.awaitsPingresp ∧
        υ.session.pingSentAt = s.before.session.pingSentAt ∧
          υ.session.lastRx = s.before.session.lastRx := by
      rw [session_eq, Session.fetch]
      cases (Session.firstAnswer s.before).1 <;> exact ⟨rfl, rfl, rfl⟩
    obtain ⟨hawaits, hping, hheard⟩ := hkept
    exact {
      sent := hsent
      heard := heard_of_heeds hheeds made hresult hheard
      awaits_iff := by rw [hheeds.awaits_iff, hawaits, hhandled]; simp [hunwritten]
      pinged := fun hwrites => absurd hwrites hunwritten
      unpinged := fun _ => hheeds.pingSentAt_eq.trans hping
      calm := fun _ => hunwritten
      first := fun frames hholds => absurd ⟨frames, hholds⟩ hunwritten
      due := hdue (iff_of_false hunwritten rests)
      overdue := hoverdue }
  | @pings t before must made unflushed sent session_eq =>
    have hcalls : s.calls = later ++ (.now t :: .flush true :: before) :=
      s.calls_eq (by rw [hlater, made, List.append_assoc])
    have hwritten : written s.calls = Ping.request ++ written later := by
      rw [hcalls, written_append, written_cons, written_cons, sent]
      rfl
    have hwrites : s.WritesPingreq := by
      refine ⟨[], ?_⟩
      rw [hwritten]
      exact List.prefix_append ..
    have hheard : υ.session.lastRx = s.before.session.lastRx := by
      rw [session_eq, Session.fetch]
      cases (Session.firstAnswer s.before).1 <;> rfl
    have hcalm : s.before.session.awaitsPingresp = false := must.due.1
    exact {
      sent := hsent
      heard := heard_of_heeds hheeds made hresult hheard
      awaits_iff := by
        rw [hheeds.awaits_iff, hhandled, session_eq]
        simp [Session.pinged, hwrites]
      pinged := fun _ => by
        rw [hheeds.pingSentAt_eq, session_eq, pingedAt_eq hcalls unflushed]
        rfl
      unpinged := fun hunwritten => absurd hwrites hunwritten
      calm := fun hawaits => by cases hcalm.symm.trans hawaits
      first := fun frames hholds => hpingless.eq_nil (hwritten ▸ hholds)
      due := hdue (iff_of_true hwrites must)
      overdue := hoverdue }
  | fails must result refused =>
    exact absurd (hfails result) (not_refused hdelivers refused hlater hresult)

theorem tends (hmanaged : s.call.IsManaged) (hdelivers : s.Delivers) : s.Tends := by
  by_cases hreceive : ∃ managed, s.call = .receive managed
  · obtain ⟨managed, hcall⟩ := hreceive
    cases managed with
    | false => simp [hcall, Call.IsManaged] at hmanaged
    | true => exact tends_of_process hcall hdelivers
  · exact tends_of_request hmanaged fun managed hcall => hreceive ⟨managed, hcall⟩

end Step

/-! ## Runs -/

/-- A PINGREQ of one of the steps is outstanding after them: since it was written no PINGRESP has
been handled. -/
def Outstanding (s : Step ω) (steps : List (Step ω)) : Prop :=
  s.WritesPingreq ∧ ∃ before since, steps = before ++ s :: since ∧
    ∀ u ∈ s :: since, ¬u.HandlesPingresp

theorem outstanding_append {s last : Step ω} {steps : List (Step ω)} :
    Outstanding s (steps ++ [last]) ↔
      (s = last ∧ last.WritesPingreq ∨ Outstanding s steps) ∧ ¬last.HandlesPingresp := by
  constructor
  · rintro ⟨hwrites, before, since, hsteps, hunhandled⟩
    rcases List.eq_nil_or_concat since with rfl | ⟨since, other, rfl⟩
    · obtain ⟨-, hlast⟩ := List.append_inj' hsteps rfl
      cases hlast
      exact ⟨.inl ⟨rfl, hwrites⟩, hunhandled _ (by simp)⟩
    · have hends : steps ++ [last] = (before ++ s :: since) ++ [other] := by simpa using hsteps
      obtain ⟨rfl, hother⟩ := List.append_inj' hends rfl
      cases hother
      rw [List.concat_eq_append, ← List.cons_append] at hunhandled
      obtain ⟨hearlier, hlast⟩ := List.forall_mem_append.mp hunhandled
      exact ⟨.inr ⟨hwrites, before, since, rfl, hearlier⟩, hlast _ (by simp)⟩
  · rintro ⟨⟨rfl, hwrites⟩ | ⟨hwrites, before, since, rfl, hunhandled⟩, hlast⟩
    · exact ⟨hwrites, steps, [], rfl, by simpa using hlast⟩
    · refine ⟨hwrites, before, since ++ [last], by simp, ?_⟩
      rw [← List.cons_append]
      exact List.forall_mem_append.mpr ⟨hunhandled, by simpa using hlast⟩

/-- The latest of some times of steps, or else an earlier one. -/
def latest (time? : Step ω → Option UInt32) (start : UInt32) (steps : List (Step ω)) : UInt32 :=
  steps.foldl (fun t s => (time? s).getD t) start

theorem latest_append (time? : Step ω → Option UInt32) (start : UInt32) (steps : List (Step ω))
    (last : Step ω) :
    latest time? start (steps ++ [last]) = (time? last).getD (latest time? start steps) := by
  rw [latest, List.foldl_append]
  rfl

/-- The session goes by what an observer of the steps since the connection can tell. -/
structure Reflects (opening : Step ω) (steps : List (Step ω)) (s : Session) : Prop where
  pace_eq : s.pace = opening.after.session.pace
  lastTx_eq : s.lastTx = latest Step.sentAt? opening.endedAt steps
  lastRx_eq : s.lastRx = latest Step.heardAt? opening.endedAt steps
  awaits_iff : s.awaitsPingresp = true ↔ ∃ u, Outstanding u steps
  pinged : ∀ u, Outstanding u steps → s.pingSentAt = u.pingedAt

theorem Call.IsManaged.not_connects {s : Step ω} (h : s.call.IsManaged) : ¬s.Connects := by
  rintro ⟨c, timeout, present, hcall, -⟩
  simp [hcall, IsManaged] at h

theorem Reflects.step {opening last : Step ω} {steps : List (Step ω)}
    (h : Reflects opening steps last.before.session) (hmanaged : last.call.IsManaged)
    (hdelivers : last.Delivers) : Reflects opening (steps ++ [last]) last.after.session := by
  have htends := Step.tends hmanaged hdelivers
  have hwritten : (last.WritesPingreq ∨ ∃ u, Outstanding u steps) ∧ ¬last.HandlesPingresp ↔
      ∃ u, Outstanding u (steps ++ [last]) := by
    simp only [outstanding_append]
    constructor
    · rintro ⟨hwrites | ⟨u, hu⟩, hunhandled⟩
      · exact ⟨last, .inl ⟨rfl, hwrites⟩, hunhandled⟩
      · exact ⟨u, .inr hu, hunhandled⟩
    · rintro ⟨u, ⟨-, hwrites⟩ | hu, hunhandled⟩
      · exact ⟨.inl hwrites, hunhandled⟩
      · exact ⟨.inr ⟨u, hu⟩, hunhandled⟩
  exact {
    pace_eq := (Step.pace_eq hmanaged.not_connects).trans h.pace_eq
    lastTx_eq := by rw [htends.sent, h.lastTx_eq, latest_append]
    lastRx_eq := by rw [htends.heard, h.lastRx_eq, latest_append]
    awaits_iff := by rw [htends.awaits_iff, h.awaits_iff, hwritten]
    pinged := by
      intro u hu
      rcases (outstanding_append.mp hu).1 with ⟨rfl, hwrites⟩ | hu
      · exact htends.pinged hwrites
      · rw [htends.unpinged (htends.calm (h.awaits_iff.mpr ⟨u, hu⟩)), h.pinged u hu] }

/-- A scripted host some time later. -/
def Scripted.wait (milliseconds : UInt32) (h : Scripted) : Scripted :=
  { h with clock := h.clock + milliseconds }

end MqttClient
