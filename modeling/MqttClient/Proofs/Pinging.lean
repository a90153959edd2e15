import MqttClient.Proofs.Status

/-!
# When keep-alive pings

The decision to send a PINGREQ looks at the times of a session and at nothing else
(`Session.MustPing`), and in particular not at its status. What a call does about it shows in its
first write (`firstOffer`), since a PINGREQ goes out before any acknowledgement
(`Session.receive_offers`). Without a session keep-alive is silent only where both limits of silence
are off, which neither of them is by default (`process_pings_iff`).
-/
namespace MqttClient
variable {ω : Type}

/-! ## The first write -/

/-- What the first write among calls that are listed latest first offers. -/
def firstOffer (calls : List HostCall) : Option Bytes :=
  (calls.reverse.find? fun c => c.IsWrite).map HostCall.offered

theorem firstOffer_append (later earlier : List HostCall) :
    firstOffer (later ++ earlier) = (firstOffer earlier).or (firstOffer later) := by
  simp [firstOffer, List.find?_append, Option.map_or]

theorem firstOffer_eq_none {calls : List HostCall} (h : ∀ c ∈ calls, ¬c.IsWrite) :
    firstOffer calls = none := by
  simpa [firstOffer] using h

/-- Calls have been made of which the first write offers some bytes. -/
def Begins (b : Bytes) (σ τ : Scene (Watched ω)) : Prop :=
  ∃ calls, τ.host.calls = calls ++ σ.host.calls ∧ firstOffer calls = some b

/-- Calls have been made of which the first write, if there is one, offers bytes of one kind. -/
def Offers (P : Bytes → Prop) (σ τ : Scene (Watched ω)) : Prop :=
  ∃ calls, τ.host.calls = calls ++ σ.host.calls ∧ ∀ b ∈ firstOffer calls, P b

section
variable {σ υ τ : Scene (Watched ω)} {b : Bytes} {P : Bytes → Prop}

theorem Begins.before (h : Begins b σ υ) (hlater : Makes (fun _ => True) υ τ) : Begins b σ τ := by
  obtain ⟨calls, hcalls, hfirst⟩ := h
  obtain ⟨later, hlater, -⟩ := hlater
  exact ⟨later ++ calls, by rw [hlater, hcalls, List.append_assoc],
    by rw [firstOffer_append, hfirst, Option.some_or]⟩

theorem Begins.after (hearlier : Mute σ υ) (h : Begins b υ τ) : Begins b σ τ := by
  obtain ⟨earlier, hearlier, hmute⟩ := hearlier
  obtain ⟨calls, hcalls, hfirst⟩ := h
  exact ⟨calls ++ earlier, by rw [hcalls, hearlier, List.append_assoc],
    by rw [firstOffer_append, firstOffer_eq_none hmute, Option.none_or, hfirst]⟩

theorem Begins.offers (h : Begins b σ τ) (hb : P b) : Offers P σ τ := by
  obtain ⟨calls, hcalls, hfirst⟩ := h
  refine ⟨calls, hcalls, fun b' hb' => ?_⟩
  rw [hfirst] at hb'
  cases hb'
  exact hb

theorem Makes.offers (h : Mute σ τ) : Offers P σ τ := by
  obtain ⟨calls, hcalls, hmute⟩ := h
  exact ⟨calls, hcalls, by simp [firstOffer_eq_none hmute]⟩

end

instance (P : Bytes → Prop) : IsPreorder (Scene (Watched ω)) (Offers P) where
  refl σ := Makes.offers (refl_of Mute σ)
  trans := by
    rintro σ υ τ ⟨calls, hcalls, hfirst⟩ ⟨later, hlater, hfirst'⟩
    refine ⟨later ++ calls, by rw [hlater, hcalls, List.append_assoc], fun b hb => ?_⟩
    rw [firstOffer_append, Option.mem_def, Option.or_eq_some_iff] at hb
    rcases hb with hb | ⟨-, hb⟩
    · exact hfirst b hb
    · exact hfirst' b hb

variable [Host ω] {σ τ : Scene (Watched ω)}

namespace Session

theorem offer_makes {P : HostCall → Prop} (hsending : ∀ c, c.IsSending → P c) (n : ℕ)
    (start : UInt32) (left : ℕ) (spans : List Bytes) :
    Act.Keeps (Makes (ω := ω) P) (offer n start left spans) :=
  offer_keeps (fun spans => .guarded (.hostDo fun _ => .of_call rfl (hsending .enter trivial))
      (.host fun _ => .of_call rfl (hsending (.write spans _) trivial))
      (.hostDo fun _ => .of_call rfl (hsending .exit trivial)))
    (.host fun _ => .of_call rfl (hsending (.now _) trivial)) n start left spans

theorem goOn_makes {P : HostCall → Prop} (hsending : ∀ c, c.IsSending → P c) (n : ℕ)
    (start : UInt32) (left : ℕ) (spans : List Bytes) (answer : Option ℕ) :
    Act.Keeps (Makes (ω := ω) P) (goOn n start left spans answer) := by
  have hmore := offer_makes (ω := ω) hsending n start
  cases answer with
  | none => exact .throw _
  | some count =>
    refine .ite (Act.Keeps.bind ?_ fun _ => Act.Keeps.session.bind fun _ => .check (hmore _ _))
      (hmore _ _)
    exact .host fun _ => .of_call rfl (hsending (.now _) trivial)

/-- The first write of an offer offers all of it. -/
theorem offer_begins {n : ℕ} {start : UInt32} {left : ℕ} {spans : List Bytes}
    {r : Except Fault Unit} (hleft : left ≠ 0)
    (h : (offer n start left spans).runOn σ = some (r, τ)) : Begins spans.flatten σ τ := by
  cases n with
  | zero =>
    rw [offer.eq_def, if_neg hleft] at h
    cases h
  | succ n =>
    obtain ⟨offered, -, hflat, hround⟩ := runOn_offer_succ n start spans hleft σ
    rw [hround] at h
    have hfirst : Begins spans.flatten σ
        ⟨σ.session, Host.exit (Host.write offered (Host.enter σ.host)).2⟩ :=
      ⟨[.exit, .write offered _, .enter], rfl, congrArg some hflat⟩
    exact hfirst.before (goOn_makes (fun _ _ => trivial) n start left offered _ _ r τ h)

/-- The first write of a packet offers all of it. -/
theorem send_begins {spans : List Bytes} {r : Except Fault Unit} (hne : spans.flatten ≠ [])
    (h : (send spans).runOn σ = some (r, τ)) : Begins spans.flatten σ τ := by
  simp only [send] at h
  rw [Act.runOn_bind_of_ok (Act.runOn_now _), Act.runOn_bind_of_ok (Act.runOn_get _)] at h
  have hclock : Mute σ { σ with host := (Host.now σ.host).2 } := .of_call rfl id
  have hsize : Spans.size spans ≠ 0 := by
    rw [Spans.size_eq]
    exact mt List.length_eq_zero_iff.mp hne
  rcases Act.runOn_bind_inv h with ⟨fault, hoffer, -⟩ | ⟨_, υ, hoffer, h⟩
  · exact (offer_begins hsize hoffer).after hclock
  · refine ((offer_begins hsize hoffer).after hclock).before
      ((?_ : Act.Keeps (Makes fun _ => True) _) _ r τ h)
    refine (Act.Keeps.host fun _ => .of_call rfl trivial).bind fun _ => .check ?_
    exact (Act.Keeps.host fun _ => .of_call rfl trivial).bind fun _ => .makes_change

/-! ## The decision -/

/-- Whether a PINGREQ is to be sent at a time: none is unanswered, and the client has been silent
or has heard nothing for as long as a limit allows that is not switched off. -/
def PingDue (s : Session) (now : UInt32) : Prop :=
  s.awaitsPingresp = false ∧
    (s.txLimit ≠ 0 ∧ s.txLimit ≤ now - s.lastTx ∨
      s.settings.rxIdle ≠ 0 ∧ s.settings.rxIdle ≤ now - s.lastRx)

theorem duty_eq_ping {s : Session} {now : UInt32} :
    (s.timers now).duty = .ping ↔ s.PingDue now := by
  unfold Timers.duty PingDue
  simp only [timers]
  grind

/-- Reading has changed nothing that the decision looks at. -/
theorem pingDue_afterRead {s : Session} (answer : Option (ℕ × Bytes)) (now : UInt32) :
    (s.afterRead answer).PingDue now ↔ s.PingDue now := by
  cases answer <;> rfl

/-- A call finds nothing to read and a PINGREQ to be sent. -/
structure MustPing (σ : Scene (Watched ω)) : Prop where
  quiet : ∃ count arrived, (firstAnswer σ).1 = some (count, arrived) ∧
    min count (σ.session.capacity - σ.session.filled) = 0
  due : σ.session.PingDue (Host.now (firstAnswer σ).2).1

theorem not_mustPing_of_none (h : (firstAnswer σ).1 = none) : ¬MustPing σ := by
  rintro ⟨⟨count, arrived, hanswer, -⟩, -⟩
  cases h.symm.trans hanswer

/-- After a read that finds nothing, the duty decides. -/
theorem mustPing_iff_duty {count : ℕ} {arrived : Bytes}
    (h : (firstAnswer σ).1 = some (count, arrived)) :
    MustPing σ ↔ min count (σ.session.capacity - σ.session.filled) = 0 ∧
      ((fetch σ).session.timers (Host.now (fetch σ).host).1).duty = .ping := by
  rw [duty_eq_ping, fetch, pingDue_afterRead]
  constructor
  · rintro ⟨⟨count', arrived', hanswer, hquiet⟩, hdue⟩
    cases h.symm.trans hanswer
    exact ⟨hquiet, hdue⟩
  · rintro ⟨hquiet, hdue⟩
    exact ⟨⟨count, arrived, h, hquiet⟩, hdue⟩

/-- Before a packet is handled a PINGREQ is sent or nothing is written. -/
theorem arrive_offers {r : Except Fault Unit} (h : (arrive true).runOn σ = some (r, τ)) :
    MustPing σ ∧ Begins Ping.request σ τ ∨ ¬MustPing σ ∧ Mute σ τ := by
  have hread : Mute σ (fetch σ) := .of_call rfl id
  cases hanswer : (firstAnswer σ).1 with
  | none =>
    rw [arrive_none hanswer] at h
    cases h
    exact .inr ⟨not_mustPing_of_none hanswer, hread⟩
  | some answer =>
    obtain ⟨count, arrived⟩ := answer
    rw [arrive_some hanswer] at h
    split at h
    · obtain ⟨hquiet, -⟩ := ‹_ ∧ true = true›
      have hdue := (mustPing_iff_duty hanswer).trans (and_iff_right hquiet)
      have hclock : Mute σ { fetch σ with host := (Host.now (fetch σ).host).2 } :=
        hread.trans (.of_call rfl id)
      rw [keepAliveDuty, Act.runOn_bind_of_ok (Act.runOn_now _),
        Act.runOn_bind_of_ok (Act.runOn_session _)] at h
      rw [hdue]
      split at h
      · rename_i hduty
        cases h
        exact .inr ⟨by simp [hduty], hclock⟩
      · rename_i hduty
        refine .inl ⟨hduty, .after hclock ?_⟩
        rcases Act.runOn_bind_inv h with ⟨fault, hsend, -⟩ | ⟨_, υ, hsend, h⟩
        · exact send_begins (by decide) hsend
        · cases h
          exact (send_begins (by decide) hsend).before (.refl _)
      · rename_i hduty
        cases h
        exact .inr ⟨by simp [hduty], hclock⟩
    · rename_i hcase
      cases h
      exact .inr ⟨fun hmust => hcase ⟨((mustPing_iff_duty hanswer).mp hmust).1, rfl⟩, hread⟩

/-- Whether bytes are an acknowledgement. -/
def IsAck (b : Bytes) : Prop := ∃ ack id, b = Ack.wire ack id

theorem track_offers {α : Type} (step : ExchangeTable → Except Fault (α × ExchangeTable)) :
    Act.Keeps (Offers (ω := ω) IsAck) (Act.track step) :=
  (track_mute step).mono fun _ _ h => h.offers

theorem sendAck_offers (id : UInt16) (state : ExchangeState) :
    Act.Keeps (Offers (ω := ω) IsAck) (sendAck id state) := by
  have hsend : ∀ ack, Act.Keeps (Offers (ω := ω) IsAck) (send [Ack.wire ack id]) :=
    fun ack σ r τ hrun => (send_begins (by simp [Ack.wire]) hrun).offers ⟨ack, id, by simp⟩
  exact sendAck_elim id state (.pure _) (fun _ => .throw _) fun ack _ =>
    (hsend ack).bind fun _ => (track_offers _).bind fun _ =>
      (Act.Keeps.ofResult _).bind fun _ => .pure _

theorem answering_offers : Answering (Offers (ω := ω) IsAck) where
  sendAck := sendAck_offers
  track _ := track_offers _
  report event := (report_mute event).mono fun _ _ h => h.offers

theorem handleBuffered_offers (managed : Bool) :
    Act.Keeps (Offers (ω := ω) IsAck) (handleBuffered managed) := by
  have hchange : ∀ f, Act.Keeps (Offers (ω := ω) IsAck) (Act.change f) := fun f =>
    Act.Keeps.makes_change.mono fun _ _ h => Makes.offers h
  exact handleBuffered_keeps
    (fun packet => answering_offers.dispatch managed packet (hchange _) fun _ => hchange _)
    (fun _ => hchange _) (fun _ => hchange _) (inward_mute.mono fun _ _ h => h.offers)

/-- The first write of a call offers a PINGREQ just when one is to be sent. -/
theorem receive_offers {r : Except Fault Progress} (h : (receive true).runOn σ = some (r, τ)) :
    ∃ calls, τ.host.calls = calls ++ σ.host.calls ∧
      (firstOffer calls = some Ping.request ↔ MustPing σ) := by
  rw [receive_eq] at h
  rcases Act.runOn_bind_inv h with ⟨fault, harrive, -⟩ | ⟨_, υ, harrive, hbuffered⟩
  · rcases arrive_offers harrive with ⟨hmust, calls, hcalls, hfirst⟩ |
      ⟨hmust, calls, hcalls, hmute⟩
    · exact ⟨calls, hcalls, by simp [hfirst, hmust]⟩
    · exact ⟨calls, hcalls, by simp [firstOffer_eq_none hmute, hmust]⟩
  · obtain ⟨later, hlater, hack⟩ := handleBuffered_offers true υ r τ hbuffered
    rcases arrive_offers harrive with ⟨hmust, calls, hcalls, hfirst⟩ |
      ⟨hmust, calls, hcalls, hmute⟩
    · exact ⟨later ++ calls, by rw [hlater, hcalls, List.append_assoc],
        by simp [firstOffer_append, hfirst, hmust]⟩
    · refine ⟨later ++ calls, by rw [hlater, hcalls, List.append_assoc], ?_⟩
      rw [firstOffer_append, firstOffer_eq_none hmute, Option.none_or]
      refine iff_of_false (fun hping => ?_) hmust
      obtain ⟨ack, id, heq⟩ := hack _ hping
      -- An acknowledgement is longer than a PINGREQ.
      have hlength := congrArg List.length heq
      simp [Ping.request, Ack.wire, Bytes.ofWord] at hlength

/-! ## The limits of silence -/

/-- Without a keep-alive in force the limit on the client's own silence is off. -/
theorem txLimit_of_keepAlive {s : Session} (h : s.keepAlive = 0) : s.txLimit = 0 := by
  have hzero : UInt32.ofNat (s.keepAlive.toNat * 1000) = 0 := by
    rw [h]
    rfl
  rw [txLimit, hzero]
  exact if_pos UInt32.zero_le

/-- What the limits of silence depend on. -/
def pace (s : Session) : UInt16 × Settings := (s.keepAlive, s.settings)

theorem limits_of_pace {s t : Session} (h : s.pace = t.pace) :
    s.txLimit = t.txLimit ∧ s.settings.rxIdle = t.settings.rxIdle := by
  obtain ⟨hkeepAlive, hsettings⟩ := Prod.mk.inj h
  simp only [txLimit, hkeepAlive, hsettings, and_self]

theorem listens_pace : Listens (Same (ω := Watched ω) pace) :=
  listens_same fun _ _ _ _ _ _ _ _ _ => rfl

/-- An attempt to connect that fails leaves the keep-alive in force. -/
theorem pace_of_connect {c : Connect} {timeout : UInt32} {fault : Fault}
    (h : (connect c timeout).runOn σ = some (.error fault, τ)) :
    τ.session.pace = σ.session.pace := by
  rw [connect_eq] at h
  have hbegun : Act.Keeps (Same (ω := Watched ω) pace) (handshake c timeout) :=
    listens_pace.handshake listens_pace.send c timeout
  rcases Act.runOn_bind_inv h with ⟨fault, hhandshake, -⟩ | ⟨present, υ, hhandshake, h⟩
  · exact hbegun σ _ τ hhandshake
  rcases Act.runOn_bind_inv h with ⟨fault, hresume, -⟩ | ⟨_, ρ, -, h⟩
  · exact (listens_pace.resume present υ _ τ hresume).trans (hbegun σ _ υ hhandshake)
  · cases h

end Session

/-! ## Runs -/

namespace Step

/-- A step sends a PINGREQ: its first write offers one. Whether the transport takes it is another
matter. -/
def OffersPing (s : Step ω) : Prop := firstOffer s.calls = some Ping.request

theorem offersPing_iff {s : Step ω} (hcall : s.call = .receive true) :
    s.OffersPing ↔ Session.MustPing s.before := by
  obtain ⟨r, hreceive, -⟩ := s.receives hcall
  obtain ⟨calls, hcalls, hoffers⟩ := Session.receive_offers hreceive
  rw [OffersPing, Step.calls_eq hcalls, hoffers]

/-- Only a new connection changes the limits of silence. -/
theorem pace_eq {s : Step ω} (h : ¬s.Connects) :
    s.after.session.pace = s.before.session.pace := by
  obtain ⟨call, σ, r, τ, hrun⟩ := s
  by_cases hconnect : ∃ c timeout, call = .connect c timeout
  · obtain ⟨c, timeout, rfl⟩ := hconnect
    obtain ⟨r', hrun', rfl⟩ := Act.runOn_bind_pure_inv hrun
    cases r' with
    | error fault => exact Session.pace_of_connect hrun'
    | ok present => exact absurd ⟨c, timeout, present, rfl, rfl⟩ h
  · have hlistens := @Session.listens_pace ω _
    exact call.perform_keeps hlistens.toOutward
      (fun c timeout hcall => absurd ⟨c, timeout, hcall⟩ hconnect)
      (fun _ => .change fun _ => rfl) (fun _ => hlistens.ping) (.change fun _ => rfl)
      (fun managed _ => hlistens.receive managed (.change fun _ => rfl)) σ r τ hrun

end Step

/-- As long as no session is opened, the limits of silence are those of the start. -/
theorem pace_of_isRun {first : Step ω} {rest : List (Step ω)} (hrun : IsRun (first :: rest))
    (hconnects : ∀ s ∈ first :: rest, ¬s.Connects) :
    ∀ s ∈ first :: rest, s.before.session.pace = first.before.session.pace := by
  induction rest generalizing first with
  | nil => simp
  | cons second rest ih =>
    obtain ⟨hfollows, hrest⟩ := List.isChain_cons_cons.mp hrun
    obtain ⟨hfirst, hothers⟩ := List.forall_mem_cons.mp hconnects
    have hsecond : second.before.session.pace = first.before.session.pace := by
      rw [hfollows, Step.pace_eq hfirst]
    exact List.forall_mem_cons.mpr ⟨rfl, fun s hs => (ih hrest hothers s hs).trans hsecond⟩

/-- **When keep-alive pings.** In whatever state a new client has got into by its calls, with a
session or without, a call that sees to keep-alive sends a PINGREQ just when it finds nothing to
read, no PINGREQ is unanswered and a limit of silence that is not switched off is reached. So such
calls are silent for as long as they go on if both limits are off. The limit on the client's own
silence is off until a session has been opened. -/
theorem process_pings_iff {earlier quiet : List (Step ω)} (hrun : IsRun (earlier ++ quiet))
    (hnew : ∀ s ∈ (earlier ++ quiet).head?, ∃ capacity exchanges version settings,
      s.before.session = .create capacity exchanges version settings)
    (hquiet : ∀ s ∈ quiet, s.call = .receive true) :
    (∀ s ∈ quiet, s.OffersPing ↔ Session.MustPing s.before) ∧
      ((∀ s ∈ quiet.head?, s.before.session.txLimit = 0 ∧ s.before.session.settings.rxIdle = 0) →
        ∀ s ∈ quiet, ¬s.OffersPing) ∧
      ((∀ s ∈ earlier, ¬s.Connects) → ∀ s ∈ quiet.head?, s.before.session.txLimit = 0) := by
  have hpings : ∀ s ∈ quiet, s.OffersPing ↔ Session.MustPing s.before :=
    fun s hs => Step.offersPing_iff (hquiet s hs)
  have hstays : ∀ s ∈ quiet, ¬s.Connects := by
    rintro s hs ⟨c, timeout, present, hcall, -⟩
    cases (hquiet s hs).symm.trans hcall
  refine ⟨hpings, fun hoff s hs hoffers => ?_, fun hclosed s hs => ?_⟩
  · obtain ⟨first, rest, rfl⟩ := List.exists_cons_of_ne_nil (List.ne_nil_of_mem hs)
    have hpace := pace_of_isRun (List.isChain_append.mp hrun).2.1 hstays s hs
    obtain ⟨htx, hrx⟩ := Session.limits_of_pace hpace
    obtain ⟨htx', hrx'⟩ := hoff first rfl
    have hdue := ((hpings s hs).mp hoffers).due.2
    rw [htx, hrx, htx', hrx'] at hdue
    rcases hdue with ⟨hne, -⟩ | ⟨hne, -⟩ <;> exact hne rfl
  · obtain ⟨quiet, rfl⟩ : ∃ rest, quiet = s :: rest := by
      cases quiet <;> cases hs
      exact ⟨_, rfl⟩
    obtain ⟨start, rest, hstart⟩ : ∃ start rest, earlier ++ s :: quiet = start :: rest :=
      List.exists_cons_of_ne_nil (by simp)
    rw [hstart] at hrun hnew
    obtain ⟨capacity, exchanges, version, settings, hcreate⟩ := hnew start rfl
    have hpace := pace_of_isRun hrun (hstart ▸ List.forall_mem_append.mpr ⟨hclosed, hstays⟩) s
      (hstart ▸ by simp)
    rw [(Session.limits_of_pace hpace).1]
    exact Session.txLimit_of_keepAlive (by rw [hcreate]; rfl)

/-- Calls of a client that has never been connected and whose broker may be silent. -/
def patient : List (Step Scripted) :=
  stepsFrom
    { session := .create 8 (.empty 0 0) .v311 { rxIdle := 0 }
      host := { host := { ticks := [40000, 40000] } } }
    [.receive true, .receive true]

theorem process_pings_iff_patient :
    ∃ first second, patient = [first, second] ∧ first.before.session.txLimit = 0 ∧
      ¬first.OffersPing ∧ ¬second.OffersPing ∧ ¬Session.MustPing second.before := by
  have hcalls : patient.map (fun s => (s.call, s.result)) =
      [(.receive true, .ok (.progress .noData)), (.receive true, .ok (.progress .noData))] := by
    decide +kernel
  obtain ⟨first, _, hsteps, hfirst, hcalls⟩ := List.map_eq_cons_iff.mp hcalls
  obtain ⟨second, _, rfl, hsecond, hcalls⟩ := List.map_eq_cons_iff.mp hcalls
  cases List.map_eq_nil_iff.mp hcalls
  simp only [Prod.mk.injEq] at hfirst hsecond
  have hrun : IsRun patient := isRun_stepsFrom _ _
  rw [hsteps] at hrun
  have hcreate : first.before.session = .create 8 (.empty 0 0) .v311 { rxIdle := 0 } := by
    rw [before_stepsFrom hsteps]
  have hnew : ∀ s ∈ ([] ++ [first, second]).head?, ∃ capacity exchanges version settings,
      s.before.session = .create capacity exchanges version settings := by
    rintro s ⟨⟩
    exact ⟨8, .empty 0 0, .v311, _, hcreate⟩
  have hquiet : ∀ s ∈ [first, second], s.call = .receive true := by
    simp [hfirst.1, hsecond.1]
  obtain ⟨hpings, hsilent, hlimit⟩ := process_pings_iff
    (show IsRun ([] ++ [first, second]) from hrun) hnew hquiet
  have htx : first.before.session.txLimit = 0 := hlimit (by simp) first rfl
  have hoffers := hsilent (by rintro s ⟨⟩; exact ⟨htx, by rw [hcreate]; rfl⟩)
  exact ⟨first, second, hsteps, htx, hoffers first (by simp), hoffers second (by simp),
    mt (hpings second (by simp)).mpr (hoffers second (by simp))⟩

/-- A call of a client that has never been connected, with the settings that a client has by
default and half a minute after its clock was at zero. -/
def impatient : List (Step Scripted) :=
  stepsFrom
    { session := .create 8 (.empty 0 0) .v311 {}
      host := { host := { ticks := [30000] } } }
    [.receive true]

/-- It sends a PINGREQ. -/
theorem impatient_pings :
    ∃ s, impatient = [s] ∧ s.before.session.status = .notConnected ∧ s.call = .receive true ∧
      s.OffersPing ∧ written s.calls = Ping.request ∧ s.after.session.status = .notConnected := by
  have hcalls : impatient.map (fun s => (s.call, s.before.session.status,
      s.after.session.status)) = [(.receive true, .notConnected, .notConnected)] := by
    decide +kernel
  have hwrites : impatient.map (fun s => (firstOffer s.calls, written s.calls)) =
      [(some Ping.request, Ping.request)] := by decide +kernel
  obtain ⟨s, _, hsteps, hs, hcalls⟩ := List.map_eq_cons_iff.mp hcalls
  cases List.map_eq_nil_iff.mp hcalls
  simp only [hsteps, List.map_cons, List.map_nil, List.cons.injEq, Prod.mk.injEq] at hs hwrites
  exact ⟨s, hsteps, hs.2.1, hs.1, hwrites.1.1, hwrites.1.2, hs.2.2⟩

end MqttClient
