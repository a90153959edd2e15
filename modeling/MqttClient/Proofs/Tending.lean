import MqttClient.Proofs.Drafts
import MqttClient.Proofs.Pinging
import MqttClient.Proofs.Stamping

/-!
# How a call sees to keep-alive

A call that sees to keep-alive sends a PINGREQ if one is due, before it handles anything, and then
looks at the network buffer (`Session.Arrives`, `Session.Heeds`). Sending a PINGREQ only fails where
the transport refuses it, since a PINGREQ is one span (`Session.send_error`). Both together say what
becomes of the wait for a PINGRESP and of the times that keep-alive looks at.
-/
namespace MqttClient
variable {ω : Type}

/-! ## Refusals -/

/-- A call of the transport is accepted: a write takes at least the first of its spans that holds a
byte, and a flush succeeds. -/
def HostCall.IsAccepted : HostCall → Prop
  | write spans answer => ∃ count ∈ answer, ∀ span ∈ firstSpan? spans, span.length ≤ count
  | flush succeeded => succeeded = true
  | _ => True

instance : DecidablePred HostCall.IsAccepted
  | .write spans answer =>
    inferInstanceAs (Decidable (∃ count ∈ answer, ∀ span ∈ firstSpan? spans, span.length ≤ count))
  | .flush succeeded => inferInstanceAs (Decidable (succeeded = true))
  | .read _ _ | .now _ | .enter | .exit | .tracking | .notify _ => isTrue trivial

/-- From one scene to the other the transport has refused something. -/
def Refused (σ τ : Scene (Watched ω)) : Prop :=
  ∃ calls, τ.host.calls = calls ++ σ.host.calls ∧ ∃ c ∈ calls, ¬c.IsAccepted

namespace Refused
variable {σ υ τ : Scene (Watched ω)}

theorem of_call {c : HostCall} (hcalls : τ.host.calls = c :: σ.host.calls) (hc : ¬c.IsAccepted) :
    Refused σ τ := ⟨[c], hcalls, c, by simp, hc⟩

theorem before (h : Refused σ υ) (hlater : Makes (fun _ => True) υ τ) : Refused σ τ := by
  obtain ⟨calls, hcalls, c, hc, hrefused⟩ := h
  obtain ⟨later, hlater, -⟩ := hlater
  exact ⟨later ++ calls, by rw [hlater, hcalls, List.append_assoc], c,
    List.mem_append_right later hc, hrefused⟩

theorem after (hearlier : Makes (fun _ => True) σ υ) (h : Refused υ τ) : Refused σ τ := by
  obtain ⟨earlier, hearlier, -⟩ := hearlier
  obtain ⟨calls, hcalls, c, hc, hrefused⟩ := h
  exact ⟨calls ++ earlier, by rw [hcalls, hearlier, List.append_assoc], c,
    List.mem_append_left earlier hc, hrefused⟩

end Refused

variable [Host ω] {σ υ τ : Scene (Watched ω)}

namespace Session

/-- Whatever calls are made while receiving. -/
theorem listens_makes : Listens (Makes (ω := ω) fun _ => True) where
  toInward := inward_makes (fun _ _ => trivial) fun _ => trivial
  toOutward := outward_makes (fun _ _ => trivial) trivial fun _ => trivial
  grow _ := .makes_change
  wait := .makes_change
  answer := .makes_change
  consume _ := .makes_change
  stamp _ := .makes_change

/-- A span that is offered alone is taken at once, or refused. -/
theorem offer_error {n : ℕ} {start : UInt32} {b : Bytes} {fault : Fault} (hne : b ≠ [])
    (h : (offer n start b.length [b]).runOn σ = some (.error fault, τ)) : Refused σ τ := by
  have hleft : b.length ≠ 0 := mt List.length_eq_zero_iff.mp hne
  cases n with
  | zero =>
    rw [offer.eq_def, if_neg hleft] at h
    cases h
  | succ n =>
    have hb : [b].dropWhile List.isEmpty = [b] := by simp [hne]
    obtain ⟨_, rfl, -, hround⟩ := runOn_offer_succ n start [b] hleft σ
    rw [hround, hb] at h
    by_cases haccepted : (HostCall.write [b] (Host.write [b] (Host.enter σ.host)).1).IsAccepted
    · obtain ⟨count, hanswer, hcount⟩ := haccepted
      rw [hanswer, runOn_goOn_all (hcount b (by simp [firstSpan?, hne]))] at h
      cases h
    · have hrefused : Refused σ
          ⟨σ.session, Host.exit (Host.write [b] (Host.enter σ.host)).2⟩ :=
        ⟨[.exit, .write [b] (Host.write [b] (Host.enter σ.host)).1, .enter], rfl, _, by simp,
          haccepted⟩
      exact hrefused.before (goOn_makes (fun _ _ => trivial) n start _ [b] _ _ _ τ h)

/-- A packet in one span is sent, or refused. -/
theorem send_error {b : Bytes} {fault : Fault} (hne : b ≠ [])
    (h : (send [b]).runOn σ = some (.error fault, τ)) : Refused σ τ := by
  have hsize : Spans.size [b] = b.length := by simp [Spans.size]
  have hclock : Makes (fun _ => True) σ { σ with host := (Host.now σ.host).2 } :=
    .of_call (Watched.calls_now σ.host) trivial
  simp only [send, hsize] at h
  rw [Act.runOn_bind_of_ok (Act.runOn_now _), Act.runOn_bind_of_ok (Act.runOn_get _)] at h
  rcases Act.runOn_bind_inv h with ⟨fault, hoffer, -⟩ | ⟨_, υ, hoffer, h⟩
  · exact (offer_error hne hoffer).after hclock
  have hearlier : Makes (fun _ => True) σ υ :=
    hclock.trans (offer_makes (fun _ _ => trivial) _ _ _ _ _ _ _ hoffer)
  rw [Act.runOn_bind_of_ok (Act.runOn_host _ _)] at h
  cases hflush : (Host.flush υ.host).1 with
  | false =>
    rw [hflush] at h
    cases h
    refine .after hearlier (.of_call (Watched.calls_flush υ.host) ?_)
    rw [show (Host.flush υ.host.host).1 = false from hflush]
    exact Bool.false_ne_true
  | true =>
    rw [hflush] at h
    cases h

/-! ## Before a packet is handled -/

/-- A call finds nothing to read. -/
def FindsNothing (σ : Scene (Watched ω)) : Prop :=
  ∃ count arrived, (firstAnswer σ).1 = some (count, arrived) ∧
    min count (σ.session.capacity - σ.session.filled) = 0

theorem mustPing_iff (hquiet : FindsNothing σ) :
    MustPing σ ↔ σ.session.PingDue (Host.now (firstAnswer σ).2).1 :=
  ⟨fun hmust => hmust.due, fun hdue => ⟨hquiet, hdue⟩⟩

theorem givesUp_iff (hquiet : FindsNothing σ) :
    GivesUp σ ↔ σ.session.Overdue (Host.now (firstAnswer σ).2).1 :=
  ⟨fun hgives => hgives.overdue, fun hoverdue => ⟨hquiet, hoverdue⟩⟩

/-- A call that sees to keep-alive reads first, and then looks at the clock if it finds nothing. -/
theorem receive_starts {r : Except Fault Progress} (h : (receive true).runOn σ = some (r, τ)) :
    ∃ later, τ.host.calls = later ++ (fetch σ).host.calls ∧
      (FindsNothing σ → ∃ rest, later = rest ++ [.now (Host.now (firstAnswer σ).2).1]) := by
  have hrest : Act.Keeps (Makes (ω := ω) fun _ => True) (handleBuffered true) :=
    listens_makes.handleBuffered true .makes_change
  by_cases hquiet : FindsNothing σ
  · obtain ⟨count, arrived, hanswer, hnothing⟩ := hquiet
    have hclock : (keepAliveDuty >>= fun _ => handleBuffered true).runOn (fetch σ) =
        some (r, τ) := by
      rw [← h, receive_eq, Act.runOn_bind, Act.runOn_bind, arrive_some hanswer,
        if_pos ⟨hnothing, rfl⟩]
    rw [keepAliveDuty, bind_assoc, Act.runOn_bind_of_ok (Act.runOn_now _)] at hclock
    obtain ⟨rest, hcalls, -⟩ : Makes (fun _ => True) _ τ := by
      refine ((Act.Keeps.session.bind fun s => ?_).bind fun _ => hrest) _ r τ hclock
      split
      · exact .pure _
      · exact listens_makes.ping
      · exact .throw _
    exact ⟨rest ++ [.now (Host.now (firstAnswer σ).2).1], by rw [hcalls, List.append_assoc]; rfl,
      fun _ => ⟨rest, rfl⟩⟩
  · rw [receive_eq] at h
    have hfetch : Makes (fun _ => True) (fetch σ) τ := by
      cases hanswer : (firstAnswer σ).1 with
      | none =>
        rw [Act.runOn_bind_of_error (arrive_none hanswer)] at h
        cases h
        exact .refl _
      | some answer =>
        have harrive : (arrive true).runOn σ = _ := arrive_some hanswer
        rw [if_neg fun hnothing => hquiet ⟨answer.1, answer.2, hanswer, hnothing.1⟩] at harrive
        rw [Act.runOn_bind_of_ok harrive] at h
        exact hrest _ r τ h
    obtain ⟨later, hlater, -⟩ := hfetch
    exact ⟨later, hlater, fun hnothing => absurd hnothing hquiet⟩

/-- What comes of a call before it handles a packet. -/
inductive Arrives (σ : Scene (Watched ω)) (r : Except Fault Unit) (υ : Scene (Watched ω)) :
    Prop where
  /-- No PINGREQ is to be sent. -/
  | rests {calls : List HostCall} (rests : ¬MustPing σ)
      (made : υ.host.calls = calls ++ σ.host.calls)
      (mute : ∀ c ∈ calls, ¬c.IsWrite ∧ c ≠ .flush true)
      (session_eq : υ.session = (fetch σ).session)
  /-- One is sent. The calls end with a flush and a look at the clock. -/
  | pings {t : UInt32} {before : List HostCall} (must : MustPing σ)
      (made : υ.host.calls = (.now t :: .flush true :: before) ++ σ.host.calls)
      (unflushed : ∀ c ∈ before, c ≠ .flush true) (sent : written before = Ping.request)
      (session_eq : υ.session = (fetch σ).session.pinged t)
  /-- One is to be sent, but the transport refuses it. -/
  | fails (must : MustPing σ) (result : r = .error .sendFailed) (refused : Refused σ υ)

theorem ping_trace {r : Except Fault Unit} (h : ping.runOn σ = some (r, τ)) :
    (∃ t before, τ.host.calls = (.now t :: .flush true :: before) ++ σ.host.calls ∧
        (∀ c ∈ before, c ≠ .flush true) ∧ written before = Ping.request ∧
        τ.session = σ.session.pinged t) ∨
      r = .error .sendFailed ∧ Refused σ τ := by
  rw [ping] at h
  rcases Act.runOn_bind_inv h with ⟨fault, hsend, rfl⟩ | ⟨_, υ, hsend, h⟩
  · obtain ⟨-, -, ⟨-, -, -, hr, -⟩ | ⟨hr, -⟩⟩ := send_trace hsend
    · cases hr
    · cases hr
      exact .inr ⟨rfl, send_error (by decide) hsend⟩
  · cases h
    left
    obtain ⟨calls, hcalls, ⟨t, before, rfl, -, hbefore, hsession⟩ | ⟨hr, -⟩⟩ := send_trace hsend
    · obtain ⟨k, calls', hcalls', hsent, -, ⟨-, hk, -⟩ | ⟨hr, -⟩⟩ := send_inv hsend
      · have hsame := List.append_cancel_right (hcalls'.symm.trans hcalls)
        have hwritten := hsent.taken
        rw [hsame, hk, List.take_length, written_cons, written_cons] at hwritten
        exact ⟨t, before, hcalls, hbefore, by simpa [HostCall.taken] using hwritten, by
          simp only [hsession]
          rfl⟩
      · cases hr
    · cases hr

theorem arrive_arrives {r : Except Fault Unit} (h : (arrive true).runOn σ = some (r, υ)) :
    Arrives σ r υ := by
  obtain ⟨reads, hread, hreads⟩ : ∃ reads, (fetch σ).host.calls = reads ++ σ.host.calls ∧
      ∀ c ∈ reads, ¬c.IsWrite ∧ c ≠ .flush true :=
    ⟨[.read _ _], rfl, by simp [HostCall.IsWrite]⟩
  cases hanswer : (firstAnswer σ).1 with
  | none =>
    rw [arrive_none hanswer] at h
    cases h
    exact .rests (not_mustPing_of_none hanswer) hread hreads rfl
  | some answer =>
    obtain ⟨count, arrived⟩ := answer
    rw [arrive_some hanswer] at h
    split at h
    · obtain ⟨hquiet, -⟩ := ‹_ ∧ true = true›
      have hdue := (mustPing_iff_duty hanswer).trans (and_iff_right hquiet)
      obtain ⟨looks, hclock, hlooks⟩ : ∃ looks,
          (Host.now (fetch σ).host).2.calls = looks ++ σ.host.calls ∧
            ∀ c ∈ looks, ¬c.IsWrite ∧ c ≠ .flush true :=
        ⟨[.now _, .read _ _], rfl, by simp [HostCall.IsWrite]⟩
      rw [keepAliveDuty, Act.runOn_bind_of_ok (Act.runOn_now _),
        Act.runOn_bind_of_ok (Act.runOn_session _)] at h
      split at h
      · rename_i hduty
        cases h
        exact .rests (by simp [hdue, hduty]) hclock hlooks rfl
      · rename_i hduty
        rcases ping_trace h with ⟨t, before, hcalls, hbefore, hsent, hsession⟩ | ⟨rfl, hrefused⟩
        · have hmade : υ.host.calls =
              (.now t :: .flush true :: (before ++ looks)) ++ σ.host.calls := by
            rw [hcalls, hclock]
            simp
          refine .pings (hdue.mpr hduty) hmade ?_ ?_ hsession
          · exact List.forall_mem_append.mpr ⟨hbefore, fun c hc => (hlooks c hc).2⟩
          · rw [written_append, hsent, written_eq_nil fun c hc => (hlooks c hc).1, List.nil_append]
        · exact .fails (hdue.mpr hduty) rfl (hrefused.after ⟨_, hclock, fun _ _ => trivial⟩)
      · rename_i hduty
        cases h
        exact .rests (by simp [hdue, hduty]) hclock hlooks rfl
    · rename_i hcase
      cases h
      exact .rests (fun hmust => hcase ⟨((mustPing_iff_duty hanswer).mp hmust).1, rfl⟩)
        hread hreads rfl

/-! ## Handling a packet -/

/-- Of the packets that may be handled, a PINGRESP alone has to do with the wait for one. -/
theorem awaitsPingresp_of_dispatch_iff {packet : Packet} {r : Except Fault Unit}
    (h : (dispatch true packet).runOn σ = some (r, τ)) :
    τ.session.awaitsPingresp = true ↔ σ.session.awaitsPingresp = true ∧
      ¬(r = .ok () ∧ kindBits packet.firstByte = PacketType.pingresp.firstByte) := by
  rw [← PacketType.ofFirstByte?_eq_pingresp_iff]
  by_cases hkind : PacketType.ofFirstByte? packet.firstByte = some .pingresp
  · rw [dispatch, hkind] at h
    simp only [handlePingresp] at h
    cases hcheck : Ping.checkResponse packet with
    | error fault =>
      rw [hcheck] at h
      cases h
      simp
    | ok u =>
      rw [hcheck] at h
      cases h
      simp [hkind]
  · have hsame : Outward (Same (ω := Watched ω) awaitsPingresp) := outward_same fun _ _ _ => rfl
    have hanswering := hsame.answering
    have hdisconnect : Act.Keeps (Same awaitsPingresp)
        (handleDisconnect packet : Act (Watched ω) Unit) :=
      (Act.Keeps.ofResult _).bind fun _ => (hanswering.report _).bind fun _ => .change fun _ => rfl
    have hkept : Act.Keeps (Same awaitsPingresp)
        (dispatch true packet : Act (Watched ω) Unit) := by
      rw [dispatch]
      split
      · exact hanswering.handlePublish packet
      · exact hanswering.handleAck packet _
      · exact hanswering.handleAck packet _
      · exact hanswering.handleAck packet _
      · exact hanswering.handleAck packet _
      · exact absurd ‹_› hkind
      · exact hanswering.handleSuback packet
      · exact hanswering.handleSuback packet
      · exact Act.Keeps.session.bind fun _ => .ite hdisconnect (.throw _)
      · exact .throw _
    rw [show τ.session.awaitsPingresp = _ from hkept σ r τ h]
    simp [hkind]

/-- A look at the network buffer comes to a packet only by handling it. -/
theorem handleBuffered_handles {managed : Bool} {r : Except Fault Progress}
    (h : (handleBuffered managed).runOn σ = some (r, τ)) :
    (∃ header, (handleFront managed header).runOn σ = some (r, τ)) ∨
      (∀ b, r ≠ .ok (.packet b)) ∧
        (τ = σ ∨ ∃ n r', (discard n).runOn σ = some (r', τ)) := by
  rw [handleBuffered, Act.runOn_bind_of_ok (Act.runOn_session _)] at h
  split at h
  · cases h
    exact .inr ⟨by simp, .inl rfl⟩
  split at h
  · cases h
    exact .inr ⟨by simp, .inl rfl⟩
  · cases h
    exact .inr ⟨by simp, .inl rfl⟩
  split at h
  · rcases Act.runOn_bind_inv h with ⟨fault, hdiscard, rfl⟩ | ⟨_, υ, hdiscard, h⟩
    · exact .inr ⟨by simp, .inr ⟨_, _, hdiscard⟩⟩
    · cases h
      exact .inr ⟨by simp, .inr ⟨_, _, hdiscard⟩⟩
  split at h
  · cases h
    exact .inr ⟨by simp, .inl rfl⟩
  · exact .inl ⟨_, h⟩

/-- Whether a look at the stream has come to a PINGRESP that was handled. -/
def HandledPingresp (r : Except Fault Progress) : Prop :=
  ∃ b, r = .ok (.packet b) ∧ kindBits b = PacketType.pingresp.firstByte

/-- What a look at the network buffer does to what keep-alive goes by. -/
structure Heeds (σ : Scene (Watched ω)) (r : Except Fault Progress) (τ : Scene (Watched ω)) :
    Prop where
  pingSentAt_eq : τ.session.pingSentAt = σ.session.pingSentAt
  awaits_iff : τ.session.awaitsPingresp = true ↔
    σ.session.awaitsPingresp = true ∧ ¬HandledPingresp r
  /-- The clock is read last when a packet has been handled. -/
  heard : ∀ b, r = .ok (.packet b) → ∃ t earlier,
    τ.host.calls = (.now t :: earlier) ++ σ.host.calls ∧ τ.session.lastRx = t
  unheard : (∀ b, r ≠ .ok (.packet b)) → τ.session.lastRx = σ.session.lastRx

theorem dispatch_pingSentAt (managed : Bool) (packet : Packet) :
    Act.Keeps (Same fun s => (s.pingSentAt, s.lastRx))
      (dispatch managed packet : Act (Watched ω) Unit) :=
  (outward_same fun _ _ _ => rfl).answering.dispatch managed packet (.change fun _ => rfl)
    fun _ => .change fun _ => rfl

theorem handleFront_heeds {header : Header} {r : Except Fault Progress}
    (h : (handleFront true header).runOn σ = some (r, τ)) : Heeds σ r τ := by
  rcases handleFront_inv h with ⟨υ, hdispatch, rfl, -⟩ | ⟨fault, υ, hdispatch, rfl, -⟩
  · rw [handleFront_ok hdispatch] at h
    cases h
    have hawaits := awaitsPingresp_of_dispatch_iff hdispatch
    obtain ⟨earlier, hearlier, -⟩ := listens_makes.answering.dispatch true _ listens_makes.answer
      (fun _ => .makes_change) σ _ υ hdispatch
    refine ⟨(Prod.mk.inj (dispatch_pingSentAt _ _ σ _ υ hdispatch)).1, ?_, ?_, ?_⟩
    · rw [show (σ.session.frontPacket header).firstByte = header.firstByte from rfl] at hawaits
      exact hawaits.trans (by simp [HandledPingresp])
    · exact fun _ _ => ⟨_, earlier, by rw [Watched.calls_now, hearlier]; rfl, rfl⟩
    · exact fun hnone => absurd rfl (hnone _)
  · rw [handleFront_error hdispatch] at h
    cases h
    obtain ⟨hping, hheard⟩ := Prod.mk.inj (dispatch_pingSentAt _ _ σ _ υ hdispatch)
    have hawaits := awaitsPingresp_of_dispatch_iff hdispatch
    exact ⟨hping, hawaits.trans (by simp [HandledPingresp]), nofun, fun _ => hheard⟩

theorem handleBuffered_heeds {r : Except Fault Progress}
    (h : (handleBuffered true).runOn σ = some (r, τ)) : Heeds σ r τ := by
  rcases handleBuffered_handles h with ⟨header, hfront⟩ | ⟨hnone, hbuffer⟩
  · exact handleFront_heeds hfront
  have hkept : (τ.session.pingSentAt, τ.session.awaitsPingresp, τ.session.lastRx) =
      (σ.session.pingSentAt, σ.session.awaitsPingresp, σ.session.lastRx) := by
    rcases hbuffer with rfl | ⟨n, r', hdiscard⟩
    · rfl
    · exact (inward_same (f := fun s => (s.pingSentAt, s.awaitsPingresp, s.lastRx))
        fun _ _ _ _ => rfl).discard n σ r' τ hdiscard
  obtain ⟨hping, hrest⟩ := Prod.mk.inj hkept
  obtain ⟨hawaits, hheard⟩ := Prod.mk.inj hrest
  refine ⟨hping, ?_, fun b hr => absurd hr (hnone b), fun _ => hheard⟩
  have hunhandled : ¬HandledPingresp r := fun ⟨b, hr, _⟩ => hnone b hr
  simp [hawaits, hunhandled]

end Session

end MqttClient
