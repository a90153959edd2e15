import MqttClient.Proofs.Alternating

/-!
# Calls that find something to read

Keep-alive is only seen to where a read yields nothing. A call whose read yields bytes goes straight
on to the network buffer (`Session.receive_of_busy`) and sends at most the acknowledgement of the
packet that it handles. Where that is a message with QoS 0 it sends nothing, and what keep-alive
goes by stays as it was (`Session.receive_unanswered`). So a client with nothing else to read is
silent for as long as there is something to read, and pings as soon as there is not.
-/
namespace MqttClient
variable {ω : Type} [Host ω] {σ τ : Scene (Watched ω)}

namespace Session

/-! ## Messages that are not acknowledged -/

section
variable {R : Scene (Watched ω) → Scene (Watched ω) → Prop} [IsPreorder (Scene (Watched ω)) R]

/-- A message with QoS 0 is reported, and that is all. -/
theorem handlePublish_unanswered (hreport : ∀ event, Act.Keeps R (report event)) {packet : Packet}
    (hqos : Message.qosOfFlags packet.firstByte = some .atMostOnce) :
    Act.Keeps R (handlePublish packet) := by
  refine Act.Keeps.session.bind fun s => ?_
  cases hdecode : Message.decode s.version s.negotiated packet with
  | error fault => exact .throw_bind fault _
  | ok found =>
    obtain ⟨id, message⟩ := found
    obtain ⟨hflags, -⟩ := Message.decode_eq_ok.mp hdecode
    have hmessage : message.qos = .atMostOnce :=
      Option.some.inj ((((Message.flags_eq_iff _).mp hflags).1).symm.trans hqos)
    have hreported : Act.Keeps R (do
        report { packet, packetId := id, message := some message, properties := message.properties }
        sendAck id .complete) := by
      rw [sendAck_of_none rfl]
      exact (hreport _).bind fun _ => .pure _
    intro σ r τ hrun
    simp only [Act.ofResult, hmessage, openIncoming, pure_bind, if_true] at hrun
    exact hreported σ r τ hrun

/-- The read with which a call begins takes bytes in and nothing else. -/
theorem fetch_of_inward (h : Inward R)
    (hgrow : ∀ n, Act.Keeps R (Act.change fun s => { s with filled := s.filled + n }))
    (σ : Scene (Watched ω)) : R σ (fetch σ) := by
  have harrive : Act.Keeps R (arrive false) := by
    rw [arrive]
    simp only [Bool.false_eq_true, and_false, if_false]
    exact Act.Keeps.session.bind fun _ => (h.read _ _).bind fun _ => (hgrow _).bind fun _ => .pure _
  cases hanswer : (firstAnswer σ).1 with
  | none => exact harrive σ _ _ (arrive_none hanswer)
  | some answer =>
    refine harrive σ (.ok ()) _ ?_
    rw [arrive_some hanswer]
    exact if_neg fun hquiet => Bool.false_ne_true hquiet.2

/-- A call that succeeds and has read bytes has gone straight on to the network buffer. -/
theorem receive_of_busy {p : Progress} (h : (receive true).runOn σ = some (.ok p, τ))
    (hbusy : ¬FindsNothing σ) : (handleBuffered true).runOn (fetch σ) = some (.ok p, τ) := by
  rw [receive_eq] at h
  cases hanswer : (firstAnswer σ).1 with
  | none =>
    rw [Act.runOn_bind_of_error (arrive_none hanswer)] at h
    cases h
  | some answer =>
    have harrive : (arrive true).runOn σ = _ := arrive_some hanswer
    rw [if_neg fun hquiet => hbusy ⟨_, _, hanswer, hquiet.1⟩] at harrive
    rwa [Act.runOn_bind_of_ok harrive] at h

/-- Whether a look at the stream has come to no packet but a PUBLISH with QoS 0. -/
def HeardUnanswered (p : Progress) : Prop :=
  ∀ b, p = .packet b → PacketType.ofFirstByte? b = some .publish ∧
    Message.qosOfFlags b = some .atMostOnce

/-- A call that succeeds, has read bytes and handles no packet but a message with QoS 0 takes bytes
in, and reports at most. -/
theorem receive_unanswered (h : Inward R) (hreport : ∀ event, Act.Keeps R (report event))
    (hgrow : ∀ n, Act.Keeps R (Act.change fun s => { s with filled := s.filled + n }))
    (hconsume : ∀ n, Act.Keeps R (Act.change (consume n)))
    (hstamp : ∀ t, Act.Keeps R (Act.change fun s => { s with lastRx := t })) {p : Progress}
    (hrun : (receive true).runOn σ = some (.ok p, τ)) (hbusy : ¬FindsNothing σ)
    (hheard : HeardUnanswered p) : R σ τ := by
  have hfetch := fetch_of_inward h hgrow σ
  rcases handleBuffered_handles (receive_of_busy hrun hbusy) with
    ⟨header, hfront⟩ | ⟨-, rfl | ⟨n, r', hdiscard⟩⟩
  · rcases handleFront_inv hfront with ⟨υ, hdispatch, hp, -⟩ | ⟨fault, υ, -, hr, -⟩
    · obtain ⟨hpublish, hqos⟩ := hheard header.firstByte (Except.ok.inj hp)
      have hhandled : Act.Keeps R (dispatch true ((fetch σ).session.frontPacket header)) := by
        have hkind : PacketType.ofFirstByte?
            ((fetch σ).session.frontPacket header).firstByte = some .publish := hpublish
        rw [dispatch, hkind]
        exact handlePublish_unanswered hreport hqos
      have hends : Act.Keeps R (do
          Act.change (consume header.total)
          let now ← Act.now
          Act.change fun s => { s with lastRx := now }) :=
        (hconsume _).bind fun _ => h.now.bind fun _ => hstamp _
      rw [handleFront_ok hdispatch] at hfront
      cases hfront
      exact trans_of R (trans_of R hfetch (hhandled _ _ _ hdispatch)) (hends υ (.ok ()) _ rfl)
    · cases hr
  · exact hfetch
  · exact trans_of R hfetch (h.discard n _ _ _ hdiscard)

end

/-- The read with which a call begins writes nothing. -/
theorem fetch_mute (σ : Scene (Watched ω)) : Mute σ (fetch σ) :=
  fetch_of_inward inward_mute (fun _ => .makes_change) σ

/-- What the decision to ping looks at besides the time: the limits of silence, when a packet was
last sent, and whether a PINGREQ is unanswered. -/
def standing (s : Session) : (UInt16 × Settings) × UInt32 × Bool :=
  (s.pace, s.lastTx, s.awaitsPingresp)

theorem receive_standing {p : Progress} (hrun : (receive true).runOn σ = some (.ok p, τ))
    (hbusy : ¬FindsNothing σ) (hheard : HeardUnanswered p) :
    Mute σ τ ∧ τ.session.standing = σ.session.standing :=
  ⟨receive_unanswered inward_mute report_mute (fun _ => .makes_change) (fun _ => .makes_change)
      (fun _ => .makes_change) hrun hbusy hheard,
    receive_unanswered (R := Same standing) (inward_same fun _ _ _ _ => rfl)
      (fun _ => .hostDo fun _ => rfl) (fun _ => .change fun _ => rfl)
      (fun _ => .change fun _ => rfl) (fun _ => .change fun _ => rfl) hrun hbusy hheard⟩

/-- A keep-alive and a setting that are not zero give a limit that is not zero. -/
theorem txLimit_ne_zero {s : Session} (hkeepAlive : s.keepAlive ≠ 0)
    (hidle : s.settings.txIdle ≠ 0) : s.txLimit ≠ 0 := by
  have hseconds : UInt32.ofNat (s.keepAlive.toNat * 1000) ≠ 0 := by
    intro hzero
    have hpos : s.keepAlive.toNat ≠ 0 := fun hnone => hkeepAlive (UInt16.toNat_inj.mp hnone)
    have hbound : s.keepAlive.toNat * 1000 < UInt32.size := by
      have hlt : s.keepAlive.toNat < 65536 := s.keepAlive.toNat_lt
      simp only [UInt32.size]
      omega
    have hvalue : s.keepAlive.toNat * 1000 = 0 := by
      rw [← UInt32.toNat_ofNat_of_lt' hbound, hzero]
      rfl
    omega
  change (if _ ≤ _ then _ else _) ≠ (0 : UInt32)
  split
  · exact hseconds
  · exact hidle

end Session

/-! ## Steps -/

namespace Step
variable {s : Step ω}

/-- A step that sees to keep-alive, succeeds, and has read bytes. -/
structure IsBusy (s : Step ω) : Prop where
  call_eq : s.call = .receive true
  result_eq : ∃ p, s.result = .ok (.progress p)
  reads : ∃ later asked count arrived,
    s.calls = later ++ [.read asked (some (count, arrived))] ∧ min count asked ≠ 0

/-- A step handles no packet but a PUBLISH with QoS 0. -/
def HearsUnanswered (s : Step ω) : Prop :=
  ∀ p, s.result = .ok (.progress p) → Session.HeardUnanswered p

theorem IsBusy.receives (h : s.IsBusy) : ∃ p, s.result = .ok (.progress p) ∧
    (Session.receive true).runOn s.before = some (.ok p, s.after) ∧
      ¬Session.FindsNothing s.before := by
  obtain ⟨hcall, ⟨p, hp⟩, later', asked, count, arrived, hcalls', hread⟩ := h
  obtain ⟨r, hreceive, hresult⟩ := s.receives_map hcall
  obtain ⟨later, hcalls, -⟩ := calls_of_receive hcall
  obtain ⟨-, hsame⟩ := List.append_inj' (hcalls'.symm.trans hcalls) rfl
  obtain ⟨rfl, hanswer⟩ : asked = s.before.session.capacity - s.before.session.filled ∧
      some (count, arrived) = (Session.firstAnswer s.before).1 := by simpa using hsame
  refine ⟨p, hp, ?_, ?_⟩
  · rcases r with fault | p' <;> cases hp.symm.trans hresult
    exact hreceive
  · rintro ⟨count', arrived', hanswer', hnothing⟩
    cases hanswer.trans hanswer'
    exact hread hnothing

/-- A busy step sends no packet, or one acknowledgement. -/
theorem IsBusy.writes (h : s.IsBusy) : ∃ frames : List Frame,
    Session.AtMostAck (frames.map Frame.firstByte) ∧
      written s.calls = frames.flatMap Frame.bytes := by
  obtain ⟨p, -, hreceive, hread⟩ := h.receives
  obtain ⟨reads, hreads, hmute⟩ := Session.fetch_mute s.before
  obtain ⟨later, hlater, hsends⟩ := Session.handleBuffered_emits true _ _ _
    (Session.receive_of_busy hreceive hread)
  obtain ⟨frames, hwritten, hkinds⟩ := hsends nofun
  have hcalls : s.calls = later ++ reads :=
    s.calls_eq (by rw [hlater, hreads, List.append_assoc])
  refine ⟨frames, hkinds.resolve_right (fun hfails => nomatch hfails.2), ?_⟩
  rw [hcalls, written_append, written_eq_nil hmute, hwritten, List.nil_append]

/-- If it handles no packet but a message with QoS 0 it sends none, and leaves alone what keep-alive
goes by. -/
theorem IsBusy.silent (h : s.IsBusy) (hheard : s.HearsUnanswered) :
    written s.calls = [] ∧ s.after.session.standing = s.before.session.standing := by
  obtain ⟨p, hp, hreceive, hread⟩ := h.receives
  obtain ⟨⟨calls, hcalls, hmute⟩, hstanding⟩ :=
    Session.receive_standing hreceive hread (hheard p hp)
  exact ⟨by rw [s.calls_eq hcalls, written_eq_nil hmute], hstanding⟩

/-- A quiet step that succeeds begins with a PINGREQ just when one is due. -/
theorem IsQuiet.pings_iff (h : s.IsQuiet) (hok : ∀ fault, s.result ≠ .error fault) :
    Ping.request <+: written s.calls ↔ s.before.session.PingDue s.askedAt := by
  have htends := tends_of_process h.1 (.inr (hok _))
  rw [← htends.due h]
  refine ⟨fun hfirst => ⟨[], hfirst⟩, ?_⟩
  rintro ⟨frames, hholds⟩
  cases htends.first frames hholds
  exact hholds

end Step

/-! ## Runs -/

theorem standing_of_isRun {busy : List (Step ω)} {last : Step ω} (hrun : IsRun (busy ++ [last]))
    (hbusy : ∀ s ∈ busy, s.IsBusy ∧ s.HearsUnanswered) : ∀ first ∈ (busy ++ [last]).head?,
      last.before.session.standing = first.before.session.standing := by
  induction busy with
  | nil =>
    rintro first ⟨⟩
    rfl
  | cons first rest ih =>
    obtain ⟨hfollows, hrest⟩ := List.isChain_cons.mp hrun
    obtain ⟨⟨hfirst, hheard⟩, hothers⟩ := List.forall_mem_cons.mp hbusy
    obtain ⟨next, hnext⟩ : ∃ next, next ∈ (rest ++ [last]).head? := by
      cases rest <;> exact ⟨_, rfl⟩
    rintro first ⟨⟩
    rw [ih hrest hothers next hnext, hfollows next hnext, (hfirst.silent hheard).2]

/-- **When the keep-alive is kept.** A call that has read bytes and succeeds goes straight on to the
network buffer and sends at most one acknowledgement, none if all it handles is a message with
QoS 0. After a stretch of calls of the last kind, or none, a call that finds nothing to read and
succeeds sends a PINGREQ first if by then the client has been silent up to its limit, unless one is
unanswered. -/
theorem run_keeps_alive {steps : List (Step ω)} (hrun : IsRun steps) :
    (∀ s ∈ steps, s.IsBusy →
      (∃ p, s.result = .ok (.progress p) ∧
        (Session.handleBuffered true).runOn (Session.fetch s.before) = some (.ok p, s.after)) ∧
      (∃ frames : List Frame, Session.AtMostAck (frames.map Frame.firstByte) ∧
        written s.calls = frames.flatMap Frame.bytes) ∧
      (s.HearsUnanswered → written s.calls = [])) ∧
    ∀ earlier busy last later, steps = earlier ++ busy ++ last :: later →
      (∀ s ∈ busy, s.IsBusy ∧ s.HearsUnanswered) → last.IsQuiet →
        (∀ fault, last.result ≠ .error fault) →
          ∀ first ∈ (busy ++ [last]).head?, first.before.session.keepAlive ≠ 0 →
            first.before.session.settings.txIdle ≠ 0 →
              first.before.session.awaitsPingresp = false →
                first.before.session.txLimit ≤ last.askedAt - first.before.session.lastTx →
                  Ping.request <+: written last.calls := by
  refine ⟨fun s _ hs => ?_, ?_⟩
  · obtain ⟨p, hp, hreceive, hread⟩ := hs.receives
    exact ⟨⟨p, hp, Session.receive_of_busy hreceive hread⟩, hs.writes, fun hheard =>
      (hs.silent hheard).1⟩
  · rintro earlier busy last later rfl hbusy hquiet hok first hfirst hkeepAlive hidle hcalm hdue
    have hpart : IsRun (busy ++ [last]) := List.IsChain.infix hrun ⟨earlier, later, by simp⟩
    have hstanding := standing_of_isRun hpart hbusy first hfirst
    obtain ⟨hpace, hstanding⟩ := Prod.mk.inj hstanding
    obtain ⟨hlast, hawaits⟩ := Prod.mk.inj hstanding
    obtain ⟨hlimit, -⟩ := Session.limits_of_pace hpace
    rw [hquiet.pings_iff hok]
    refine ⟨hawaits.trans hcalm, .inl ⟨?_, ?_⟩⟩
    · rw [hlimit]
      exact Session.txLimit_ne_zero hkeepAlive hidle
    · rw [hlimit, hlast]
      exact hdue

/-- A client with a keep-alive of a second reads a message with QoS 0 two seconds later, and then
finds nothing to read. -/
def overhearing : List (Step Scripted) :=
  stepsAmid
    { session := .create 64 (.empty 1 1) .v311 {}
      host := { host := { incoming := [0x20, 2, 0, 0] } } }
    [(id, .connect { clientId := "c", keepAlive := 1 } 1000),
      (fun h => { h.wait 2000 with incoming := [0x30, 3, 0, 1, 97] }, .receive true),
      (id, .receive true)]

/-- The message leaves it silent, and the next call sends a PINGREQ. -/
theorem run_keeps_alive_overhearing :
    ∃ opening message quiet, overhearing = [opening, message, quiet] ∧ message.IsBusy ∧
      message.HearsUnanswered ∧ quiet.IsQuiet ∧ written message.calls = [] ∧
        Ping.request <+: written quiet.calls := by
  have hcalls : overhearing.map (fun s => (s.call, s.result, s.calls.getLast?)) =
      [(.connect { clientId := "c", keepAlive := 1 } 1000, .ok (.session false), some (.now 1)),
        (.receive true, .ok (.progress (.packet 0x30)),
          some (.read 64 (some (5, [0x30, 3, 0, 1, 97])))),
        (.receive true, .ok (.progress .noData), some (.read 64 (some (0, []))))] := by
    decide +kernel
  have hstanding : overhearing.map (fun s => (s.before.session.standing, s.askedAt)) =
      [(((0, {}), 0, false), 1), (((1, {}), 8, false), 2009), (((1, {}), 8, false), 2010)] := by
    decide +kernel
  have hrun : IsRun overhearing := (isRun_stepsAmid _ _).1
  obtain ⟨opening, _, hsteps, -, hcalls⟩ := List.map_eq_cons_iff.mp hcalls
  obtain ⟨message, _, rfl, hmessage, hcalls⟩ := List.map_eq_cons_iff.mp hcalls
  obtain ⟨quiet, _, rfl, hquiet, hcalls⟩ := List.map_eq_cons_iff.mp hcalls
  cases List.map_eq_nil_iff.mp hcalls
  simp only [hsteps, List.map_cons, List.map_nil, List.cons.injEq, Prod.mk.injEq, and_true,
    Session.standing, Session.pace] at hmessage hquiet hstanding
  obtain ⟨-, ⟨⟨⟨hkeepAlive, hsettings⟩, hlast, hcalm⟩, -⟩, -, hasked⟩ := hstanding
  obtain ⟨later, hreads⟩ := List.getLast?_eq_some_iff.mp hmessage.2.2
  obtain ⟨later', hreads'⟩ := List.getLast?_eq_some_iff.mp hquiet.2.2
  have hbusy : message.IsBusy :=
    ⟨hmessage.1, ⟨_, hmessage.2.1⟩, later, 64, 5, _, hreads, by decide⟩
  have hfinds : quiet.IsQuiet := ⟨hquiet.1, later', 64, 0, [], hreads', rfl⟩
  have hheard : message.HearsUnanswered := by
    rintro p hp b rfl
    cases hp.symm.trans hmessage.2.1
    decide
  obtain ⟨hbusies, hstretches⟩ := run_keeps_alive hrun
  obtain ⟨-, -, hsilent⟩ := hbusies message (by simp [hsteps]) hbusy
  have hpings := hstretches [opening] [message] quiet [] hsteps (by simpa using ⟨hbusy, hheard⟩)
    hfinds (by simp [hquiet.2.1]) message rfl (by simp [hkeepAlive]) (by rw [hsettings]; decide)
    hcalm
  refine ⟨opening, message, quiet, hsteps, hbusy, hheard, hfinds, hsilent hheard, hpings ?_⟩
  rw [Session.txLimit, hkeepAlive, hsettings, hasked, hlast]
  decide

/-- Two seconds of silence, with a keep-alive of one, do not make the client write while there is
something to read. -/
theorem overhearing_silent :
    ∃ opening message quiet, overhearing = [opening, message, quiet] ∧ opening.Connects ∧
      message.call = .receive true ∧ message.result = .ok (.progress (.packet 0x30)) ∧
        message.before.session.status = .connected ∧ 0 < message.before.session.keepAlive ∧
          0 < message.before.session.settings.txIdle ∧
            message.before.session.awaitsPingresp = false ∧
              message.before.session.txLimit ≤
                message.before.host.host.clock - message.before.session.lastTx ∧
                written message.calls = [] := by
  have hcalls : overhearing.map (fun s => (s.call, s.result)) =
      [(.connect { clientId := "c", keepAlive := 1 } 1000, .ok (.session false)),
        (.receive true, .ok (.progress (.packet 0x30))),
        (.receive true, .ok (.progress .noData))] := by decide +kernel
  have hstate : overhearing.map (fun s => (s.before.session.status, s.before.session.standing,
      s.before.host.host.clock, written s.calls)) =
      [(.notConnected, ((0, {}), 0, false), 0,
          [16, 13, 0, 4, 77, 81, 84, 84, 4, 2, 0, 1, 0, 1, 99]),
        (.connected, ((1, {}), 8, false), 2008, []),
        (.connected, ((1, {}), 8, false), 2009, Ping.request)] := by decide +kernel
  obtain ⟨opening, _, hsteps, hopening, hcalls⟩ := List.map_eq_cons_iff.mp hcalls
  obtain ⟨message, _, rfl, hmessage, hcalls⟩ := List.map_eq_cons_iff.mp hcalls
  obtain ⟨quiet, _, rfl, -, hcalls⟩ := List.map_eq_cons_iff.mp hcalls
  cases List.map_eq_nil_iff.mp hcalls
  simp only [hsteps, List.map_cons, List.map_nil, List.cons.injEq, Prod.mk.injEq, and_true,
    Session.standing, Session.pace] at hopening hmessage hstate
  obtain ⟨-, ⟨hstatus, ⟨⟨hkeepAlive, hsettings⟩, hlast, hcalm⟩, hclock, hwritten⟩, -⟩ := hstate
  refine ⟨opening, message, quiet, hsteps, ⟨_, _, _, hopening.1, hopening.2⟩, hmessage.1,
    hmessage.2, hstatus, ?_, ?_, hcalm, ?_, hwritten⟩
  · rw [hkeepAlive]
    decide
  · rw [hsettings]
    decide
  · rw [Session.txLimit, hkeepAlive, hsettings, hclock, hlast]
    decide

end MqttClient
