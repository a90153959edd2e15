import MqttClient.Proofs.Delivery
import MqttClient.Proofs.Faultless
import MqttClient.Proofs.Runs

/-!
# What becomes of an incoming acknowledgement

An acknowledgement that an exchange waits for is noted, reported and answered where an answer is
due. One that none waits for is refused before anything happens, but for a PUBREC that refuses its
message: that one ends the exchange under its identifier, whatever it waits for.
-/
namespace MqttClient

/-- The states in which an exchange waits for an acknowledgement from the broker. A PUBREL may
come again until it is answered. -/
def AckKind.awaitedIn : AckKind → List ExchangeState
  | .pubrel => [.awaits .pubrel, .owes .pubcomp]
  | kind => [.awaits kind]

/-- The state to which it leads. -/
def AckKind.leadsTo : AckKind → ExchangeState
  | .puback | .pubcomp => .complete
  | .pubrec => .owes .pubrel
  | .pubrel => .owes .pubcomp

theorem ExchangeState.onAck_received (kind : AckKind) (s : ExchangeState) :
    onAck kind .received s = if s ∈ kind.awaitedIn then some kind.leadsTo else none := by
  rcases s with _ | ack | ack | _
  case owes => cases kind <;> cases ack <;> rfl
  case awaits => cases kind <;> cases ack <;> rfl
  all_goals cases kind <;> rfl

namespace ExchangeTable
variable {t : ExchangeTable} {kind : AckKind} {id : UInt16}

/-- The exchange under an identifier waits for an acknowledgement from the broker. -/
def Awaits (t : ExchangeTable) (kind : AckKind) (id : UInt16) : Prop :=
  ∃ r, Record.find? id (t.records (kind.side .received)) = some r ∧ r.state ∈ kind.awaitedIn

/-- The table after an acknowledgement from the broker. -/
def acked (t : ExchangeTable) (kind : AckKind) (id : UInt16) : ExchangeTable :=
  t.withRecords (kind.side .received)
    (Record.settle id kind.leadsTo (t.records (kind.side .received)))

theorem onAck_awaited (h : t.Awaits kind id) :
    t.onAck id kind .received = .ok (kind.leadsTo, t.acked kind id) := by
  obtain ⟨r, hfound, hstate⟩ := h
  exact onAck_eq hfound (by rw [ExchangeState.onAck_received, if_pos hstate])

theorem onAck_unawaited (h : ¬t.Awaits kind id) :
    t.onAck id kind .received = .error .illegalState := by
  rw [onAck]
  cases hfound : Record.find? id (t.records (kind.side .received)) with
  | none => rfl
  | some r =>
    have hstate : r.state ∉ kind.awaitedIn := fun hmem => h ⟨r, hfound, hmem⟩
    simp only [ExchangeState.onAck_received, if_neg hstate]

/-- After a PUBREL its exchange ends with a PUBCOMP. -/
theorem onAck_pubcomp (h : t.Awaits .pubrel id) :
    (t.acked .pubrel id).onAck id .pubcomp .sent = .ok (.complete,
      { t with incoming := Record.drop id (t.acked .pubrel id).incoming }) := by
  obtain ⟨r, hfound, -⟩ := h
  have hopen : AckKind.pubrel.leadsTo ≠ .complete := by decide
  have hsettled : Record.find? id ((t.acked .pubrel id).records .incoming) =
      some { r with state := .owes .pubcomp } := Record.find?_settle_self hopen hfound
  exact onAck_eq hsettled rfl

end ExchangeTable

/-- What is reported of an acknowledgement. -/
def Ack.event (a : Ack) (version : Version) (packet : Packet) (verdict : Verdict) : Event where
  packet := packet
  packetId := a.packetId
  verdict := verdict
  reason := if version.hasProperties then some a.reason else none
  properties := a.properties

/-- The identifier of an acknowledgement is never zero. -/
theorem Ack.id_ne_zero_of_decode {version : Version} {problemInfo : Bool} {packet : Packet}
    {a : Ack} (h : Ack.decode version problemInfo packet = .ok a) : a.packetId ≠ 0 := by
  rw [decode] at h
  split at h
  · cases h
  obtain ⟨left, hread⟩ := Reader.run'_eq_ok.mp h
  rw [read] at hread
  by_cases hreason : 2 < packet.remaining <;> by_cases hregion : 3 < packet.remaining
  all_goals
    simp only [hreason, hregion, if_true, if_false, Reader.bind_eq_ok, Reader.check_eq_ok,
      Reader.pure_eq_ok, Prod.mk.injEq] at hread
    obtain ⟨id, _, -, hid, _, _, -, -, _, _, -, _, _, -, rfl, -⟩ := hread
    exact hid

namespace Session
variable {ω : Type} [Host ω] {kind : AckKind} {verdict : Verdict} {id : UInt16}

/-! ## Settling -/

section
variable {σ : Scene ω}

/-- A refused message is forgotten. -/
theorem runOn_settleAck_refused :
    (settleAck id .pubrec .refused).runOn σ = some (.ok .complete,
      ⟨{ σ.session with exchanges := σ.session.exchanges.remove id },
        Act.trackedHost σ.host⟩) := by
  rw [settleAck, if_pos ⟨rfl, rfl⟩, Act.runOn_bind_of_ok (Act.runOn_track_ok rfl)]
  rfl

theorem runOn_settleAck_awaited (h : ¬(verdict = .refused ∧ kind = .pubrec))
    (hawaits : σ.session.exchanges.Awaits kind id) :
    (settleAck id kind verdict).runOn σ = some (.ok kind.leadsTo,
      ⟨{ σ.session with exchanges := σ.session.exchanges.acked kind id },
        Act.trackedHost σ.host⟩) := by
  rw [settleAck, if_neg h,
    Act.runOn_bind_of_ok (Act.runOn_track_ok (ExchangeTable.onAck_awaited hawaits))]
  rfl

theorem runOn_settleAck_unawaited (h : ¬(verdict = .refused ∧ kind = .pubrec))
    (hawaits : ¬σ.session.exchanges.Awaits kind id) :
    (settleAck id kind verdict).runOn σ =
      some (.error .illegalState, { σ with host := Act.trackedHost σ.host }) := by
  rw [settleAck, if_neg h,
    Act.runOn_bind_of_ok (Act.runOn_track_error (ExchangeTable.onAck_unawaited hawaits))]
  rfl

end

/-! ## Handling -/

theorem dispatch_ack {packet : Packet} (managed : Bool)
    (hkind : AckKind.ofFirstByte? packet.firstByte = some kind) :
    (dispatch managed packet : Act ω Unit) = handleAck packet kind := by
  rw [AckKind.ofFirstByte?] at hkind
  rw [dispatch]
  split at hkind
  all_goals
    rename_i htype
    cases hkind
    try rw [htype]

section
variable {σ τ : Scene ω} {packet : Packet} {ack : Ack}
  (hdecode : Ack.decode σ.session.version σ.session.negotiated.requestProblemInfo packet = .ok ack)
  (hverdict : ack.verdict (kindBits packet.firstByte) = some verdict)
include hdecode hverdict

/-- An acknowledgement that is settled is reported, and answered as its exchange asks for it. -/
theorem handleAck_of_settled {state : ExchangeState}
    (h : (settleAck ack.packetId kind verdict).runOn σ = some (.ok state, τ)) :
    (handleAck packet kind).runOn σ = (sendAck ack.packetId state).runOn { τ with
      host := Host.notify (ack.event σ.session.version packet verdict) τ.host } := by
  rw [handleAck, Act.runOn_bind_of_ok (Act.runOn_session _), hdecode,
    Act.runOn_bind_of_ok (Act.runOn_ofResult _ _)]
  simp only [hverdict]
  rw [Act.runOn_bind_of_ok h, report, Act.runOn_bind_of_ok (Act.runOn_hostDo _ _)]
  rfl

/-- One that is not settled is not reported. -/
theorem handleAck_of_unsettled {fault : Fault}
    (h : (settleAck ack.packetId kind verdict).runOn σ = some (.error fault, τ)) :
    (handleAck packet kind).runOn σ = some (.error fault, τ) := by
  rw [handleAck, Act.runOn_bind_of_ok (Act.runOn_session _), hdecode,
    Act.runOn_bind_of_ok (Act.runOn_ofResult _ _)]
  simp only [hverdict]
  rw [Act.runOn_bind_of_error h]

theorem handleAck_refused (hrefused : verdict = .refused) :
    ∃ ρ, (handleAck packet .pubrec).runOn σ = some (.ok (), ρ) ∧
      ρ.session.exchanges = σ.session.exchanges.remove ack.packetId ∧
      ρ.host = Host.notify (ack.event σ.session.version packet .refused)
        (Act.trackedHost σ.host) := by
  subst hrefused
  have hhandle := handleAck_of_settled hdecode hverdict runOn_settleAck_refused
  rw [sendAck_of_none rfl, Act.runOn_pure] at hhandle
  exact ⟨_, hhandle, rfl, rfl⟩

theorem handleAck_awaited (hrefused : ¬(verdict = .refused ∧ kind = .pubrec))
    (hawaits : σ.session.exchanges.Awaits kind ack.packetId) :
    ∃ ρ : Scene ω, (handleAck packet kind).runOn σ =
        (sendAck ack.packetId kind.leadsTo).runOn ρ ∧
      ρ.session.exchanges = σ.session.exchanges.acked kind ack.packetId ∧
      ρ.host = Host.notify (ack.event σ.session.version packet verdict)
        (Act.trackedHost σ.host) :=
  ⟨_, handleAck_of_settled hdecode hverdict (runOn_settleAck_awaited hrefused hawaits), rfl, rfl⟩

end

/-! ## The call that dispatches -/

namespace Dispatches
variable {managed : Bool} {packet : Packet} {σ υ τ : Scene (Watched ω)}

/-- The call ends as handling the packet ends. -/
theorem receive_ok (h : Dispatches managed packet σ υ)
    (hrun : (dispatch managed packet).runOn υ = some (.ok (), τ)) :
    ∃ τ' t, (receive managed).runOn σ = some (.ok (.packet packet.firstByte), τ') ∧
      τ'.session.exchanges = τ.session.exchanges ∧ τ'.host.calls = .now t :: τ.host.calls := by
  obtain ⟨header, rfl, hfront⟩ : ∃ header, packet = υ.session.frontPacket header ∧
      (handleBuffered managed).runOn υ = (handleFront managed header).runOn υ :=
    handleBuffered_whole h.whole
  rw [receive_eq, Act.runOn_bind_of_ok h.arrives, hfront, handleFront_ok hrun]
  exact ⟨_, _, rfl, rfl, rfl⟩

theorem receive_error {fault : Fault} (h : Dispatches managed packet σ υ)
    (hrun : (dispatch managed packet).runOn υ = some (.error fault, τ)) :
    ∃ τ', (receive managed).runOn σ = some (.error fault, τ') ∧
      τ'.session.exchanges = τ.session.exchanges ∧ τ'.host = τ.host := by
  obtain ⟨header, rfl, hfront⟩ : ∃ header, packet = υ.session.frontPacket header ∧
      (handleBuffered managed).runOn υ = (handleFront managed header).runOn υ :=
    handleBuffered_whole h.whole
  rw [receive_eq, Act.runOn_bind_of_ok h.arrives, hfront, handleFront_error hrun]
  exact ⟨_, rfl, rfl, rfl⟩

end Dispatches

section
variable {managed : Bool} {packet : Packet} {ack : Ack} {σ υ : Scene (Watched ω)}

/-- An acknowledgement that no exchange waits for is refused before anything happens. -/
theorem receive_illegal (h : Dispatches managed packet σ υ)
    (hkind : AckKind.ofFirstByte? packet.firstByte = some kind)
    (hdecode : Ack.decode σ.session.version σ.session.negotiated.requestProblemInfo packet =
      .ok ack)
    (hverdict : ack.verdict (kindBits packet.firstByte) = some verdict)
    (hrefused : ¬(verdict = .refused ∧ kind = .pubrec))
    (hawaits : ¬σ.session.exchanges.Awaits kind ack.packetId) :
    ∃ τ calls k, (receive managed).runOn σ = some (.error .illegalState, τ) ∧
      τ.host.calls = calls ++ σ.host.calls ∧ written calls = Ping.request.take k ∧
      τ.session.exchanges = σ.session.exchanges ∧ reported calls = [] := by
  obtain ⟨hversion, hnegotiated, hexchanges, k, before, hbefore, hsilent, hping⟩ :=
    arrive_keeps h.arrives
  rw [← hversion, ← hnegotiated] at hdecode
  rw [← hexchanges] at hawaits
  have hhandle := handleAck_of_unsettled hdecode hverdict
    (runOn_settleAck_unawaited hrefused hawaits)
  rw [← dispatch_ack managed hkind] at hhandle
  obtain ⟨τ, hrun, hτ, hhost⟩ := h.receive_error hhandle
  refine ⟨τ, trackCalls ++ before, k, hrun, ?_, ?_, ?_, ?_⟩
  · rw [hhost, Watched.calls_trackedHost, hbefore, List.append_assoc]
  · rw [written_append, hping, written_trackCalls, List.append_nil]
  · rw [hτ, ← hexchanges]
  · rw [reported_append, hsilent, reported_trackCalls]
    rfl

/-- A PUBREC that refuses its message ends the exchange under its identifier. -/
theorem receive_refusal (h : Dispatches managed packet σ υ)
    (hkind : AckKind.ofFirstByte? packet.firstByte = some .pubrec)
    (hdecode : Ack.decode σ.session.version σ.session.negotiated.requestProblemInfo packet =
      .ok ack)
    (hverdict : ack.verdict (kindBits packet.firstByte) = some .refused) :
    ∃ τ calls k, (receive managed).runOn σ = some (.ok (.packet packet.firstByte), τ) ∧
      τ.host.calls = calls ++ σ.host.calls ∧ written calls = Ping.request.take k ∧
      τ.session.exchanges = σ.session.exchanges.remove ack.packetId ∧
      reported calls = [ack.event σ.session.version packet .refused] := by
  obtain ⟨hversion, hnegotiated, hexchanges, k, before, hbefore, hsilent, hping⟩ :=
    arrive_keeps h.arrives
  rw [← hversion, ← hnegotiated] at hdecode
  obtain ⟨ρ, hhandle, hremoved, hhost⟩ := handleAck_refused hdecode hverdict rfl
  rw [← dispatch_ack managed hkind] at hhandle
  obtain ⟨τ, t, hrun, hτ, hcalls⟩ := h.receive_ok hhandle
  refine ⟨τ, .now t :: .notify (ack.event σ.session.version packet .refused) ::
    (trackCalls ++ before), k, hrun, ?_, ?_, ?_, ?_⟩
  · rw [hcalls, hhost, hversion, Watched.calls_notify, Watched.calls_trackedHost, hbefore]
    simp only [List.cons_append, List.append_assoc]
  · simp [hping, HostCall.taken]
  · rw [hτ, hremoved, hexchanges]
  · simp [hsilent, HostCall.event?]

/-- **What becomes of an acknowledgement that no exchange waits for.** The call that dispatches it
writes nothing, but for a PINGREQ that it may send before. It fails with `illegalState`, leaves
the exchanges as they are and reports nothing, unless the acknowledgement is a PUBREC that refuses
its message: then it succeeds, forgets the message under the identifier and reports the PUBREC. -/
theorem receive_unawaited (h : Dispatches managed packet σ υ)
    (hkind : AckKind.ofFirstByte? packet.firstByte = some kind)
    (hdecode : Ack.decode σ.session.version σ.session.negotiated.requestProblemInfo packet =
      .ok ack)
    (hverdict : ack.verdict (kindBits packet.firstByte) = some verdict)
    (hawaits : ¬σ.session.exchanges.Awaits kind ack.packetId) :
    ∃ r τ calls k, (receive managed).runOn σ = some (r, τ) ∧
      τ.host.calls = calls ++ σ.host.calls ∧ written calls = Ping.request.take k ∧
      (¬(verdict = .refused ∧ kind = .pubrec) →
        r = .error .illegalState ∧ τ.session.exchanges = σ.session.exchanges ∧
          reported calls = []) ∧
      (verdict = .refused ∧ kind = .pubrec →
        r = .ok (.packet packet.firstByte) ∧
          τ.session.exchanges = σ.session.exchanges.remove ack.packetId ∧
          reported calls = [ack.event σ.session.version packet verdict]) := by
  by_cases hrefused : verdict = .refused ∧ kind = .pubrec
  · obtain ⟨rfl, rfl⟩ := hrefused
    obtain ⟨τ, calls, k, hrun, hcalls, hwritten, hexchanges, hreported⟩ :=
      receive_refusal h hkind hdecode hverdict
    exact ⟨_, τ, calls, k, hrun, hcalls, hwritten, fun hnot => (hnot ⟨rfl, rfl⟩).elim,
      fun _ => ⟨rfl, hexchanges, hreported⟩⟩
  · obtain ⟨τ, calls, k, hrun, hcalls, hwritten, hexchanges, hreported⟩ :=
      receive_illegal h hkind hdecode hverdict hrefused hawaits
    exact ⟨_, τ, calls, k, hrun, hcalls, hwritten, fun _ => ⟨rfl, hexchanges, hreported⟩,
      fun hall => (hrefused hall).elim⟩

/-- A PUBREC that refuses the message under identifier 3. -/
def refusal : Packet := { firstByte := 0x50, remaining := 3, length := 2, data := [0, 3, 0x80] }

/-- A new session publishes a message to be delivered at least once under this identifier. -/
def untilSent : Option (Except Fault Unit × Scene (Watched Scripted)) :=
  (publish { topic := "a", payload := [120], qos := .atLeastOnce } 3).runOn
    { session := create 8 (.empty 1 0) .v5 {}
      host := { host := { incoming := [0x50, 3, 0, 3, 0x80] } } }

/-- Such a message waits for a PUBACK. A PUBREC that does not belong to its exchange makes the
client forget it all the same. -/
theorem receive_unawaited_refusal :
    ∃ σ υ τ calls, untilSent = some (.ok (), σ) ∧
      σ.session.exchanges.outgoing = [⟨3, .atLeastOnce, .awaits .puback⟩] ∧
      Dispatches false refusal σ υ ∧
      (receive false).runOn σ = some (.ok (.packet 0x50), τ) ∧
      τ.session.exchanges.outgoing = [] ∧ τ.host.calls = calls ++ σ.host.calls ∧
      reported calls = [Ack.event { packetId := 3, reason := 0x80 } .v5 refusal .refused] := by
  have hfirst : untilSent.map (fun p =>
      (p.1, p.2.session.version, p.2.session.exchanges.outgoing)) =
      some (.ok (), .v5, [⟨3, .atLeastOnce, .awaits .puback⟩]) := by decide +kernel
  have harrives : untilSent.map (fun p => ((arrive false).runOn p.2).map fun q =>
      (q.1, q.2.session.wholePacket?)) = some (some (.ok (), some refusal)) := by decide +kernel
  have hdecode : untilSent.map (fun p => Ack.decode p.2.session.version
      p.2.session.negotiated.requestProblemInfo refusal) =
      some (.ok { packetId := 3, reason := 0x80 }) := by decide +kernel
  obtain ⟨⟨_, σ⟩, hσ, hfound⟩ := Option.map_eq_some_iff.mp hfirst
  obtain ⟨rfl, hfound⟩ := Prod.mk.inj hfound
  obtain ⟨hversion, hrecords⟩ := Prod.mk.inj hfound
  rw [hσ] at harrives hdecode
  obtain ⟨⟨_, υ⟩, hυ, hfront⟩ := Option.map_eq_some_iff.mp (Option.some.inj harrives)
  obtain ⟨rfl, hwhole⟩ := Prod.mk.inj hfront
  have hawaits : ¬σ.session.exchanges.Awaits .pubrec 3 := by
    rintro ⟨r, hfound, hstate⟩
    have houtgoing : σ.session.exchanges.records (AckKind.pubrec.side .received) = _ := hrecords
    rw [houtgoing] at hfound
    cases hfound
    exact absurd hstate (by decide)
  obtain ⟨r, τ, calls, k, hrun, hcalls, -, -, hrefused⟩ :=
    receive_unawaited ⟨hυ, hwhole⟩ rfl (Option.some.inj hdecode) rfl hawaits
  obtain ⟨rfl, hexchanges, hreported⟩ := hrefused ⟨rfl, rfl⟩
  rw [hversion] at hreported
  refine ⟨σ, υ, τ, calls, hσ, hrecords, ⟨hυ, hwhole⟩, hrun, ?_, hcalls, hreported⟩
  rw [hexchanges, ExchangeTable.remove, hrecords]
  rfl

/-- **What becomes of a PUBREL.** If the exchange under its identifier waits for it, it is reported
and answered with a PUBCOMP, all of it unless sending fails; and on a transport that accepts writes
the call succeeds and the exchange is over. Otherwise the call fails with `illegalState`, and
nothing is answered, not even to a PUBREL that comes again after its PUBCOMP has been sent. -/
theorem receive_pubrel (h : Dispatches managed packet σ υ)
    (hkind : AckKind.ofFirstByte? packet.firstByte = some .pubrel)
    (hdecode : Ack.decode σ.session.version σ.session.negotiated.requestProblemInfo packet =
      .ok ack)
    (hverdict : ack.verdict (kindBits packet.firstByte) = some verdict) :
    (σ.session.exchanges.Awaits .pubrel ack.packetId →
      (∀ r τ, (receive managed).runOn σ = some (r, τ) →
        ∃ before after k, τ.host.calls = after ++ before ++ σ.host.calls ∧
          reported before = [] ∧ written before = Ping.request.take k ∧
          reported after = [ack.event σ.session.version packet verdict] ∧
          Writes (Ack.wire .pubcomp ack.packetId) r after) ∧
      ∀ P : ω → Prop, AcceptsWrites P → P υ.host.host →
        ∃ τ, (receive managed).runOn σ = some (.ok (.packet packet.firstByte), τ) ∧
          Record.find? ack.packetId τ.session.exchanges.incoming = none) ∧
    (¬σ.session.exchanges.Awaits .pubrel ack.packetId →
      ∃ τ calls k, (receive managed).runOn σ = some (.error .illegalState, τ) ∧
        τ.host.calls = calls ++ σ.host.calls ∧ written calls = Ping.request.take k ∧
        τ.session.exchanges = σ.session.exchanges ∧ reported calls = []) := by
  have hrefused : ¬(verdict = .refused ∧ AckKind.pubrel = .pubrec) := by simp
  refine ⟨fun hawaits => ?_, receive_illegal h hkind hdecode hverdict hrefused⟩
  have hid := Ack.id_ne_zero_of_decode hdecode
  obtain ⟨hversion, hnegotiated, hexchanges, k, before, hbefore, hsilent, hping⟩ :=
    arrive_keeps h.arrives
  rw [← hversion, ← hnegotiated] at hdecode
  rw [← hexchanges] at hawaits
  obtain ⟨ρ, hhandle, hacked, hhost⟩ := handleAck_awaited hdecode hverdict hrefused hawaits
  rw [← dispatch_ack managed hkind] at hhandle
  rw [hversion] at hhost
  refine ⟨fun r τ hrun => ?_, fun P hP hυ => ?_⟩
  · obtain ⟨r', τ', later, hdispatch, rfl, -, hlater, hwritten, hreported⟩ := h.receive_inv hrun
    rw [hhandle] at hdispatch
    have hnotified : ρ.host.calls = (.notify (ack.event σ.session.version packet verdict) ::
        trackCalls) ++ υ.host.calls := by
      rw [hhost, Watched.calls_notify, Watched.calls_trackedHost]
      rfl
    obtain ⟨calls, hcalls, hevents, hwrites⟩ := sendAck_after hnotified rfl rfl hid hdispatch
    refine ⟨before, later ++ calls, k, ?_, hsilent, hping, ?_,
      hwrites.append (fun _ => map_of_error _) hwritten⟩
    · rw [hlater, hcalls, hbefore]
      simp only [List.append_assoc]
    · rw [reported_append, hevents, hreported]
      rfl
  · have hρ : P ρ.host.host := by
      rw [hhost]
      exact hP.notify _ _ (hP.track hυ)
    have howes : AckKind.pubrel.leadsTo.ackToSend = some .pubcomp := rfl
    obtain ⟨τ', hack, hτ'⟩ := hP.sendAck hρ howes hid
      (hacked ▸ ExchangeTable.onAck_pubcomp hawaits)
    rw [← hhandle] at hack
    obtain ⟨τ, _, hrun, hτ, -⟩ := h.receive_ok hack
    refine ⟨τ, hrun, ?_⟩
    rw [hτ, hτ']
    exact Record.find?_drop_self _ _

/-- A PUBREL under identifier 9. -/
def release : Packet := { firstByte := 0x62, remaining := 2, length := 2, data := [0, 9] }

/-- A message is delivered exactly once under this identifier. Then the client connects again, the
broker has kept the session, and sends the PUBREL again. -/
def releasedAgain : List (Step Scripted) :=
  stepsFrom
    { session := create 8 (.empty 0 1) .v311 {}
      host := { host := {
        incoming := [0x20, 2, 0, 0, 0x34, 6, 0, 1, 97, 0, 9, 55, 0x62, 2, 0, 9, 0x20, 2, 1, 0,
          0x62, 2, 0, 9]
        reads := [.move 1, .move 1, .move 2, .move 8, .move 4] } } }
    [.connect { clientId := "c", cleanSession := false } 1000, .receive false, .receive false,
      .connect { clientId := "c", cleanSession := false } 1000, .receive false]

/-- What a step finds on the stream, and whether its transport does as it should from then on. -/
def finds (s : Step Scripted) : Option (Except Fault Unit × Option Packet × Bool) :=
  ((arrive false).runOn s.before).map fun (r, υ) =>
    (r, υ.session.wholePacket?, decide (υ.host.host.reads = [] ∧ υ.host.host.writes = [] ∧
      υ.host.host.writeLimit = none ∧ υ.host.host.flushFails = false))

theorem dispatches_of_finds {s : Step Scripted}
    (h : finds s = some (.ok (), some packet, true)) :
    ∃ υ, Dispatches false packet s.before υ ∧ ∃ P, AcceptsWrites P ∧ P υ.host.host := by
  obtain ⟨⟨_, υ⟩, hυ, hfound⟩ := Option.map_eq_some_iff.mp h
  simp only [Prod.mk.injEq, decide_eq_true_eq] at hfound
  obtain ⟨rfl, hwhole, hreads, hwrites, hlimit, hflush⟩ := hfound
  have hworks : Scripted.stream.Works υ.host.host := ⟨by simp [hreads], hwrites, hlimit, hflush⟩
  exact ⟨υ, ⟨hυ, hwhole⟩, _, Scripted.faultless_stream.acceptsWrites υ.host.host, .refl hworks⟩

theorem releasedAgain_results :
    ∃ opened message released resumed again,
      releasedAgain = [opened, message, released, resumed, again] ∧
      resumed.result = .ok (.session true) ∧ again.result = .error .illegalState := by
  have hresults : releasedAgain.map (·.result) = [.ok (.session false),
      .ok (.progress (.packet 0x34)), .ok (.progress (.packet 0x62)), .ok (.session true),
      .error .illegalState] := by decide +kernel
  obtain ⟨opened, _, hrun, -, hresults⟩ := List.map_eq_cons_iff.mp hresults
  obtain ⟨message, _, rfl, -, hresults⟩ := List.map_eq_cons_iff.mp hresults
  obtain ⟨released, _, rfl, -, hresults⟩ := List.map_eq_cons_iff.mp hresults
  obtain ⟨resumed, _, rfl, hresumed, hresults⟩ := List.map_eq_cons_iff.mp hresults
  obtain ⟨again, _, rfl, hagain, hresults⟩ := List.map_eq_cons_iff.mp hresults
  cases List.map_eq_nil_iff.mp hresults
  exact ⟨opened, message, released, resumed, again, hrun, hresumed, hagain⟩

/-- The first PUBREL is answered. -/
theorem receive_pubrel_nine :
    ∃ opened message released later τ calls before,
      releasedAgain = opened :: message :: released :: later ∧
      (receive false).runOn released.before = some (.ok (.packet 0x62), τ) ∧
      τ.host.calls = calls ++ before ++ released.before.host.calls ∧
      written calls = Ack.wire .pubcomp 9 ∧
      reported calls = [Ack.event { packetId := 9 } .v311 release .accepted] ∧
      Record.find? 9 τ.session.exchanges.incoming = none := by
  obtain ⟨opened, message, released, resumed, again, hrun, -, -⟩ := releasedAgain_results
  have hfinds : (releasedAgain[2]?).bind finds = some (.ok (), some release, true) := by
    decide +kernel
  have hbefore : (releasedAgain[2]?).map (fun s => (Ack.decode s.before.session.version
      s.before.session.negotiated.requestProblemInfo release, s.before.session.version,
      s.before.session.exchanges.incoming)) =
      some (.ok { packetId := 9 }, .v311, [⟨9, .exactlyOnce, .awaits .pubrel⟩]) := by
    decide +kernel
  rw [hrun] at hfinds hbefore
  obtain ⟨υ, hdispatches, P, hP, hυ⟩ := dispatches_of_finds hfinds
  obtain ⟨hdecode, hbefore⟩ := Prod.mk.inj (Option.some.inj hbefore)
  obtain ⟨hversion, hrecords⟩ := Prod.mk.inj hbefore
  have hawaits : released.before.session.exchanges.Awaits .pubrel 9 :=
    ⟨⟨9, .exactlyOnce, .awaits .pubrel⟩, congrArg (Record.find? 9) hrecords, by decide⟩
  obtain ⟨hanswer, haccepts⟩ := (receive_pubrel hdispatches rfl hdecode rfl).1 hawaits
  obtain ⟨τ, hτ, hdropped⟩ := haccepts P hP hυ
  obtain ⟨before, calls, k, hcalls, -, -, hreported, n, hwritten, rfl | hr⟩ := hanswer _ _ hτ
  · rw [hversion] at hreported
    rw [List.take_length] at hwritten
    exact ⟨opened, message, released, _, τ, calls, before, hrun, hτ, hcalls, hwritten, hreported,
      hdropped⟩
  · cases hr

/-- The second is not, although the transport accepts writes. -/
theorem release_again_unanswered :
    ∃ opened message released resumed again υ,
      releasedAgain = [opened, message, released, resumed, again] ∧
      written released.calls = Ack.wire .pubcomp 9 ∧ resumed.result = .ok (.session true) ∧
      again.call = .receive false ∧ Dispatches false release again.before υ ∧
      Ack.decode again.before.session.version
        again.before.session.negotiated.requestProblemInfo release = .ok { packetId := 9 } ∧
      Ack.verdict { packetId := 9 } (kindBits release.firstByte) = some .accepted ∧
      (∃ P : Scripted → Prop, AcceptsWrites P ∧ P υ.host.host) ∧
      again.result = .error .illegalState ∧ written again.calls = [] := by
  obtain ⟨opened, message, released, resumed, again, hrun, hresumed, hagain⟩ :=
    releasedAgain_results
  have hreleased : (releasedAgain[2]?).map (fun s => written s.calls) =
      some (Ack.wire .pubcomp 9) := by decide +kernel
  have hfinds : (releasedAgain[4]?).bind finds = some (.ok (), some release, true) := by
    decide +kernel
  have hstep : (releasedAgain[4]?).map (fun s => (s.call, Ack.decode s.before.session.version
      s.before.session.negotiated.requestProblemInfo release, written s.calls)) =
      some (.receive false, .ok { packetId := 9 }, []) := by decide +kernel
  rw [hrun] at hreleased hfinds hstep
  obtain ⟨υ, hdispatches, haccepts⟩ := dispatches_of_finds hfinds
  obtain ⟨hcall, hstep⟩ := Prod.mk.inj (Option.some.inj hstep)
  obtain ⟨hdecode, hwritten⟩ := Prod.mk.inj hstep
  exact ⟨opened, message, released, resumed, again, υ, hrun, Option.some.inj hreleased, hresumed,
    hcall, hdispatches, hdecode, rfl, haccepts, hagain, hwritten⟩

end

end Session

end MqttClient
