import MqttClient.Proofs.Arriving
import MqttClient.Proofs.Exchange.Records
import MqttClient.Proofs.Messages

/-!
# What becomes of an incoming message

A tracked message that arrives is in one of three cases. Its identifier is tracked, and then it
is acknowledged and not reported; or it opens an exchange, and then it is reported before it is
acknowledged; or there is no room for its exchange, and then nothing at all happens. Its DUP flag
has no say in this.
-/
namespace MqttClient

/-- The first acknowledgement of a message. -/
def QoS.firstAck : QoS → AckKind
  | .exactlyOnce => .pubrec
  | _ => .puback

theorem ExchangeState.opening_received {qos : QoS} (h : qos.isTracked = true) :
    ExchangeState.opening .received qos = .owes qos.firstAck := by
  cases qos with
  | atMostOnce => cases h
  | atLeastOnce => rfl
  | exactlyOnce => rfl

/-- What is reported of a message. -/
def Message.event (packet : Packet) (id : UInt16) (m : Message) : Event :=
  { packet, packetId := id, message := some m, properties := m.properties }

/-- Calls that write a packet and report nothing: a first part of it, and all of it unless
sending fails. -/
def Writes {α : Type} (bytes : Bytes) (r : Except Fault α) (calls : List HostCall) : Prop :=
  ∃ k, written calls = bytes.take k ∧ (k = bytes.length ∨ r = .error .sendFailed)

/-- A fault is a fault, whatever would have been made of a value. -/
theorem map_of_error {α β : Type} {r : Except Fault α} {fault : Fault} (f : α → β)
    (h : r = .error fault) : r.map f = .error fault := by
  rw [h]
  rfl

/-- Further calls that write nothing make no difference. -/
theorem Writes.append {α β : Type} {bytes : Bytes} {r : Except Fault α} {r' : Except Fault β}
    {calls later : List HostCall} (h : Writes bytes r calls)
    (hr : ∀ fault, r = .error fault → r' = .error fault) (hlater : written later = []) :
    Writes bytes r' (later ++ calls) := by
  obtain ⟨k, htaken, hk⟩ := h
  refine ⟨k, ?_, hk.imp_right (hr _)⟩
  rw [written_append, hlater, List.append_nil, htaken]

namespace Session
variable {ω : Type} [Host ω] {σ τ : Scene (Watched ω)} {r : Except Fault Unit} {id : UInt16}

/-- Sending an acknowledgement stops within it, or writes all of it. Only then the exchanges are
told of it, and what they answer is how it ends. -/
theorem sendAck_ends {state : ExchangeState} {ack : AckKind} (hack : state.ackToSend = some ack)
    (hid : id ≠ 0) (h : (sendAck id state).runOn σ = some (r, τ)) :
    ∃ calls, τ.host.calls = calls ++ σ.host.calls ∧ reported calls = [] ∧
      (r = .error .sendFailed ∧ τ.session = σ.session ∧ written calls <+: Ack.wire ack id ∨
        written calls = Ack.wire ack id ∧
          ((∃ next, σ.session.exchanges.onAck id ack .sent = .ok (next, τ.session.exchanges) ∧
              r = .ok ()) ∨
            ∃ fault, σ.session.exchanges.onAck id ack .sent = .error fault ∧ r = .error fault ∧
              τ.session.exchanges = σ.session.exchanges)) := by
  rw [sendAck_of_some hack hid] at h
  rcases Act.runOn_bind_inv h with ⟨fault, hsend, rfl⟩ | ⟨_, υ, hsend, h⟩
  · obtain ⟨k, calls, hcalls, hsent, -, ⟨hr, -⟩ | ⟨hr, hsession⟩⟩ := send_inv hsend
    · cases hr
    · cases hr
      have htaken := hsent.taken
      rw [List.flatten_singleton] at htaken
      exact ⟨calls, hcalls, reported_eq_nil_of_sending hsent.sending,
        .inl ⟨rfl, hsession, htaken ▸ List.take_prefix k _⟩⟩
  · obtain ⟨k, calls, hcalls, hsent, -, ⟨-, hk, t, hsession⟩ | ⟨hr, -⟩⟩ := send_inv hsend
    · have hexchanges : υ.session.exchanges = σ.session.exchanges := by rw [hsession]
      have hτcalls : τ.host = Act.trackedHost υ.host →
          τ.host.calls = trackCalls ++ calls ++ σ.host.calls := by
        intro hτ
        rw [hτ, Watched.calls_trackedHost, hcalls, List.append_assoc]
      have hreported : reported (trackCalls ++ calls) = [] := by
        rw [reported_append, reported_eq_nil_of_sending hsent.sending, reported_trackCalls]
        rfl
      have hwritten : written (trackCalls ++ calls) = Ack.wire ack id := by
        rw [written_append, written_trackCalls, List.append_nil, hsent.taken, hk, List.take_length,
          List.flatten_singleton]
      rw [← hexchanges]
      cases hstep : υ.session.exchanges.onAck id ack .sent with
      | error fault =>
        rw [Act.runOn_bind_of_ok (Act.runOn_track_error hstep)] at h
        cases h
        exact ⟨_, hτcalls rfl, hreported, .inr ⟨hwritten, .inr ⟨fault, rfl, rfl, rfl⟩⟩⟩
      | ok found =>
        rw [Act.runOn_bind_of_ok (Act.runOn_track_ok hstep)] at h
        cases h
        exact ⟨_, hτcalls rfl, hreported, .inr ⟨hwritten, .inl ⟨found.1, rfl, rfl⟩⟩⟩
    · cases hr

theorem sendAck_inv {state : ExchangeState} {ack : AckKind} (hack : state.ackToSend = some ack)
    (hid : id ≠ 0) (h : (sendAck id state).runOn σ = some (r, τ)) :
    ∃ calls, τ.host.calls = calls ++ σ.host.calls ∧ reported calls = [] ∧
      Writes (Ack.wire ack id) r calls := by
  obtain ⟨calls, hcalls, hreported, ⟨hr, -, hfront⟩ | ⟨hwritten, -⟩⟩ := sendAck_ends hack hid h
  · exact ⟨calls, hcalls, hreported, _, List.prefix_iff_eq_take.mp hfront, .inr hr⟩
  · exact ⟨calls, hcalls, hreported, _, by rw [hwritten, List.take_length], .inl rfl⟩

/-- Calls that have written nothing make no difference to the acknowledgement after them. -/
theorem sendAck_after {ρ : Scene (Watched ω)} {earlier : List HostCall} {state : ExchangeState}
    {ack : AckKind} (hσ : σ.host.calls = earlier ++ ρ.host.calls) (hquiet : written earlier = [])
    (hack : state.ackToSend = some ack) (hid : id ≠ 0)
    (h : (sendAck id state).runOn σ = some (r, τ)) :
    ∃ calls, τ.host.calls = calls ++ ρ.host.calls ∧ reported calls = reported earlier ∧
      Writes (Ack.wire ack id) r calls := by
  obtain ⟨calls, hcalls, hreported, k, hwritten, hk⟩ := sendAck_inv hack hid h
  refine ⟨calls ++ earlier, ?_, ?_, k, ?_, hk⟩
  · rw [hcalls, hσ, List.append_assoc]
  · rw [reported_append, hreported, List.append_nil]
  · rw [written_append, hquiet, hwritten, List.nil_append]

/-! ## The exchange of an incoming message -/

section
variable {qos : QoS} (hqos : qos ≠ .atMostOnce) {ρ : Scene ω}
include hqos

theorem openIncoming_new {state : ExchangeState} {exchanges : ExchangeTable}
    (h : ρ.session.exchanges.onPublish id .received qos = .ok (state, exchanges)) :
    (openIncoming id qos).runOn ρ =
      some (.ok (state, true), ⟨{ ρ.session with exchanges }, Act.trackedHost ρ.host⟩) := by
  rw [openIncoming, if_neg hqos, Act.runOn_bind_of_ok (Act.runOn_track_ok h)]
  rfl

theorem openIncoming_again
    (h : ρ.session.exchanges.onPublish id .received qos = .error .stateCollision) :
    (openIncoming id qos).runOn ρ = some (.ok (.opening .received qos, false),
      { ρ with host := Act.trackedHost ρ.host }) := by
  rw [openIncoming, if_neg hqos, Act.runOn_bind_of_ok (Act.runOn_track_error h)]
  rfl

theorem openIncoming_noRoom
    (h : ρ.session.exchanges.onPublish id .received qos = .error .noMemory) :
    (openIncoming id qos).runOn ρ =
      some (.error .noMemory, { ρ with host := Act.trackedHost ρ.host }) := by
  rw [openIncoming, if_neg hqos, Act.runOn_bind_of_ok (Act.runOn_track_error h)]
  rfl

end

/-- What handling a tracked message comes to. -/
inductive Delivery {α : Type} (t : ExchangeTable) (event : Event) (ack : AckKind)
    (r : Except Fault α) (calls : List HostCall) : Prop where
  /-- Its identifier is tracked: it is acknowledged and not reported. -/
  | again (tracked : (Record.find? event.packetId t.incoming).isSome)
    (silent : reported calls = []) (acked : Writes (Ack.wire ack event.packetId) r calls)
  /-- It opens an exchange: it is reported, and acknowledged. -/
  | new (untracked : Record.find? event.packetId t.incoming = none)
    (room : t.incoming.length < t.incomingCapacity)
    (reports : reported calls = [event]) (acked : Writes (Ack.wire ack event.packetId) r calls)
  /-- There is no room for its exchange. -/
  | noRoom (untracked : Record.find? event.packetId t.incoming = none)
    (full : t.incomingCapacity ≤ t.incoming.length) (refused : r = .error .noMemory)
    (silent : reported calls = []) (quiet : written calls = [])

/-- Further calls that neither write nor report make no difference. -/
theorem Delivery.append {α β : Type} {t : ExchangeTable} {event : Event} {ack : AckKind}
    {r : Except Fault α} {r' : Except Fault β} {calls : List HostCall}
    (h : Delivery t event ack r calls) (hr : ∀ fault, r = .error fault → r' = .error fault)
    {later : List HostCall} (hreported : reported later = []) (hwritten : written later = []) :
    Delivery t event ack r' (later ++ calls) := by
  cases h with
  | again tracked silent acked =>
    exact .again tracked (by rw [reported_append, silent, hreported]; rfl)
      (acked.append hr hwritten)
  | new untracked room reports acked =>
    exact .new untracked room (by rw [reported_append, reports, hreported]; rfl)
      (acked.append hr hwritten)
  | noRoom untracked full refused silent quiet =>
    exact .noRoom untracked full (hr _ refused) (by rw [reported_append, silent, hreported]; rfl)
      (by rw [written_append, quiet, hwritten]; rfl)

/-- A tracked message is acknowledged again, or opens an exchange and is reported before, or finds
no room for one. -/
theorem runOn_handlePublish {ρ : Scene ω} {packet : Packet} {m : Message}
    (hdecode : Message.decode ρ.session.version ρ.session.negotiated packet = .ok (id, m))
    (hm : m.qos.isTracked = true) :
    (handlePublish packet).runOn ρ =
      if (Record.find? id ρ.session.exchanges.incoming).isSome then
        (sendAck id (.owes m.qos.firstAck)).runOn { ρ with host := Act.trackedHost ρ.host }
      else if ρ.session.exchanges.incoming.length < ρ.session.exchanges.incomingCapacity then
        (sendAck id (.owes m.qos.firstAck)).runOn
          ⟨{ ρ.session with exchanges := { ρ.session.exchanges with
              incoming := ρ.session.exchanges.incoming ++ [⟨id, m.qos, .owes m.qos.firstAck⟩] } },
            Host.notify (m.event packet id) (Act.trackedHost ρ.host)⟩
      else some (.error .noMemory, { ρ with host := Act.trackedHost ρ.host }) := by
  have htracked := QoS.ne_atMostOnce_of_isTracked hm
  have hstep := ExchangeTable.onPublishReceived_eq ρ.session.exchanges id m.qos
  rw [← ExchangeTable.onPublish_received _ id htracked] at hstep
  rw [handlePublish, Act.runOn_bind_of_ok (Act.runOn_session _), hdecode,
    Act.runOn_bind_of_ok (Act.runOn_ofResult _ _), ← ExchangeState.opening_received hm]
  by_cases hfound : (Record.find? id ρ.session.exchanges.incoming).isSome
  · rw [if_pos hfound] at hstep ⊢
    rw [Act.runOn_bind_of_ok (openIncoming_again htracked hstep)]
    rfl
  · rw [if_neg hfound] at hstep ⊢
    by_cases hroom : ρ.session.exchanges.incoming.length < ρ.session.exchanges.incomingCapacity
    · rw [if_pos hroom] at hstep ⊢
      rw [Act.runOn_bind_of_ok (openIncoming_new htracked hstep)]
      rfl
    · rw [if_neg hroom] at hstep ⊢
      rw [Act.runOn_bind_of_error (openIncoming_noRoom htracked hstep)]

theorem handlePublish_inv {packet : Packet} {m : Message}
    (hdecode : Message.decode σ.session.version σ.session.negotiated packet = .ok (id, m))
    (hm : m.qos.isTracked = true) (h : (handlePublish packet).runOn σ = some (r, τ)) :
    ∃ calls, τ.host.calls = calls ++ σ.host.calls ∧
      Delivery σ.session.exchanges (m.event packet id) m.qos.firstAck r calls := by
  have hid := Message.id_ne_zero_of_decode hdecode hm
  rw [runOn_handlePublish hdecode hm] at h
  by_cases hfound : (Record.find? id σ.session.exchanges.incoming).isSome
  · rw [if_pos hfound] at h
    obtain ⟨calls, hcalls, hreported, hwrites⟩ :=
      sendAck_after (Watched.calls_trackedHost _) written_trackCalls rfl hid h
    rw [reported_trackCalls] at hreported
    exact ⟨calls, hcalls, .again hfound hreported hwrites⟩
  have hnew : Record.find? id σ.session.exchanges.incoming = none := by simpa using hfound
  rw [if_neg hfound] at h
  by_cases hroom : σ.session.exchanges.incoming.length < σ.session.exchanges.incomingCapacity
  · rw [if_pos hroom] at h
    obtain ⟨calls, hcalls, hreported, hwrites⟩ :=
      sendAck_after (Watched.calls_notify_trackedHost _ _) rfl rfl hid h
    exact ⟨calls, hcalls, .new hnew hroom hreported hwrites⟩
  · rw [if_neg hroom] at h
    cases h
    exact ⟨trackCalls, rfl, .noRoom hnew (Nat.not_lt.mp hroom) rfl rfl rfl⟩

/-! ## Calls -/

/-- A call reads, and has a whole packet at the front of the network buffer then. -/
structure Dispatches (managed : Bool) (packet : Packet) (σ υ : Scene (Watched ω)) : Prop where
  arrives : (arrive managed).runOn σ = some (.ok (), υ)
  whole : υ.session.wholePacket? = some packet

/-- The call ends as handling the packet ends. -/
theorem Dispatches.receive_inv {managed : Bool} {packet : Packet} {σ υ τ : Scene (Watched ω)}
    {r : Except Fault Progress} (h : Dispatches managed packet σ υ)
    (hrun : (receive managed).runOn σ = some (r, τ)) :
    ∃ r' τ' later, (dispatch managed packet).runOn υ = some (r', τ') ∧
      r = r'.map (fun _ => .packet packet.firstByte) ∧
      τ.session.exchanges = τ'.session.exchanges ∧ τ.host.calls = later ++ τ'.host.calls ∧
      written later = [] ∧ reported later = [] := by
  obtain ⟨header, rfl, hfront⟩ : ∃ header, packet = υ.session.frontPacket header ∧
      (handleBuffered managed).runOn υ = (handleFront managed header).runOn υ :=
    handleBuffered_whole h.whole
  rw [receive_eq, Act.runOn_bind_of_ok h.arrives, hfront] at hrun
  rcases handleFront_inv hrun with ⟨τ', hrun', -, -⟩ | ⟨fault, τ', hrun', -, -⟩
  · rw [handleFront_ok hrun'] at hrun
    cases hrun
    exact ⟨_, τ', [.now (Host.now τ'.host.host).1], hrun', rfl, rfl, rfl, rfl, rfl⟩
  · rw [handleFront_error hrun'] at hrun
    cases hrun
    exact ⟨_, τ', [], hrun', rfl, rfl, rfl, rfl, rfl⟩

/-- **What becomes of a message that arrives**, whatever its DUP flag. It is reported in the very
call that acknowledges it, unless its identifier was tracked before the call. A tracked
identifier is acknowledged as the message asks for it and not reported; a message under another
identifier is reported, even when its acknowledgement cannot be sent, or refused for lack of
room. Before all that the call may send a PINGREQ. -/
theorem receive_message {managed : Bool} {packet : Packet} {m : Message}
    {σ υ τ : Scene (Watched ω)} {r : Except Fault Progress}
    (h : Dispatches managed packet σ υ)
    (hpublish : PacketType.ofFirstByte? packet.firstByte = some .publish)
    (hdecode : Message.decode σ.session.version σ.session.negotiated packet = .ok (id, m))
    (hm : m.qos.isTracked = true) (hrun : (receive managed).runOn σ = some (r, τ)) :
    ∃ before after k, τ.host.calls = after ++ before ++ σ.host.calls ∧
      reported before = [] ∧ written before = Ping.request.take k ∧
      Delivery σ.session.exchanges (m.event packet id) m.qos.firstAck r after ∧
      ∀ ack, Ack.wire ack id <:+: written (after ++ before) →
        m.event packet id ∈ reported (after ++ before) ∨
          (Record.find? id σ.session.exchanges.incoming).isSome := by
  obtain ⟨hversion, hnegotiated, hexchanges, k, before, hbefore, hsilent, hping⟩ :=
    arrive_keeps h.arrives
  obtain ⟨r', τ', later, hhandle, rfl, -, hlater, hwritten, hreported⟩ := h.receive_inv hrun
  rw [dispatch, hpublish] at hhandle
  rw [← hversion, ← hnegotiated] at hdecode
  obtain ⟨calls, hcalls, hdelivery⟩ := handlePublish_inv hdecode hm hhandle
  rw [hexchanges] at hdelivery
  have hafter := hdelivery.append
    (fun _ => map_of_error fun _ => Progress.packet packet.firstByte) hreported hwritten
  refine ⟨before, later ++ calls, k, ?_, hsilent, hping, hafter, ?_⟩
  · rw [hlater, hcalls, hbefore]
    simp only [List.append_assoc]
  · intro ack hacked
    cases hafter with
    | again tracked _ _ => exact .inr tracked
    | new _ _ reports _ =>
      left
      rw [reported_append, reports]
      simp
    | noRoom _ _ _ _ quiet =>
      -- A PINGREQ is too short to hold an acknowledgement.
      have hlength := hacked.length_le
      rw [written_append, quiet, hping, List.append_nil, List.length_take] at hlength
      have hwire : (Ack.wire ack id).length = 4 := rfl
      have hrequest : Ping.request.length = 2 := rfl
      omega

/-- A message under identifier 9, to be delivered exactly once and without the DUP flag. -/
def nine (payload : UInt8) : Packet :=
  { firstByte := 0x34, remaining := 6, length := 2, data := [0, 1, 97, 0, 9, payload] }

/-- Two such messages on their way to a new session. -/
def twoOnTheirWay : Scene (Watched Scripted) where
  session := create 8 (.empty 0 1) .v311 {}
  host := { host := { incoming := [0x34, 6, 0, 1, 97, 0, 9, 55, 0x34, 6, 0, 1, 97, 0, 9, 56] } }

theorem receive_message_nine :
    ∃ υ r τ before after k, Dispatches false (nine 55) twoOnTheirWay υ ∧
      (receive false).runOn twoOnTheirWay = some (r, τ) ∧ τ.host.calls = after ++ before ∧
      reported before = [] ∧ written before = Ping.request.take k ∧
      Delivery (.empty 0 1) (Message.event (nine 55) 9
        { topic := "a", payload := [55], qos := .exactlyOnce }) .pubrec r after := by
  have harrives : ((arrive false).runOn twoOnTheirWay).map
      (fun p => (p.1, p.2.session.wholePacket?)) = some (.ok (), some (nine 55)) := by
    decide +kernel
  have hanswers : ((receive false).runOn twoOnTheirWay).isSome = true := by decide +kernel
  have hdecode : Message.decode .v311 {} (nine 55) =
      .ok (9, { topic := "a", payload := [55], qos := .exactlyOnce }) := by decide +kernel
  obtain ⟨⟨_, υ⟩, hυ, hfront⟩ := Option.map_eq_some_iff.mp harrives
  obtain ⟨rfl, hwhole⟩ := Prod.mk.inj hfront
  obtain ⟨⟨r, τ⟩, hrun⟩ := Option.isSome_iff_exists.mp hanswers
  obtain ⟨before, after, k, hcalls, hsilent, hping, hdelivery, -⟩ :=
    receive_message ⟨hυ, hwhole⟩ rfl hdecode rfl hrun
  rw [show twoOnTheirWay.host.calls = [] from rfl, List.append_nil] at hcalls
  exact ⟨υ, r, τ, before, after, k, ⟨hυ, hwhole⟩, hrun, hcalls, hsilent, hping, hdelivery⟩

/-- The first call. -/
def firstNine : Option (Except Fault Progress × Scene (Watched Scripted)) :=
  (receive false).runOn twoOnTheirWay

/-- The second message is acknowledged and not reported, although its DUP flag is clear and it is
another message than the first. -/
theorem second_nine_unreported :
    ∃ σ υ τ, firstNine = some (.ok (.packet 0x34), σ) ∧ Dispatches false (nine 56) σ υ ∧
      Message.decode σ.session.version σ.session.negotiated (nine 56) =
        .ok (9, { topic := "a", payload := [56], qos := .exactlyOnce, dup := false }) ∧
      (receive false).runOn σ = some (.ok (.packet 0x34), τ) ∧
      written τ.host.calls = written σ.host.calls ++ Ack.wire .pubrec 9 ∧
      reported τ.host.calls = reported σ.host.calls := by
  have hfirst : firstNine.map (·.1) = some (.ok (.packet 0x34)) := by decide +kernel
  have harrives : firstNine.map (fun p => ((arrive false).runOn p.2).map fun q =>
      (q.1, q.2.session.wholePacket?)) = some (some (.ok (), some (nine 56))) := by decide +kernel
  have hdecode : firstNine.map (fun p => Message.decode p.2.session.version
      p.2.session.negotiated (nine 56)) =
      some (.ok (9, { topic := "a", payload := [56], qos := .exactlyOnce })) := by decide +kernel
  have hsecond : firstNine.map (fun p => ((receive false).runOn p.2).map fun q =>
      (q.1, decide (written q.2.host.calls = written p.2.host.calls ++ Ack.wire .pubrec 9 ∧
        reported q.2.host.calls = reported p.2.host.calls))) =
      some (some (.ok (.packet 0x34), true)) := by decide +kernel
  obtain ⟨⟨_, σ⟩, hσ, rfl⟩ := Option.map_eq_some_iff.mp hfirst
  rw [hσ] at harrives hdecode hsecond
  obtain ⟨⟨_, υ⟩, hυ, hfront⟩ := Option.map_eq_some_iff.mp (Option.some.inj harrives)
  obtain ⟨rfl, hwhole⟩ := Prod.mk.inj hfront
  obtain ⟨⟨_, τ⟩, hτ, hsame⟩ := Option.map_eq_some_iff.mp (Option.some.inj hsecond)
  obtain ⟨rfl, hsame⟩ := Prod.mk.inj hsame
  exact ⟨σ, υ, τ, hσ, ⟨hυ, hwhole⟩, Option.some.inj hdecode, hτ, of_decide_eq_true hsame⟩

end Session

end MqttClient
