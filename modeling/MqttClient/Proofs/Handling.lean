import MqttClient.Session.Dispatch

/-!
# Comparing how packets are handled

Of a session, handling a packet reads the version and the negotiated values alone, and it is made
of a few kinds of steps. A comparison of operations that respects those (`Session.Handles`) holds
between handling a packet here and handling the same packet there (`Handles.dispatch`).
-/
namespace MqttClient.Session
variable {ω : Type} [Host ω]

/-- A comparison of operations that goes through all that handling a packet is made of. -/
structure Handles (M : ∀ α, Act ω α → Act ω α → Prop) : Prop where
  pure : ∀ {α : Type} (a : α), M α (Pure.pure a) (Pure.pure a)
  throw : ∀ {α : Type} (fault : Fault), M α (MonadExcept.throw fault) (MonadExcept.throw fault)
  bind : ∀ {α β : Type} {act act' : Act ω α} {f f' : α → Act ω β}, M α act act' →
    (∀ a, M β (f a) (f' a)) → M β (act >>= f) (act' >>= f')
  session_bind : ∀ {α : Type} {f f' : Session → Act ω α},
    (∀ s s', s'.version = s.version → s'.negotiated = s.negotiated → M α (f s) (f' s')) →
      M α (Act.session >>= f) (Act.session >>= f')
  report : ∀ event, M Unit (report event) (report event)
  track : ∀ {α : Type} (step : ExchangeTable → Except Fault (α × ExchangeTable)),
    M (Except Fault α) (Act.track step) (Act.track step)
  sendAck : ∀ id state, M Unit (sendAck id state) (sendAck id state)
  answered : M Unit (Act.change fun s => { s with awaitsPingresp := false })
    (Act.change fun s => { s with awaitsPingresp := false })
  ended : M Unit (Act.change fun s => { s with status := .notConnected })
    (Act.change fun s => { s with status := .notConnected })

namespace Handles
variable {M : ∀ α, Act ω α → Act ω α → Prop}

theorem ofResult (h : Handles M) {α : Type} (r : Except Fault α) :
    M α (Act.ofResult r) (Act.ofResult r) := by
  cases r with
  | error fault => exact h.throw fault
  | ok a => exact h.pure a

theorem openIncoming (h : Handles M) (id : UInt16) (qos : QoS) :
    M (ExchangeState × Bool) (Session.openIncoming id qos) (Session.openIncoming id qos) := by
  rw [Session.openIncoming]
  split
  · exact h.pure _
  · refine h.bind (h.track _) fun result => ?_
    split
    · exact h.pure _
    · exact h.pure _
    · exact h.throw _

theorem handlePublish (h : Handles M) (packet : Packet) :
    M Unit (Session.handlePublish packet) (Session.handlePublish packet) := by
  refine h.session_bind fun s s' hversion hnegotiated => ?_
  rw [hversion, hnegotiated]
  refine h.bind (h.ofResult _) fun (id, message) => h.bind (h.openIncoming id message.qos) ?_
  rintro ⟨state, isNew⟩
  cases isNew with
  | true => exact h.bind (h.report _) fun _ => h.sendAck id state
  | false => exact h.sendAck id state

theorem settleAck (h : Handles M) (id : UInt16) (ack : AckKind) (verdict : Verdict) :
    M ExchangeState (Session.settleAck id ack verdict) (Session.settleAck id ack verdict) := by
  rw [Session.settleAck]
  split <;> exact h.bind (h.track _) fun result => h.ofResult result

theorem handleAck (h : Handles M) (packet : Packet) (kind : AckKind) :
    M Unit (Session.handleAck packet kind) (Session.handleAck packet kind) := by
  refine h.session_bind fun s s' hversion hnegotiated => ?_
  rw [hversion, hnegotiated]
  refine h.bind (h.ofResult _) fun ack => ?_
  cases ack.verdict (kindBits packet.firstByte) with
  | none => exact h.throw _
  | some verdict =>
    exact h.bind (h.settleAck ack.packetId kind verdict) fun state =>
      h.bind (h.report _) fun _ => h.sendAck ack.packetId state

theorem handlePingresp (h : Handles M) (managed : Bool) (packet : Packet) :
    M Unit (Session.handlePingresp managed packet) (Session.handlePingresp managed packet) := by
  refine h.bind (h.ofResult _) fun _ => ?_
  cases managed with
  | true => exact h.answered
  | false => exact h.report _

theorem handleSuback (h : Handles M) (packet : Packet) :
    M Unit (Session.handleSuback packet) (Session.handleSuback packet) := by
  refine h.session_bind fun s s' hversion _ => ?_
  rw [hversion]
  refine h.bind (h.ofResult _) fun suback => ?_
  cases suback.verdict (kindBits packet.firstByte) s.version with
  | none => exact h.throw _
  | some verdict => exact h.report _

theorem handleDisconnect (h : Handles M) (packet : Packet) :
    M Unit (Session.handleDisconnect packet) (Session.handleDisconnect packet) :=
  h.bind (h.ofResult _) fun _ => h.bind (h.report _) fun _ => h.ended

/-- Handling a packet, one case for each type of packet. -/
theorem dispatch (h : Handles M) (managed : Bool) (packet : Packet) :
    M Unit (Session.dispatch managed packet) (Session.dispatch managed packet) := by
  rw [Session.dispatch]
  split
  · exact h.handlePublish packet
  · exact h.handleAck packet .puback
  · exact h.handleAck packet .pubrec
  · exact h.handleAck packet .pubrel
  · exact h.handleAck packet .pubcomp
  · exact h.handlePingresp managed packet
  · exact h.handleSuback packet
  · exact h.handleSuback packet
  · refine h.session_bind fun s s' hversion _ => ?_
    rw [hversion]
    split
    · exact h.handleDisconnect packet
    · exact h.throw _
  · exact h.throw _

end Handles

end MqttClient.Session
