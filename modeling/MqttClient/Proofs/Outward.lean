import Mathlib.Data.Nat.Notation
import MqttClient.Proofs.Exchange.Flow
import MqttClient.Proofs.Keeping
import MqttClient.Session.Connecting
import MqttClient.Session.Dispatch
import MqttClient.Session.Publishing
import MqttClient.Session.Subscribing

/-!
# Operations that only send, track and report

Most operations change a session in two ways only: they send packets and they update the
exchanges. A relation between scenes that is kept by either, and by a report, is kept by all of
them (`Session.Outward`).
-/
namespace MqttClient.Session
variable {ω : Type} [Host ω] {R : Scene ω → Scene ω → Prop} [IsPreorder (Scene ω) R]

/-! ## Sending alone -/

section
variable (hwrite : ∀ spans, Act.Keeps R (Act.guarded (Act.host (Host.write spans))))
  (hnow : Act.Keeps R Act.now)
include hwrite hnow

/-- Spans are offered by guarded writes and looks at the clock. -/
theorem offer_keeps (n : ℕ) (start : UInt32) (left : ℕ) (spans : List Bytes) :
    Act.Keeps R (offer n start left spans) := by
  induction n generalizing left spans with
  | zero =>
    rw [offer]
    exact .ite (.pure _) .stall
  | succ n ih =>
    rw [offer]
    refine .ite (.pure _) <| (hwrite _).bind fun answer => ?_
    cases answer with
    | none => exact .throw _
    | some count =>
      exact .ite (hnow.bind fun _ => Act.Keeps.session.bind fun _ => .check (ih _ _)) (ih _ _)

/-- A packet is sent by offering it, a flush and a note of the time. -/
theorem send_keeps (hflush : Act.Keeps R (Act.host Host.flush))
    (hstamp : ∀ t, Act.Keeps R (Act.change fun s => { s with lastTx := t })) (spans : List Bytes) :
    Act.Keeps R (send spans) :=
  hnow.bind fun _ => Act.Keeps.get.bind fun _ =>
    (offer_keeps hwrite hnow _ _ _ _).bind fun _ => hflush.bind fun _ =>
      .check <| hnow.bind fun _ => hstamp _

end

section
variable (hsend : ∀ spans, Act.Keeps R (send spans))
include hsend

theorem sendAll_keeps (packets : List (List Bytes)) : Act.Keeps R (sendAll packets) := by
  induction packets with
  | nil => exact .pure _
  | cons spans rest ih => exact (hsend spans).bind fun _ => ih

theorem subscribe_keeps (subscriptions : List Subscription) (properties : Bytes) (id : UInt16) :
    Act.Keeps R (subscribe subscriptions properties id) :=
  Act.Keeps.session.bind fun _ => .check <| (Act.Keeps.ofResult _).bind fun _ =>
    (Act.Keeps.ofResult _).bind fun _ => sendAll_keeps hsend _

theorem unsubscribe_keeps (filters : List String) (properties : Bytes) (id : UInt16) :
    Act.Keeps R (unsubscribe filters properties id) :=
  Act.Keeps.session.bind fun _ => .check <| (Act.Keeps.ofResult _).bind fun _ =>
    (Act.Keeps.ofResult _).bind fun _ => sendAll_keeps hsend _

end

/-! ## Handling packets -/

/-- A relation that is kept by sending an acknowledgement, by every request to the exchanges and
by reporting, which is all that handling a packet takes. -/
structure Answering (R : Scene ω → Scene ω → Prop) : Prop where
  sendAck : ∀ id state, Act.Keeps R (Session.sendAck id state)
  track : ∀ {α : Type} {step : ExchangeTable → Except Fault (α × ExchangeTable)},
    ExchangeTable.IsRequest step → Act.Keeps R (Act.track step)
  report : ∀ event, Act.Keeps R (Session.report event)

namespace Answering

theorem openIncoming (h : Answering R) (id : UInt16) (qos : QoS) :
    Act.Keeps R (Session.openIncoming id qos) := by
  refine .ite (.pure _) ((h.track ExchangeTable.isRequest_onPublish).bind fun result => ?_)
  split
  · exact .pure _
  · exact .pure _
  · exact .throw _

theorem handlePublish (h : Answering R) (packet : Packet) :
    Act.Keeps R (Session.handlePublish packet) :=
  Act.Keeps.session.bind fun _ => (Act.Keeps.ofResult _).bind fun _ =>
    (h.openIncoming _ _).bind fun _ =>
      .ite ((h.report _).bind fun _ => h.sendAck _ _) (h.sendAck _ _)

theorem settleAck (h : Answering R) (id : UInt16) (ack : AckKind) (verdict : Verdict) :
    Act.Keeps R (Session.settleAck id ack verdict) :=
  .ite ((h.track ExchangeTable.isRequest_remove).bind fun _ => .ofResult _)
    ((h.track ExchangeTable.isRequest_onAck).bind fun _ => .ofResult _)

theorem handleAck (h : Answering R) (packet : Packet) (kind : AckKind) :
    Act.Keeps R (Session.handleAck packet kind) := by
  refine Act.Keeps.session.bind fun _ => (Act.Keeps.ofResult _).bind fun ack => ?_
  split
  · exact .throw _
  · exact (h.settleAck _ _ _).bind fun _ => (h.report _).bind fun _ => h.sendAck _ _

theorem handleSuback (h : Answering R) (packet : Packet) :
    Act.Keeps R (Session.handleSuback packet) := by
  refine Act.Keeps.session.bind fun _ => (Act.Keeps.ofResult _).bind fun suback => ?_
  split
  · exact .throw _
  · exact h.report _

/-- A PINGRESP may end the wait for it, and a DISCONNECT ends the session. -/
theorem dispatch (h : Answering R) (managed : Bool) (packet : Packet)
    (hanswer : Act.Keeps R (Act.change fun s => { s with awaitsPingresp := false }))
    (hend : PacketType.ofFirstByte? packet.firstByte = some .disconnect →
      Act.Keeps R (Act.change fun s => { s with status := .notConnected })) :
    Act.Keeps R (Session.dispatch managed packet) := by
  have hpingresp : Act.Keeps R (handlePingresp managed packet) :=
    (Act.Keeps.ofResult _).bind fun _ => .ite hanswer (h.report _)
  rw [Session.dispatch]
  split
  · exact h.handlePublish packet
  · exact h.handleAck packet _
  · exact h.handleAck packet _
  · exact h.handleAck packet _
  · exact h.handleAck packet _
  · exact hpingresp
  · exact h.handleSuback packet
  · exact h.handleSuback packet
  · rename_i hdisconnect
    have hended : Act.Keeps R (handleDisconnect packet) :=
      (Act.Keeps.ofResult _).bind fun _ => (h.report _).bind fun _ => hend hdisconnect
    exact Act.Keeps.session.bind fun _ => .ite hended (.throw _)
  · exact .throw _

end Answering

/-! ## Calls -/

/-- A relation that is kept by sending a packet, by every request to the exchanges and by
reporting. -/
structure Outward (R : Scene ω → Scene ω → Prop) : Prop where
  send : ∀ spans, Act.Keeps R (Session.send spans)
  track : ∀ {α : Type} {step : ExchangeTable → Except Fault (α × ExchangeTable)},
    ExchangeTable.IsRequest step → Act.Keeps R (Act.track step)
  report : ∀ event, Act.Keeps R (Session.report event)

namespace Outward

omit [IsPreorder (Scene ω) R] in
theorem mono {R' : Scene ω → Scene ω → Prop} (h : Outward R) (hR : ∀ σ τ, R σ τ → R' σ τ) :
    Outward R' where
  send spans := (h.send spans).mono hR
  track hstep := (h.track hstep).mono hR
  report event := (h.report event).mono hR

theorem sendAck (h : Outward R) (id : UInt16) (state : ExchangeState) :
    Act.Keeps R (Session.sendAck id state) := by
  rw [Session.sendAck]
  split
  · exact .pure _
  · exact (Act.Keeps.ofResult _).bind fun _ => (h.send _).bind fun _ =>
      (h.track ExchangeTable.isRequest_onAck).bind fun _ =>
        (Act.Keeps.ofResult _).bind fun _ => .pure _

theorem answering (h : Outward R) : Answering R := ⟨h.sendAck, h.track, h.report⟩

theorem publish (h : Outward R) (m : Message) (id : UInt16) :
    Act.Keeps R (Session.publish m id) := by
  have hopen : Act.Keeps R (openOutgoing m id) := by
    refine (h.track ExchangeTable.isRequest_reserve).bind fun result => ?_
    split
    · exact .pure _
    · exact .ite (.pure _) (.throw _)
  refine Act.Keeps.session.bind fun _ => .check <| (Act.Keeps.ofResult _).bind fun _ =>
    (Act.Keeps.ofResult _).bind fun _ => ?_
  extract_lets afterOpening
  have hafter : ∀ u, Act.Keeps R (afterOpening u) := fun _ => (h.send _).bind fun _ =>
    .ite ((h.track ExchangeTable.isRequest_onPublish).bind fun _ =>
      (Act.Keeps.ofResult _).bind fun _ => .pure _) (.pure _)
  exact .ite (hopen.bind hafter) (hafter ())

theorem resendPubrels (h : Outward R) (n cursor : ℕ) :
    Act.Keeps R (Session.resendPubrels n cursor) := by
  induction n generalizing cursor with
  | zero => exact .pure _
  | succ n ih =>
    rw [Session.resendPubrels]
    refine Act.Keeps.session.bind fun s => ?_
    split
    · exact .pure _
    · exact (h.sendAck _ _).bind fun _ => ih _

theorem resume (h : Outward R) (present : Bool) : Act.Keeps R (Session.resume present) :=
  .ite (Act.Keeps.session.bind fun _ => h.resendPubrels _ _)
    ((h.track ExchangeTable.isRequest_clear).bind fun _ => .pure _)

end Outward

end MqttClient.Session
