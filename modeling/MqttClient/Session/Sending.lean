import MqttClient.Session.Basic

/-!
# Sending packets

A packet is sent as spans of bytes, offered to the host again and again until all of them are
taken or too much time has passed. `Spans.advance` keeps track of what is left.
-/
namespace MqttClient

namespace Spans

/-- The number of bytes in spans. -/
def size (spans : List Bytes) : Nat := spans.foldr (fun span n => span.length + n) 0

/-- Drop `n` bytes from the front of spans, and with them the spans that they use up. -/
def advance : Nat → List Bytes → List Bytes
  | 0, spans => spans
  | _ + 1, [] => []
  | n + 1, span :: rest =>
    if span.length ≤ n + 1 then advance (n + 1 - span.length) rest
    else span.drop (n + 1) :: rest

end Spans

namespace Session
variable {ω : Type} [Host ω]

/-- Offer spans until their `left` bytes are taken, in at most `n` writes. After an incomplete
write the time since `start` must still be below the limit. -/
def offer (n : Nat) (start : UInt32) (left : Nat) (spans : List Bytes) : Act ω Unit := do
  if left = 0 then return
  match n with
  | 0 => Act.stall
  | n + 1 =>
    let spans := spans.dropWhile List.isEmpty
    match ← Act.guarded (Act.host (Host.write spans)) with
    | none => throw .sendFailed
    | some count =>
      let sent := min count left
      if sent < left then
        let elapsed := (← Act.now) - start
        if (← Act.session).settings.sendTimeout ≤ elapsed then throw .sendFailed
      offer n start (left - sent) (Spans.advance sent spans)

/-- Send spans as one packet and note the time. -/
def send (spans : List Bytes) : Act ω Unit := do
  let start ← Act.now
  let total := Spans.size spans
  offer (Host.patience (← get).host + total) start total spans
  if !(← Act.host Host.flush) then throw .sendFailed
  let now ← Act.now
  Act.change fun s => { s with lastTx := now }

/-- Send packets one after another. -/
def sendAll : List (List Bytes) → Act ω Unit
  | [] => pure ()
  | spans :: rest => do
    send spans
    sendAll rest

/-- Send the acknowledgement that an exchange owes, if any, and note it. -/
def sendAck (id : UInt16) (state : ExchangeState) : Act ω Unit := do
  match state.ackToSend with
  | none => return
  | some ack =>
    let bytes ← Act.ofResult (Ack.serialize ack.packetType.firstByte id 4)
    send [bytes]
    let _ ← Act.ofResult (← Act.track fun t => t.onAck id ack .sent)

end Session

end MqttClient
