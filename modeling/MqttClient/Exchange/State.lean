import MqttClient.Packet.Ack

/-!
# Exchanges

A tracked message opens an exchange that its packet identifier names until the last
acknowledgement. `ExchangeState` says what comes next in it, `ExchangeState.opening` where it
begins, and `ExchangeState.onAck` how one acknowledgement moves it on.
-/
namespace MqttClient

/-- Which way a packet travels. -/
inductive Direction where
  /-- From the client to the broker. -/
  | sent
  /-- From the broker to the client. -/
  | received
  deriving DecidableEq

/-- Whose message an exchange is about. -/
inductive Side where
  /-- A message that the client publishes. -/
  | outgoing
  /-- A message that the broker forwards. -/
  | incoming
  deriving DecidableEq

/-- What comes next in an exchange. -/
inductive ExchangeState where
  /-- The client has an identifier but has not sent the message. -/
  | reserved
  /-- The client is to send this acknowledgement. -/
  | owes (ack : AckKind)
  /-- The client waits for this acknowledgement. -/
  | awaits (ack : AckKind)
  /-- Nothing: the exchange is over. -/
  | complete
  deriving DecidableEq

/-- The side whose exchange an acknowledgement belongs to. -/
def AckKind.side : AckKind → Direction → Side
  | puback, .received | pubrec, .received | pubcomp, .received | pubrel, .sent => .outgoing
  | puback, .sent | pubrec, .sent | pubcomp, .sent | pubrel, .received => .incoming

namespace ExchangeState

/-- The acknowledgement that the client is to send, if any. -/
def ackToSend : ExchangeState → Option AckKind
  | owes ack => some ack
  | _ => none

/-- The state in which a message leaves its exchange when it is sent or received. -/
def opening : Direction → QoS → ExchangeState
  | _, .atMostOnce => complete
  | .sent, .atLeastOnce => awaits .puback
  | .sent, .exactlyOnce => awaits .pubrec
  | .received, .atLeastOnce => owes .puback
  | .received, .exactlyOnce => owes .pubrec

/-- Whether an exchange may have its message sent, for the first time or again. -/
def canPublish : ExchangeState → Bool
  | reserved | awaits .puback | awaits .pubrec => true
  | _ => false

/-- Whether an exchange is to have its PUBREL sent again when a session resumes. -/
def resumesWithPubrel : ExchangeState → Bool
  | owes .pubrel | awaits .pubcomp => true
  | _ => false

/-- How an acknowledgement moves an exchange on. The client may repeat its PUBREC and PUBREL
while it waits for the answer, and a repeated PUBREL from the broker is answered again. -/
def onAck : AckKind → Direction → ExchangeState → Option ExchangeState
  | .puback, .received, awaits .puback => some complete
  | .pubrec, .received, awaits .pubrec => some (owes .pubrel)
  | .pubrel, .sent, owes .pubrel => some (awaits .pubcomp)
  | .pubrel, .sent, awaits .pubcomp => some (awaits .pubcomp)
  | .pubcomp, .received, awaits .pubcomp => some complete
  | .puback, .sent, owes .puback => some complete
  | .pubrec, .sent, owes .pubrec => some (awaits .pubrel)
  | .pubrec, .sent, awaits .pubrel => some (awaits .pubrel)
  | .pubrel, .received, awaits .pubrel => some (owes .pubcomp)
  | .pubrel, .received, owes .pubcomp => some (owes .pubcomp)
  | .pubcomp, .sent, owes .pubcomp => some complete
  | _, _, _ => none

end ExchangeState

end MqttClient
