import MqttClient.Fault

/-!
# Protocol revisions and delivery guarantees
-/
namespace MqttClient

/-- The revision of the protocol spoken on a connection. -/
inductive Version where
  /-- MQTT 3.1.1. -/
  | v311
  /-- MQTT 5. -/
  | v5
  deriving DecidableEq, Inhabited

namespace Version

/-- The protocol level announced by CONNECT. -/
def level : Version → UInt8
  | v311 => 4
  | v5 => 5

/-- Whether packets of this revision carry property regions. -/
def hasProperties : Version → Bool
  | v311 => false
  | v5 => true

end Version

/-- How hard sender and receiver try to hand a message over. -/
inductive QoS where
  /-- No acknowledgement. -/
  | atMostOnce
  /-- Acknowledged by one packet. -/
  | atLeastOnce
  /-- Acknowledged by a handshake of three packets. -/
  | exactlyOnce
  deriving DecidableEq, Inhabited

namespace QoS

/-- The number of a guarantee on the wire. -/
def code : QoS → UInt8
  | atMostOnce => 0
  | atLeastOnce => 1
  | exactlyOnce => 2

/-- The guarantee of a number. -/
def ofCode (code : UInt8) : Except Fault QoS :=
  if code = 0 then .ok atMostOnce
  else if code = 1 then .ok atLeastOnce
  else if code = 2 then .ok exactlyOnce
  else .error .badParameter

/-- Whether a message with this guarantee opens an exchange of acknowledgements. -/
def isTracked : QoS → Bool
  | atMostOnce => false
  | atLeastOnce | exactlyOnce => true

end QoS

end MqttClient
