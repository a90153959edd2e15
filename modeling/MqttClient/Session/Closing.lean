import MqttClient.Packet.Disconnect
import MqttClient.Session.Sending

/-!
# Disconnecting

The transport stays open; closing it is the host's affair.
-/
namespace MqttClient.Session
variable {ω : Type} [Host ω]

/-- Forget what belongs to the connection that has ended. -/
def close (s : Session) : Session :=
  { s.resetBuffer with status := .notConnected, awaitsPingresp := false }

/-- Disconnect. -/
def disconnect : Act ω Unit := do
  send [Disconnect.bare]
  Act.change close

/-- Disconnect with a reason code and properties, which takes MQTT 5. -/
def disconnectWithReason (reason : UInt8) (properties : Bytes) : Act ω Unit := do
  let s ← Act.session
  if !s.version.hasProperties then throw .badParameter
  let size ← Act.ofResult
    (Disconnect.size reason properties s.negotiated.serverMaxPacketSize)
  send (← Act.ofResult (Disconnect.spans reason properties size))
  Act.change close

end MqttClient.Session
