import MqttClient.Packet.Header
import MqttClient.Wire.Layout

/-!
# PINGREQ and PINGRESP
-/
namespace MqttClient.Ping

/-- The question. -/
def request : Bytes := [PacketType.pingreq.firstByte, 0]

/-- Write a PINGREQ into `capacity` bytes. -/
def serialize (capacity : Nat) : Except Fault Bytes := Layout.fit capacity [request]

/-- Check a PINGRESP, which is a header and nothing else. -/
def checkResponse (packet : Packet) : Except Fault Unit :=
  if kindBits packet.firstByte ≠ PacketType.pingresp.firstByte then .error .badParameter
  else if packet.remaining ≠ 0 then .error .badResponse
  else .ok ()

end MqttClient.Ping
