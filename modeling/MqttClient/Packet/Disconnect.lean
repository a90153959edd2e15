import MqttClient.Packet.Header
import MqttClient.Packet.Reason
import MqttClient.Property.Basic
import MqttClient.Wire.Layout

/-!
# DISCONNECT

A client may end a session with a bare packet or, on MQTT 5, with a reason code and properties.
An MQTT 5 server may end it too.
-/
namespace MqttClient

/-- A DISCONNECT of the server. -/
structure Disconnect where
  /-- The reason code; success where the packet leaves it out. -/
  reason : UInt8
  /-- The property region. -/
  properties : Bytes := []
  deriving DecidableEq

namespace Disconnect

/-- The bare packet. -/
def bare : Bytes := [PacketType.disconnect.firstByte, 0]

/-- Write a bare DISCONNECT into `capacity` bytes. -/
def serialize (capacity : Nat) : Except Fault Bytes := Layout.fit capacity [bare]

/-- The properties that a client may send. -/
def clientMayCarry : PropertyId → Bool
  | .sessionExpiry | .reasonString | .userProperty => true
  | _ => false

/-- The properties that a server may send. -/
def serverMayCarry : PropertyId → Bool
  | .reasonString | .serverReference | .userProperty => true
  | _ => false

/-- Validate a reason code and properties and count their DISCONNECT. -/
def size (reason : UInt8) (properties : Bytes) (max : UInt32) : Except Fault PacketSize :=
  if !Reason.clientMayDisconnect reason || !(Property.walk properties).within clientMayCarry then
    .error .badParameter
  else
    let remaining :=
      if properties.isEmpty then (if reason = Reason.success then 0 else 1)
      else 1 + Property.regionSize properties
    PacketSize.checked remaining max

/-- The two spans of a DISCONNECT: everything up to the property length, and the properties. -/
def spans (reason : UInt8) (properties : Bytes) (size : PacketSize) :
    Except Fault (List Bytes) := do
  let count ← VarInt.encode size.remaining
  let regionLength ← if properties.isEmpty then pure [] else VarInt.encode properties.length
  let code := if 0 < size.remaining then [reason] else []
  return [PacketType.disconnect.firstByte :: count ++ code ++ regionLength, properties]

/-- Write a DISCONNECT with a reason code and properties into `capacity` bytes. -/
def serializeWithReason (reason : UInt8) (properties : Bytes) (size : PacketSize)
    (capacity : Nat) : Except Fault Bytes := do
  if capacity < size.total then throw .noMemory
  Layout.fit capacity (← spans reason properties size)

/-- Read the property region of a server's DISCONNECT. -/
def readRegion : Reader Bytes := do
  let region ← Reader.region
  if (Property.walk region).within serverMayCarry then return region else Reader.refuse

/-- Read the fields of a server's DISCONNECT with `remaining` bytes after its header. -/
def read (remaining : Nat) : Reader Disconnect := do
  let reason ← if 0 < remaining then Reader.byte else pure Reason.success
  if Reason.serverMayDisconnect reason = false then Reader.refuse
  let properties ← if 1 < remaining then readRegion else pure []
  Reader.done
  return { reason, properties }

/-- Decode a server's DISCONNECT. -/
def decode (packet : Packet) : Except Fault Disconnect :=
  (read packet.remaining).run' packet.data

/-- The server's diagnostic. -/
def reasonString? (d : Disconnect) : Option String :=
  Property.find? .reasonString (Property.walk d.properties).properties

/-- Another server that the client may use. -/
def serverReference? (d : Disconnect) : Option String :=
  Property.find? .serverReference (Property.walk d.properties).properties

end Disconnect

end MqttClient
