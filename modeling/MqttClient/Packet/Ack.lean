import MqttClient.Packet.Header
import MqttClient.Packet.Reason
import MqttClient.Property.Basic
import MqttClient.Wire.Layout

/-!
# PUBACK, PUBREC, PUBREL and PUBCOMP

The four acknowledgements of a message. All carry a packet identifier; on MQTT 5 a reason code
and properties may follow, and a plain success may leave both out.
-/
namespace MqttClient

/-- The acknowledgements of a message. -/
inductive AckKind where
  /-- The answer to a message delivered at least once. -/
  | puback
  /-- The first answer to a message delivered exactly once. -/
  | pubrec
  /-- The sender's reply to `pubrec`. -/
  | pubrel
  /-- The last step of the handshake. -/
  | pubcomp
  deriving DecidableEq

namespace AckKind

/-- The packet type of an acknowledgement. -/
def packetType : AckKind → PacketType
  | puback => .puback
  | pubrec => .pubrec
  | pubrel => .pubrel
  | pubcomp => .pubcomp

/-- The acknowledgement that a first byte names, whatever its flags. -/
def ofFirstByte? (b : UInt8) : Option AckKind :=
  match PacketType.ofFirstByte? b with
  | some .puback => some puback
  | some .pubrec => some pubrec
  | some .pubrel => some pubrel
  | some .pubcomp => some pubcomp
  | _ => none

end AckKind

/-- A decoded acknowledgement. -/
structure Ack where
  packetId : UInt16
  /-- The reason code; success where the packet leaves it out. -/
  reason : UInt8 := Reason.success
  /-- The property region. -/
  properties : Bytes := []
  deriving DecidableEq

namespace Ack

/-- The first bytes with which an acknowledgement is sent. -/
def firstBytes : List UInt8 :=
  [PacketType.puback.firstByte, PacketType.pubrec.firstByte, PacketType.pubrel.firstByte,
    PacketType.pubcomp.firstByte]

/-- Whether an acknowledgement with this first byte and identifier can be sent. -/
def canSend (firstByte : UInt8) (id : UInt16) : Bool := firstBytes.contains firstByte && id != 0

/-- Write a plain acknowledgement into `capacity` bytes. -/
def serialize (firstByte : UInt8) (id : UInt16) (capacity : Nat) : Except Fault Bytes :=
  if canSend firstByte id then Layout.fit capacity [firstByte :: 2 :: Bytes.ofWord id]
  else .error .badParameter

/-- Count an acknowledgement with a reason code and properties. -/
def size (reason : UInt8) (properties : Bytes) (max : UInt32) : Except Fault PacketSize :=
  let remaining :=
    if properties.isEmpty then (if reason = Reason.success then 2 else 3)
    else 3 + Property.regionSize properties
  PacketSize.checked remaining max

/-- Write an acknowledgement with a reason code and properties into `capacity` bytes. -/
def serializeWithReason (firstByte : UInt8) (id : UInt16) (reason : UInt8) (properties : Bytes)
    (size : PacketSize) (capacity : Nat) : Except Fault Bytes := do
  if !canSend firstByte id then throw .badParameter
  if capacity < size.total then throw .noMemory
  let count ← VarInt.encode size.remaining
  let regionLength ← if properties.isEmpty then pure [] else VarInt.encode properties.length
  let code := if 2 < size.remaining then [reason] else []
  Layout.fit capacity [firstByte :: count ++ Bytes.ofWord id ++ code ++ regionLength, properties]

/-- The properties that an answer to a message or a subscription may carry. -/
def mayCarry : PropertyId → Bool
  | .reasonString | .userProperty => true
  | _ => false

/-- Read a property region with nothing but diagnostics. -/
def readDiagnostics : Reader Bytes := do
  let region ← Reader.region
  if (Property.walk region).within mayCarry then return region else Reader.refuse

/-- Read the fields of an acknowledgement with `remaining` bytes after its header. Properties
are refused where the client did not ask for problem information. -/
def read (remaining : Nat) (problemInfo : Bool) : Reader Ack := do
  let packetId ← Reader.word
  if packetId = 0 then Reader.refuse
  let reason ← if 2 < remaining then Reader.byte else pure Reason.success
  if 3 < remaining ∧ problemInfo = false then Reader.refuse
  let properties ← if 3 < remaining then readDiagnostics else pure []
  Reader.done
  return { packetId, reason, properties }

/-- Decode an acknowledgement. Its reason code is not looked at. -/
def decode (version : Version) (problemInfo : Bool) (packet : Packet) : Except Fault Ack :=
  if !version.hasProperties ∧ packet.remaining ≠ 2 then .error .badResponse
  else (read packet.remaining problemInfo).run' packet.data

/-- What the reason code of an acknowledgement means, given its first byte without flags. -/
def verdict (a : Ack) (kind : UInt8) : Option Verdict :=
  if kind = PacketType.puback.firstByte ∨ kind = PacketType.pubrec.firstByte then
    Reason.publish a.reason
  else Reason.release a.reason

/-- The server's diagnostic. -/
def reasonString? (a : Ack) : Option String :=
  Property.find? .reasonString (Property.walk a.properties).properties

end Ack

end MqttClient
