import MqttClient.Negotiated
import MqttClient.Topic
import MqttClient.Wire.Layout

/-!
# PUBLISH

A `Message` is what a PUBLISH carries, and also the will of a CONNECT. Sending takes two
phases: `Message.size` validates and counts, and `Message.serialize` lays out the bytes for a
size that it trusts. `Message.decode` reads an incoming one.
-/
namespace MqttClient

/-- An application message and how it is published. -/
structure Message where
  topic : String
  payload : Bytes := []
  qos : QoS := .atMostOnce
  /-- Whether the broker keeps the message for later subscribers. -/
  retain : Bool := false
  /-- Whether an earlier attempt may have arrived. -/
  dup : Bool := false
  /-- The property region, empty before MQTT 5. -/
  properties : Bytes := []
  deriving DecidableEq

namespace Message

/-- The flag bit for retained messages. -/
def retainFlag : UInt8 := 0x01

/-- The flag bit for repeated attempts. -/
def dupFlag : UInt8 := 0x08

/-- The flag bits of a guarantee. -/
def qosFlags : QoS → UInt8
  | .atMostOnce => 0x00
  | .atLeastOnce => 0x02
  | .exactlyOnce => 0x04

/-- The flags in the first byte of a PUBLISH. -/
def flags (m : Message) : UInt8 :=
  qosFlags m.qos ||| (if m.retain then retainFlag else 0) ||| (if m.dup then dupFlag else 0)

/-- The topic as bytes. -/
def topicBytes (m : Message) : Bytes := Bytes.ofText m.topic

/-- Whether the property region assigns a topic alias before its first fault. -/
def hasTopicAlias (m : Message) : Bool :=
  (Property.walk m.properties).properties.any fun p => p.id == .topicAlias

/-- Whether a message can be published, its size apart. An empty topic needs an alias. -/
def isValid (version : Version) (m : Message) : Bool :=
  !(m.dup && m.qos == .atMostOnce) &&
    (version.hasProperties || m.properties.isEmpty) &&
    m.topicBytes.length ≤ Bytes.maxFieldLength &&
    (!m.topic.isEmpty || version.hasProperties && m.hasTopicAlias) &&
    !Topic.hasWildcard m.topic

/-- The number of bytes after the header. -/
def remaining (version : Version) (m : Message) : Nat :=
  2 + m.topicBytes.length + m.payload.length + (if m.qos.isTracked then 2 else 0) +
    (if version.hasProperties then Property.regionSize m.properties else 0)

/-- Validate a message and count its PUBLISH. -/
def size (version : Version) (m : Message) (max : UInt32) : Except Fault PacketSize :=
  if m.isValid version then PacketSize.checked (m.remaining version) max
  else .error .badParameter

/-- The five spans of a PUBLISH: header and topic length, topic, identifier and property
length, properties, payload. -/
def spans (version : Version) (m : Message) (id : UInt16) (size : PacketSize) :
    Except Fault (List Bytes) := do
  if m.qos.isTracked ∧ id = 0 then throw .badParameter
  let count ← VarInt.encode size.remaining
  let regionLength ←
    if version.hasProperties then VarInt.encode m.properties.length else pure []
  let header := (PacketType.publish.firstByte ||| m.flags) :: count
  let identifier := if m.qos.isTracked then Bytes.ofWord id else []
  return [header ++ Bytes.lengthField m.topicBytes.length, m.topicBytes,
    identifier ++ regionLength, m.properties, m.payload]

/-- Write a whole PUBLISH into `capacity` bytes. -/
def serialize (version : Version) (m : Message) (id : UInt16) (size : PacketSize)
    (capacity : Nat) : Except Fault Bytes := do
  if capacity < size.total then throw .noMemory
  Layout.fit capacity (← m.spans version id size)

/-- Write a PUBLISH up to its payload into `capacity` bytes, for callers that send the payload
themselves. -/
def serializeHeader (version : Version) (m : Message) (id : UInt16) (size : PacketSize)
    (capacity : Nat) : Except Fault Bytes := do
  Layout.fit capacity (← m.spans version id size).dropLast

/-- The guarantee in the flags of a first byte; both bits at once mean nothing. -/
def qosOfFlags (firstByte : UInt8) : Option QoS :=
  match firstByte &&& 0x04 != 0, firstByte &&& 0x02 != 0 with
  | true, true => none
  | true, false => some .exactlyOnce
  | false, true => some .atLeastOnce
  | false, false => some .atMostOnce

/-- The least number of bytes after the header: a topic of one byte and, where the message is
tracked, an identifier. -/
def minRemaining (qos : QoS) : Nat := if qos.isTracked then 5 else 3

/-- The properties that an incoming PUBLISH may carry. -/
def mayCarry : PropertyId → Bool
  | .topicAlias | .payloadFormat | .messageExpiry | .contentType | .responseTopic
  | .correlationData | .subscriptionId | .userProperty => true
  | _ => false

/-- Whether a topic alias lies in the negotiated range; other properties do not matter. -/
def aliasInRange (max : UInt16) : Property → Bool
  | ⟨.topicAlias, v⟩ => v != 0 && v ≤ max
  | _ => true

/-- Whether the property region of an incoming PUBLISH is sound. -/
def regionIsSound (n : Negotiated) (region : Bytes) : Bool :=
  let walk := Property.walk region
  walk.within mayCarry && walk.properties.all (aliasInRange n.topicAliasMax)

/-- Read the fields of a PUBLISH with the given guarantee. -/
def read (version : Version) (n : Negotiated) (qos : QoS) (firstByte : UInt8) :
    Reader (UInt16 × Message) := do
  let topic ← Reader.text
  let id ← if qos.isTracked then Reader.word else pure 0
  if qos.isTracked ∧ id = 0 then Reader.refuse
  let properties ← if version.hasProperties then Reader.region else pure []
  let payload ← Reader.rest
  let m : Message :=
    { topic, payload, qos, properties
      retain := firstByte &&& retainFlag != 0
      dup := firstByte &&& dupFlag != 0 }
  if version.hasProperties then
    if !regionIsSound n properties || (topic.isEmpty && !m.hasTopicAlias) then Reader.refuse
  return (id, m)

/-- Decode an incoming PUBLISH: its identifier, zero where the message is not tracked, and the
message. -/
def decode (version : Version) (n : Negotiated) (packet : Packet) :
    Except Fault (UInt16 × Message) :=
  match qosOfFlags packet.firstByte with
  | none => .error .badResponse
  | some qos =>
    if packet.remaining < minRemaining qos ∨ packet.data.length ≠ packet.remaining then
      .error .badResponse
    else if version.hasProperties ∧
        n.maxPacketSize.toNat < packet.remaining + packet.length then
      .error .badResponse
    else (read version n qos packet.firstByte).run' packet.data

end Message

end MqttClient
