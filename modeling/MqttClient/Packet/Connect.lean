import MqttClient.Packet.Publish

/-!
# CONNECT

The request that opens a session, with an optional will that the broker publishes when the
client is lost.
-/
namespace MqttClient

/-- A request to open a session. -/
structure Connect where
  /-- Whether the broker forgets what it kept of an earlier session. -/
  cleanSession : Bool := true
  /-- The keep-alive asked for, in seconds; zero switches it off. -/
  keepAlive : UInt16 := 0
  /-- The client's name, empty only with a clean session. -/
  clientId : String
  username : Option String := none
  password : Option Bytes := none
  will : Option Message := none
  /-- The property region, empty before MQTT 5. -/
  properties : Bytes := []
  deriving DecidableEq

namespace Connect

/-- The protocol name that every CONNECT carries. -/
def protocolName : Bytes := Bytes.framed [0x4D, 0x51, 0x54, 0x54]

/-- The number of bytes from the protocol name to the keep-alive. -/
def fixedLength : Nat := 10

/-- The will flags for a guarantee. -/
def willQosFlags : QoS → UInt8
  | .atMostOnce => 0x00
  | .atLeastOnce => 0x08
  | .exactlyOnce => 0x10

/-- The flags that announce a will. -/
def willFlags : Option Message → UInt8
  | none => 0x00
  | some will => 0x04 ||| willQosFlags will.qos ||| (if will.retain then 0x20 else 0)

/-- The connect flags. -/
def flags (c : Connect) : UInt8 :=
  (if c.cleanSession then 0x02 else 0) ||| willFlags c.will |||
    (if c.username.isSome then 0x80 else 0) ||| (if c.password.isSome then 0x40 else 0)

/-- Whether a length fits a two-byte length field. -/
def fitsField (length : Nat) : Bool := length ≤ Bytes.maxFieldLength

/-- Whether a message can be a will. -/
def willIsValid (version : Version) (will : Message) : Bool :=
  !will.topic.isEmpty && !Topic.hasWildcard will.topic && fitsField will.topicBytes.length &&
    fitsField will.payload.length && (version.hasProperties || will.properties.isEmpty)

/-- Whether a request can be sent, its size apart. Before MQTT 5 a password needs a user
name. -/
def isValid (version : Version) (c : Connect) : Bool :=
  (!c.clientId.isEmpty || c.cleanSession) &&
    fitsField (Bytes.ofText c.clientId).length &&
    c.username.all (fun u => fitsField (Bytes.ofText u).length) &&
    c.password.all (fun p => fitsField p.length) &&
    (c.password.isNone || c.username.isSome || version.hasProperties) &&
    (version.hasProperties || c.properties.isEmpty) &&
    c.will.all (willIsValid version)

/-- The number of bytes of a will. -/
def willLength (version : Version) (will : Message) : Nat :=
  (if version.hasProperties then Property.regionSize will.properties else 0) +
    (2 + will.topicBytes.length) + (2 + will.payload.length)

/-- The number of bytes after the header. -/
def remaining (version : Version) (c : Connect) : Nat :=
  fixedLength + (2 + (Bytes.ofText c.clientId).length) +
    (if version.hasProperties then Property.regionSize c.properties else 0) +
    (c.will.map (willLength version)).getD 0 +
    (c.username.map fun u => 2 + (Bytes.ofText u).length).getD 0 +
    (c.password.map fun p => 2 + p.length).getD 0

/-- Validate a request and count its CONNECT. -/
def size (version : Version) (c : Connect) : Except Fault PacketSize :=
  if c.isValid version then PacketSize.checked (c.remaining version) PacketSize.maxTotal
  else .error .badParameter

/-- A byte string as two spans, its length and itself. -/
def fieldSpans (b : Bytes) : List Bytes := [Bytes.lengthField b.length, b]

/-- The length of a property region, which only MQTT 5 writes. -/
def regionLength (version : Version) (region : Bytes) : Except Fault Bytes :=
  if version.hasProperties then VarInt.encode region.length else pure []

/-- The spans of a will. -/
def willSpans (version : Version) (will : Message) : Except Fault (List Bytes) := do
  let length ← regionLength version will.properties
  return [length, will.properties] ++ fieldSpans will.topicBytes ++ fieldSpans will.payload

/-- The spans of a CONNECT: everything up to the property length, the properties, and then
client name, will, user name and password, each field after its length. -/
def spans (version : Version) (c : Connect) (size : PacketSize) : Except Fault (List Bytes) := do
  let count ← VarInt.encode size.remaining
  let length ← regionLength version c.properties
  let will ← match c.will with
    | none => pure []
    | some will => willSpans version will
  let header := PacketType.connect.firstByte :: count ++ protocolName ++
    [version.level, c.flags] ++ Bytes.ofWord c.keepAlive ++ length
  let username := (c.username.map fun u => fieldSpans (Bytes.ofText u)).getD []
  let password := (c.password.map fieldSpans).getD []
  return [header, c.properties] ++ fieldSpans (Bytes.ofText c.clientId) ++ will ++ username ++
    password

/-- Write a whole CONNECT into `capacity` bytes. -/
def serialize (version : Version) (c : Connect) (size : PacketSize) (capacity : Nat) :
    Except Fault Bytes := do
  if capacity < size.total then throw .noMemory
  Layout.fit capacity (← c.spans version size)

end Connect

end MqttClient
