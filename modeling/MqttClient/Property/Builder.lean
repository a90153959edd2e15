import MqttClient.Property.Basic
import MqttClient.Topic

/-!
# Building a property region

A `PropertyBuilder` appends the properties that a client may send to a region of bounded
capacity. An addition that is refused leaves the region as it was.
-/
namespace MqttClient

/-- A property that a client may add to one of its packets. -/
inductive Addition where
  | sessionExpiry (seconds : UInt32)
  | receiveMax (count : UInt16)
  | maxPacketSize (size : UInt32)
  | topicAliasMax (count : UInt16)
  | requestResponseInfo (wanted : Bool)
  | requestProblemInfo (wanted : Bool)
  | authMethod (name : String)
  | authData (data : Bytes)
  | userProperty (key value : String)
  | subscriptionId (number : UInt32)
  | willDelay (seconds : UInt32)
  | payloadFormat (isText : Bool)
  | messageExpiry (seconds : UInt32)
  | topicAlias (number : UInt16)
  | responseTopic (topic : String)
  | correlationData (data : Bytes)
  | contentType (name : String)
  | reasonString (reason : String)
  deriving DecidableEq

namespace Addition

/-- A flag as a byte. -/
def flag (b : Bool) : UInt8 := if b then 1 else 0

/-- The property that an addition writes. -/
def property : Addition → Property
  | sessionExpiry v => ⟨.sessionExpiry, v⟩
  | receiveMax v => ⟨.receiveMax, v⟩
  | maxPacketSize v => ⟨.maxPacketSize, v⟩
  | topicAliasMax v => ⟨.topicAliasMax, v⟩
  | requestResponseInfo b => ⟨.requestResponseInfo, flag b⟩
  | requestProblemInfo b => ⟨.requestProblemInfo, flag b⟩
  | authMethod s => ⟨.authMethod, s⟩
  | authData d => ⟨.authData, d⟩
  | userProperty k v => ⟨.userProperty, (k, v)⟩
  | subscriptionId n => ⟨.subscriptionId, n.toNat⟩
  | willDelay v => ⟨.willDelay, v⟩
  | payloadFormat b => ⟨.payloadFormat, flag b⟩
  | messageExpiry v => ⟨.messageExpiry, v⟩
  | topicAlias v => ⟨.topicAlias, v⟩
  | responseTopic s => ⟨.responseTopic, s⟩
  | correlationData d => ⟨.correlationData, d⟩
  | contentType s => ⟨.contentType, s⟩
  | reasonString s => ⟨.reasonString, s⟩

/-- Whether an addition may follow the identifiers `ids`. Some numbers must not be zero,
authentication data follow a method, and a response topic is a topic name. -/
def allowed (ids : List PropertyId) : Addition → Bool
  | receiveMax v | topicAlias v => v != 0
  | maxPacketSize v => v != 0
  | authData _ => ids.contains .authMethod
  | responseTopic s => !s.isEmpty && !Topic.hasWildcard s
  | _ => true

end Addition

/-- A property region under construction. -/
structure PropertyBuilder where
  /-- The number of bytes that the region may take. -/
  capacity : Nat
  /-- The region so far. -/
  bytes : Bytes
  /-- The identifiers in it. -/
  ids : List PropertyId
  deriving DecidableEq

namespace PropertyBuilder

/-- An empty region. -/
def empty (capacity : Nat) : PropertyBuilder := ⟨capacity, [], []⟩

/-- Append a property. A second one of an identifier that may occur only once is refused before
the room for it is looked at. -/
def append (b : PropertyBuilder) (p : Property) : Except Fault PropertyBuilder :=
  if p.id ∈ b.ids ∧ p.id.repeatableOutbound = false then .error .badParameter
  else
    let size := b.bytes.length + p.bytes.length
    if b.capacity < size ∨ VarInt.maxValue < size then .error .noMemory
    else .ok { b with bytes := b.bytes ++ p.bytes, ids := b.ids.insert p.id }

/-- Validate an addition and append its property. -/
def add (b : PropertyBuilder) (a : Addition) : Except Fault PropertyBuilder :=
  if a.allowed b.ids && a.property.id.shape.fits a.property.value then b.append a.property
  else .error .badParameter

end PropertyBuilder

end MqttClient
