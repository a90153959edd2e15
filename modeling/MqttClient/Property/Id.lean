/-!
# Property identifiers

The properties of MQTT 5, their codes on the wire, the shape of the value of each, and which of
them may occur more than once in one packet.
-/
namespace MqttClient

/-- The shapes that the value of a property can have. -/
inductive Shape where
  /-- One byte. -/
  | byte
  /-- A two-byte number. -/
  | word
  /-- A four-byte number. -/
  | long
  /-- A variable byte integer other than zero. -/
  | positive
  /-- A text after its length. -/
  | text
  /-- A byte string after its length. -/
  | binary
  /-- Two texts, a key and a value. -/
  | pair
  deriving DecidableEq

/-- The properties of MQTT 5. -/
inductive PropertyId where
  | payloadFormat
  | messageExpiry
  | contentType
  | responseTopic
  | correlationData
  | subscriptionId
  | sessionExpiry
  | assignedClientId
  | serverKeepAlive
  | authMethod
  | authData
  | requestProblemInfo
  | willDelay
  | requestResponseInfo
  | responseInfo
  | serverReference
  | reasonString
  | receiveMax
  | topicAliasMax
  | topicAlias
  | maxQos
  | retainAvailable
  | userProperty
  | maxPacketSize
  | wildcardAvailable
  | subscriptionIdAvailable
  | sharedSubscriptionAvailable
  deriving DecidableEq

namespace PropertyId

/-- All properties by ascending code. -/
def all : List PropertyId :=
  [.payloadFormat, .messageExpiry, .contentType, .responseTopic, .correlationData,
    .subscriptionId, .sessionExpiry, .assignedClientId, .serverKeepAlive, .authMethod,
    .authData, .requestProblemInfo, .willDelay, .requestResponseInfo, .responseInfo,
    .serverReference, .reasonString, .receiveMax, .topicAliasMax, .topicAlias, .maxQos,
    .retainAvailable, .userProperty, .maxPacketSize, .wildcardAvailable,
    .subscriptionIdAvailable, .sharedSubscriptionAvailable]

/-- The code of a property on the wire. -/
def code : PropertyId → UInt8
  | payloadFormat => 0x01
  | messageExpiry => 0x02
  | contentType => 0x03
  | responseTopic => 0x08
  | correlationData => 0x09
  | subscriptionId => 0x0B
  | sessionExpiry => 0x11
  | assignedClientId => 0x12
  | serverKeepAlive => 0x13
  | authMethod => 0x15
  | authData => 0x16
  | requestProblemInfo => 0x17
  | willDelay => 0x18
  | requestResponseInfo => 0x19
  | responseInfo => 0x1A
  | serverReference => 0x1C
  | reasonString => 0x1F
  | receiveMax => 0x21
  | topicAliasMax => 0x22
  | topicAlias => 0x23
  | maxQos => 0x24
  | retainAvailable => 0x25
  | userProperty => 0x26
  | maxPacketSize => 0x27
  | wildcardAvailable => 0x28
  | subscriptionIdAvailable => 0x29
  | sharedSubscriptionAvailable => 0x2A

/-- The property of a code. -/
def ofCode? (code : UInt8) : Option PropertyId :=
  match code.toNat with
  | 1 => some payloadFormat
  | 2 => some messageExpiry
  | 3 => some contentType
  | 8 => some responseTopic
  | 9 => some correlationData
  | 11 => some subscriptionId
  | 17 => some sessionExpiry
  | 18 => some assignedClientId
  | 19 => some serverKeepAlive
  | 21 => some authMethod
  | 22 => some authData
  | 23 => some requestProblemInfo
  | 24 => some willDelay
  | 25 => some requestResponseInfo
  | 26 => some responseInfo
  | 28 => some serverReference
  | 31 => some reasonString
  | 33 => some receiveMax
  | 34 => some topicAliasMax
  | 35 => some topicAlias
  | 36 => some maxQos
  | 37 => some retainAvailable
  | 38 => some userProperty
  | 39 => some maxPacketSize
  | 40 => some wildcardAvailable
  | 41 => some subscriptionIdAvailable
  | 42 => some sharedSubscriptionAvailable
  | _ => none

/-- The shape of the value of a property. -/
@[reducible] def shape : PropertyId → Shape
  | payloadFormat => .byte
  | messageExpiry => .long
  | contentType => .text
  | responseTopic => .text
  | correlationData => .binary
  | subscriptionId => .positive
  | sessionExpiry => .long
  | assignedClientId => .text
  | serverKeepAlive => .word
  | authMethod => .text
  | authData => .binary
  | requestProblemInfo => .byte
  | willDelay => .long
  | requestResponseInfo => .byte
  | responseInfo => .text
  | serverReference => .text
  | reasonString => .text
  | receiveMax => .word
  | topicAliasMax => .word
  | topicAlias => .word
  | maxQos => .byte
  | retainAvailable => .byte
  | userProperty => .pair
  | maxPacketSize => .long
  | wildcardAvailable => .byte
  | subscriptionIdAvailable => .byte
  | sharedSubscriptionAvailable => .byte

/-- Whether a received packet may carry a property more than once. A message forwarded for
several subscriptions repeats the subscription identifier. -/
def repeatable : PropertyId → Bool
  | userProperty | subscriptionId => true
  | _ => false

/-- Whether a client may put a property into one packet more than once. -/
def repeatableOutbound : PropertyId → Bool
  | userProperty => true
  | _ => false

/-- Reading back the code of a property gives the property. -/
theorem ofCode?_code (id : PropertyId) : ofCode? id.code = some id := by
  cases id <;> rfl

end PropertyId

end MqttClient
