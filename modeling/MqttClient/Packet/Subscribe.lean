import MqttClient.Packet.Header
import MqttClient.Property.Basic
import MqttClient.Topic
import MqttClient.Wire.Layout

/-!
# SUBSCRIBE and UNSUBSCRIBE

Both are a packet identifier, a property region and a list of topic filters; in a SUBSCRIBE an
options byte follows each filter.
-/
namespace MqttClient

/-- Which retained messages a new subscription brings. -/
inductive RetainHandling where
  /-- All of them, at every subscribe. -/
  | always
  /-- Only those for a subscription that did not exist. -/
  | ifNew
  /-- None. -/
  | never
  deriving DecidableEq

namespace RetainHandling

/-- The number of a choice on the wire. -/
def code : RetainHandling → UInt8
  | always => 0
  | ifNew => 1
  | never => 2

end RetainHandling

/-- One topic filter of a SUBSCRIBE and its options. -/
structure Subscription where
  filter : String
  /-- The highest guarantee wanted. -/
  qos : QoS := .atMostOnce
  /-- Keep the client's own messages away. -/
  noLocal : Bool := false
  /-- Keep the retain flag as it was published. -/
  retainAsPublished : Bool := false
  retainHandling : RetainHandling := .always
  deriving DecidableEq

/-- Whether a text can be sent as a topic filter. -/
def Topic.canSendFilter (filter : String) : Bool :=
  isValidFilter filter && (Bytes.ofText filter).length ≤ Bytes.maxFieldLength

namespace Subscription

/-- The options byte. Before MQTT 5 it holds the guarantee alone. -/
def options (version : Version) (s : Subscription) : UInt8 :=
  if version.hasProperties then
    let noLocal : UInt8 := if s.noLocal then 0x04 else 0
    let retainAsPublished : UInt8 := if s.retainAsPublished then 0x08 else 0
    s.qos.code ||| noLocal ||| retainAsPublished ||| s.retainHandling.code * 16
  else s.qos.code

/-- Whether a subscription can be sent. A shared one cannot exclude the client's own
messages. -/
def isValid (version : Version) (s : Subscription) : Bool :=
  Topic.canSendFilter s.filter &&
    !(version.hasProperties && s.noLocal && Topic.isShared s.filter)

/-- The filter as bytes. -/
def filterBytes (s : Subscription) : Bytes := Bytes.ofText s.filter

end Subscription

namespace Subscribe

/-- The number of bytes before the filters. -/
def headLength (version : Version) (properties : Bytes) : Nat :=
  2 + (if version.hasProperties then Property.regionSize properties else 0)

/-- Header, identifier and property length of a SUBSCRIBE or an UNSUBSCRIBE. -/
def head (type : PacketType) (version : Version) (id : UInt16) (properties : Bytes)
    (size : PacketSize) : Except Fault Bytes := do
  if id = 0 then throw .badParameter
  let count ← VarInt.encode size.remaining
  let regionLength ←
    if version.hasProperties then VarInt.encode properties.length else pure []
  return type.firstByte :: count ++ Bytes.ofWord id ++ regionLength

/-- Validate subscriptions and count their SUBSCRIBE. -/
def size (version : Version) (subscriptions : List Subscription) (properties : Bytes)
    (max : UInt32) : Except Fault PacketSize :=
  if subscriptions.isEmpty || (!version.hasProperties && !properties.isEmpty) ||
      !subscriptions.all (Subscription.isValid version) then
    .error .badParameter
  else
    let filters := subscriptions.foldr (fun s n => 2 + s.filterBytes.length + 1 + n) 0
    PacketSize.checked (headLength version properties + filters) max

/-- Write a whole SUBSCRIBE into `capacity` bytes. -/
def serialize (version : Version) (subscriptions : List Subscription) (properties : Bytes)
    (id : UInt16) (size : PacketSize) (capacity : Nat) : Except Fault Bytes := do
  if capacity < size.total then throw .noMemory
  let head ← head .subscribe version id properties size
  let filters := subscriptions.flatMap fun s =>
    [Layout.framed s.filterBytes, pure [s.options version]]
  Layout.lay capacity (pure head :: pure properties :: filters)

end Subscribe

namespace Unsubscribe

/-- Validate topic filters and count their UNSUBSCRIBE. -/
def size (version : Version) (filters : List String) (properties : Bytes) (max : UInt32) :
    Except Fault PacketSize :=
  if filters.isEmpty || (!version.hasProperties && !properties.isEmpty) ||
      !filters.all Topic.canSendFilter then
    .error .badParameter
  else
    let lengths := filters.foldr (fun f n => 2 + (Bytes.ofText f).length + n) 0
    PacketSize.checked (Subscribe.headLength version properties + lengths) max

/-- Write a whole UNSUBSCRIBE into `capacity` bytes. -/
def serialize (version : Version) (filters : List String) (properties : Bytes) (id : UInt16)
    (size : PacketSize) (capacity : Nat) : Except Fault Bytes := do
  if capacity < size.total then throw .noMemory
  let head ← Subscribe.head .unsubscribe version id properties size
  let filters := filters.map fun f => Layout.framed (Bytes.ofText f)
  Layout.lay capacity (pure head :: pure properties :: filters)

end Unsubscribe

end MqttClient
