import MqttClient.Packet.Subscribe
import MqttClient.Session.Sending

/-!
# Subscribing and unsubscribing

A request may name many topic filters. It is sent in batches of four filters, the head of the
packet with the first batch.
-/
namespace MqttClient

/-- Cut a list into runs of four; the last may be shorter. -/
def batches {α : Type} : List α → List (List α)
  | a :: b :: c :: d :: rest => [a, b, c, d] :: batches rest
  | [] => []
  | rest => [rest]

/-- The batches of a request: the head of the packet and its properties, and then the spans of
each filter. -/
def Subscribe.spanBatches (head properties : Bytes) (filters : List (List Bytes)) :
    List (List Bytes) :=
  match (batches filters).map List.flatten with
  | [] => []
  | first :: rest => (head :: properties :: first) :: rest

/-- The spans of a filter with its options. -/
def Subscription.spans (version : Version) (s : Subscription) : List Bytes :=
  [Bytes.lengthField s.filterBytes.length, s.filterBytes, [s.options version]]

/-- The spans of a filter. -/
def Unsubscribe.spans (filter : String) : List Bytes :=
  let b := Bytes.ofText filter
  [Bytes.lengthField b.length, b]

namespace Session
variable {ω : Type} [Host ω]

/-- Whether the broker takes a topic filter, as far as it has said. -/
def brokerTakesFilter (s : Session) (filter : String) : Bool :=
  !s.version.hasProperties ||
    (s.negotiated.wildcardAvailable || !Topic.hasWildcard filter) &&
      (s.negotiated.sharedSubscriptionAvailable || !Topic.isShared filter)

/-- Whether subscriptions may be asked for under an identifier. Tracked messages can come in
only with a table for their exchanges. -/
def maySubscribe (s : Session) (subscriptions : List Subscription) (id : UInt16) : Bool :=
  id != 0 &&
    !(subscriptions.any (fun sub => sub.qos.isTracked) && s.exchanges.incomingCapacity == 0) &&
    subscriptions.all fun sub => s.brokerTakesFilter sub.filter

/-- Subscribe to topic filters. -/
def subscribe (subscriptions : List Subscription) (properties : Bytes) (id : UInt16) :
    Act ω Unit := do
  let s ← Act.session
  if !s.maySubscribe subscriptions id then throw .badParameter
  let size ← Act.ofResult
    (Subscribe.size s.version subscriptions properties s.negotiated.serverMaxPacketSize)
  let head ← Act.ofResult (Subscribe.head .subscribe s.version id properties size)
  sendAll (Subscribe.spanBatches head properties
    (subscriptions.map (Subscription.spans s.version)))

/-- End subscriptions to topic filters. -/
def unsubscribe (filters : List String) (properties : Bytes) (id : UInt16) : Act ω Unit := do
  let s ← Act.session
  if id = 0 then throw .badParameter
  let size ← Act.ofResult
    (Unsubscribe.size s.version filters properties s.negotiated.serverMaxPacketSize)
  let head ← Act.ofResult (Subscribe.head .unsubscribe s.version id properties size)
  sendAll (Subscribe.spanBatches head properties (filters.map Unsubscribe.spans))

end Session

end MqttClient
