import MqttClient.Session.Sending

/-!
# Publishing

A tracked message has its exchange opened before the first byte goes out. A repeated attempt may
use an exchange that is open already.
-/
namespace MqttClient.Session
variable {ω : Type} [Host ω]

/-- Whether the broker takes a message, as far as it has said. -/
def brokerTakes (s : Session) (m : Message) : Bool :=
  let n := s.negotiated
  let walk := Property.walk m.properties
  !s.version.hasProperties ||
    m.qos.code ≤ n.serverMaxQos && (!m.retain || n.retainAvailable) && walk.fault.isNone &&
      walk.properties.all (Message.aliasInRange n.serverTopicAliasMax)

/-- Whether a message may be published under an identifier. A tracked one needs an identifier
and a table for its exchange. -/
def mayPublish (s : Session) (m : Message) (id : UInt16) : Bool :=
  (!m.qos.isTracked || id != 0 && s.exchanges.outgoingCapacity != 0) && s.brokerTakes m

/-- Open the exchange of a message, or go on with it in a repeated attempt. -/
def openOutgoing (m : Message) (id : UInt16) : Act ω Unit := do
  match ← Act.track fun t => (t.reserve id m.qos).map fun t => ((), t) with
  | .ok () => return
  | .error fault => if fault = .stateCollision ∧ m.dup then return else throw fault

/-- Publish a message. The identifier of an untracked one does not matter. -/
def publish (m : Message) (id : UInt16) : Act ω Unit := do
  let s ← Act.session
  if !s.mayPublish m id then throw .badParameter
  let size ← Act.ofResult (m.size s.version s.negotiated.serverMaxPacketSize)
  let spans ← Act.ofResult (m.spans s.version id size)
  if m.qos.isTracked then openOutgoing m id
  send spans
  if m.qos.isTracked then
    let _ ← Act.ofResult (← Act.track fun t => t.onPublish id .sent m.qos)

end MqttClient.Session
