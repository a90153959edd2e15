import MqttClient.Packet.Header
import MqttClient.Property.Basic

/-!
# Negotiated values

What an MQTT 5 client and its broker have agreed on: the client's half comes from the
properties of its CONNECT, the broker's half from those of the CONNACK. A connection of the
older revision keeps the defaults.
-/
namespace MqttClient

/-- The values that hold for a connection. -/
structure Negotiated where
  /-- Seconds for which the broker keeps the session. -/
  sessionExpiry : UInt32 := 0
  /-- How many tracked messages the client takes at once. -/
  receiveMax : UInt16 := 65535
  /-- The largest packet that the client takes. -/
  maxPacketSize : UInt32 := PacketSize.maxTotal
  /-- The highest topic alias that the client takes. -/
  topicAliasMax : UInt16 := 0
  /-- Whether the client asked for response information. -/
  requestResponseInfo : Bool := false
  /-- Whether the client allows reason strings and user properties on failures. -/
  requestProblemInfo : Bool := true
  /-- How many tracked messages the broker takes at once. -/
  serverReceiveMax : UInt16 := 65535
  /-- The highest delivery guarantee of the broker. -/
  serverMaxQos : UInt8 := 2
  /-- Whether the broker retains messages. -/
  retainAvailable : Bool := true
  /-- The largest packet that the broker takes. -/
  serverMaxPacketSize : UInt32 := PacketSize.maxTotal
  /-- The highest topic alias that the broker takes. -/
  serverTopicAliasMax : UInt16 := 0
  /-- Whether the broker takes wildcard subscriptions. -/
  wildcardAvailable : Bool := true
  /-- Whether the broker takes subscription identifiers. -/
  subscriptionIdAvailable : Bool := true
  /-- Whether the broker takes shared subscriptions. -/
  sharedSubscriptionAvailable : Bool := true
  /-- The keep-alive imposed by the broker, in seconds. -/
  serverKeepAlive : Option UInt16 := none
  deriving DecidableEq

namespace Negotiated

/-- The values before anything is negotiated. -/
def default : Negotiated := {}

/-- Apply properties one by one and stop at the first that is refused. What was applied before
it stays. -/
def applyAll (step : Negotiated → Property → Except Fault Negotiated) :
    Negotiated → List Property → Option Fault × Negotiated
  | n, [] => (none, n)
  | n, p :: rest =>
    match step n p with
    | .ok next => applyAll step next rest
    | .error fault => (some fault, n)

/-- Apply the properties of a region up to the first fault, which is reported as `malformed`
when it lies in the region itself. -/
def applyRegion (step : Negotiated → Property → Except Fault Negotiated) (malformed : Fault)
    (n : Negotiated) (region : Bytes) : Except Fault Unit × Negotiated :=
  let walk := Property.walk region
  match applyAll step n walk.properties with
  | (some fault, n) => (.error fault, n)
  | (none, n) => (if walk.fault.isSome then .error malformed else .ok (), n)

/-- Apply one property of CONNECT. -/
def applyConnectProperty (n : Negotiated) : Property → Except Fault Negotiated
  | ⟨.sessionExpiry, v⟩ => .ok { n with sessionExpiry := v }
  | ⟨.receiveMax, v⟩ => if v = 0 then .error .badParameter else .ok { n with receiveMax := v }
  | ⟨.maxPacketSize, v⟩ =>
    if v = 0 then .error .badParameter else .ok { n with maxPacketSize := v }
  | ⟨.topicAliasMax, v⟩ => .ok { n with topicAliasMax := v }
  | ⟨.requestResponseInfo, v⟩ => .ok { n with requestResponseInfo := v != 0 }
  | ⟨.requestProblemInfo, v⟩ => .ok { n with requestProblemInfo := v != 0 }
  | ⟨.userProperty, _⟩ | ⟨.authMethod, _⟩ | ⟨.authData, _⟩ => .ok n
  | _ => .error .badParameter

/-- Apply the property region of CONNECT. -/
def applyConnect (n : Negotiated) (region : Bytes) : Except Fault Unit × Negotiated :=
  n.applyRegion applyConnectProperty .badParameter region

/-- A flag of the broker, written as zero or one. -/
def brokerFlag (v : UInt8) : Except Fault Bool :=
  if v = 0 then .ok false else if v = 1 then .ok true else .error .badResponse

/-- Apply one property of CONNACK. Response information must have been asked for. -/
def applyConnackProperty (n : Negotiated) : Property → Except Fault Negotiated
  | ⟨.sessionExpiry, v⟩ => .ok { n with sessionExpiry := v }
  | ⟨.receiveMax, v⟩ =>
    if v = 0 then .error .badResponse else .ok { n with serverReceiveMax := v }
  | ⟨.maxQos, v⟩ => if v ≤ 1 then .ok { n with serverMaxQos := v } else .error .badResponse
  | ⟨.retainAvailable, v⟩ => return { n with retainAvailable := ← brokerFlag v }
  | ⟨.maxPacketSize, v⟩ =>
    if v = 0 then .error .badResponse else .ok { n with serverMaxPacketSize := v }
  | ⟨.topicAliasMax, v⟩ => .ok { n with serverTopicAliasMax := v }
  | ⟨.wildcardAvailable, v⟩ => return { n with wildcardAvailable := ← brokerFlag v }
  | ⟨.subscriptionIdAvailable, v⟩ => return { n with subscriptionIdAvailable := ← brokerFlag v }
  | ⟨.sharedSubscriptionAvailable, v⟩ =>
    return { n with sharedSubscriptionAvailable := ← brokerFlag v }
  | ⟨.serverKeepAlive, v⟩ => .ok { n with serverKeepAlive := some v }
  | ⟨.responseInfo, _⟩ => if n.requestResponseInfo then .ok n else .error .badResponse
  | ⟨.assignedClientId, _⟩ | ⟨.reasonString, _⟩ | ⟨.serverReference, _⟩ | ⟨.authMethod, _⟩
  | ⟨.authData, _⟩ | ⟨.userProperty, _⟩ => .ok n
  | _ => .error .badResponse

/-- Apply the property region of CONNACK. -/
def applyConnack (n : Negotiated) (region : Bytes) : Except Fault Unit × Negotiated :=
  n.applyRegion applyConnackProperty .badResponse region

end Negotiated

end MqttClient
