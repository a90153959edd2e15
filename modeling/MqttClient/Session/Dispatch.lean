import MqttClient.Packet.Disconnect
import MqttClient.Packet.Ping
import MqttClient.Packet.Suback
import MqttClient.Session.Sending

/-!
# Handling incoming packets

What one whole packet does to a session: messages are reported and acknowledged, acknowledgements
move their exchanges on, and answers are reported. A message whose exchange is open already is
acknowledged and not reported again. Only MQTT 5 servers may disconnect.
-/
namespace MqttClient.Session
variable {ω : Type} [Host ω]

/-- Report an incoming packet. -/
def report (event : Event) : Act ω Unit := Act.hostDo (Host.notify event)

/-- Open the exchange of an incoming message: the state it is in, and whether the message is
new. -/
def openIncoming (id : UInt16) (qos : QoS) : Act ω (ExchangeState × Bool) := do
  if qos = .atMostOnce then return (.complete, true)
  match ← Act.track fun t => t.onPublish id .received qos with
  | .ok state => return (state, true)
  | .error .stateCollision => return (ExchangeState.opening .received qos, false)
  | .error fault => throw fault

/-- Handle a PUBLISH. -/
def handlePublish (packet : Packet) : Act ω Unit := do
  let s ← Act.session
  let (id, message) ← Act.ofResult (Message.decode s.version s.negotiated packet)
  let (state, isNew) ← openIncoming id message.qos
  if isNew then
    report { packet, packetId := id, message := some message, properties := message.properties }
  sendAck id state

/-- Move an exchange on by an acknowledgement. A refused PUBREC ends it. -/
def settleAck (id : UInt16) (ack : AckKind) (verdict : Verdict) : Act ω ExchangeState := do
  if verdict = .refused ∧ ack = .pubrec then
    Act.ofResult (← Act.track fun t => .ok (.complete, t.remove id))
  else Act.ofResult (← Act.track fun t => t.onAck id ack .received)

/-- Handle an acknowledgement. -/
def handleAck (packet : Packet) (kind : AckKind) : Act ω Unit := do
  let s ← Act.session
  let ack ← Act.ofResult (Ack.decode s.version s.negotiated.requestProblemInfo packet)
  match ack.verdict (kindBits packet.firstByte) with
  | none => throw .badResponse
  | some verdict =>
    let state ← settleAck ack.packetId kind verdict
    let reason := if s.version.hasProperties then some ack.reason else none
    report { packet, packetId := ack.packetId, verdict, reason, properties := ack.properties }
    sendAck ack.packetId state

/-- Handle a PINGRESP. Under managed keep-alive it is not reported. -/
def handlePingresp (managed : Bool) (packet : Packet) : Act ω Unit := do
  Act.ofResult (Ping.checkResponse packet)
  if managed then Act.change fun s => { s with awaitsPingresp := false }
  else report { packet, packetId := 0 }

/-- Handle a SUBACK or an UNSUBACK. -/
def handleSuback (packet : Packet) : Act ω Unit := do
  let version := (← Act.session).version
  let suback ← Act.ofResult (Suback.decode version packet)
  match suback.verdict (kindBits packet.firstByte) version with
  | none => throw .badResponse
  | some verdict =>
    report { packet, packetId := suback.packetId, verdict, properties := suback.properties }

/-- Handle a server's DISCONNECT. -/
def handleDisconnect (packet : Packet) : Act ω Unit := do
  let d ← Act.ofResult (Disconnect.decode packet)
  report { packet, packetId := 0, reason := some d.reason, properties := d.properties }
  Act.change fun s => { s with status := .notConnected }

/-- Handle one whole packet. -/
def dispatch (managed : Bool) (packet : Packet) : Act ω Unit := do
  match PacketType.ofFirstByte? packet.firstByte with
  | some .publish => handlePublish packet
  | some .puback => handleAck packet .puback
  | some .pubrec => handleAck packet .pubrec
  | some .pubrel => handleAck packet .pubrel
  | some .pubcomp => handleAck packet .pubcomp
  | some .pingresp => handlePingresp managed packet
  | some .suback | some .unsuback => handleSuback packet
  | some .disconnect =>
    if (← Act.session).version.hasProperties then handleDisconnect packet
    else throw .badResponse
  | _ => throw .badResponse

end MqttClient.Session
