import MqttClient.Packet.Connack
import MqttClient.Packet.Connect
import MqttClient.Session.Filling
import MqttClient.Session.Sending

/-!
# Connecting

CONNECT goes out, CONNACK comes in, and a session that the broker kept goes on where it broke
off: every PUBREL that is still owed is sent again. Without one, all exchanges are forgotten.
-/
namespace MqttClient.Session
variable {ω : Type} [Host ω]

/-- Whether waiting for CONNACK is over after `attempts` fruitless looks. With no time set for
it, they are counted. -/
def connackOverdue (start timeout : UInt32) (attempts : Nat) : Act ω Bool := do
  if 0 < timeout then
    let now ← Act.now
    return timeout ≤ now - start
  else return (← Act.session).settings.connackRetries.toNat < attempts

/-- Wait for the header of a packet, in at most `n` looks. -/
def awaitHeader (n : Nat) (start timeout : UInt32) (attempts : Nat) : Act ω Header := do
  match n with
  | 0 => Act.stall
  | n + 1 =>
    match ← Act.host (Host.readHeader (← Act.session).version) with
    | .ok header => return header
    | .error .noDataAvailable =>
      if ← connackOverdue start timeout (attempts + 1) then throw .recvFailed
      awaitHeader n start timeout (attempts + 1)
    | .error fault => throw fault

/-- Decode the CONNACK of `length` bytes at the front of the network buffer, and blank it out
when it is accepted. -/
def acceptConnack (header : Header) : Act ω Bool := do
  let s ← Act.session
  let packet := header.withData (s.buffer.take header.remaining)
  let (result, negotiated) := Connack.decode s.version packet s.negotiated
  Act.change fun s => { s with negotiated }
  let connack ← Act.ofResult result
  Act.change fun s => { s with
    buffer := List.replicate header.remaining 0 ++ s.buffer.drop header.remaining }
  return connack.sessionPresent

/-- Wait for CONNACK and apply it: whether the broker kept a session. A CONNACK that does not
fit the network buffer is dropped. -/
def receiveConnack (timeout : UInt32) : Act ω Bool := do
  let start ← Act.now
  let scene ← get
  let looks := Host.patience scene.host + scene.session.settings.connackRetries.toNat + 1
  let header ← awaitHeader looks start timeout 0
  if header.firstByte ≠ PacketType.connack.firstByte then throw .badResponse
  if scene.session.capacity < header.remaining then
    discard header.remaining
    throw .noMemory
  let received ← fill header.remaining
  if received < header.remaining then throw .recvFailed
  acceptConnack header

/-- Send every PUBREL owed from `cursor` on, at most `n` of them. -/
def resendPubrels (n cursor : Nat) : Act ω Unit := do
  match n with
  | 0 => return
  | n + 1 =>
    match (← Act.session).exchanges.nextPubrel cursor with
    | (none, _) => return
    | (some id, cursor) =>
      sendAck id (.owes .pubrel)
      resendPubrels n cursor

/-- Go on with the exchanges of a session that the broker kept, or forget them. -/
def resume (present : Bool) : Act ω Unit := do
  if present then resendPubrels (← Act.session).exchanges.outgoing.length 0
  else
    let _ ← Act.track fun t => .ok ((), t.clear)

/-- The negotiated values with which a handshake begins. -/
def requested (version : Version) (c : Connect) : Except Fault Negotiated :=
  if version.hasProperties then
    match Negotiated.default.applyConnect c.properties with
    | (.ok (), n) => .ok n
    | (.error fault, _) => .error fault
  else .ok .default

/-- Open a session over a transport that is open already: whether the broker kept an earlier
one. `timeout` is the time to wait for CONNACK; zero counts looks instead. -/
def connect (c : Connect) (timeout : UInt32) : Act ω Bool := do
  let version := (← Act.session).version
  let negotiated ← Act.ofResult (requested version c)
  let size ← Act.ofResult (c.size version)
  Act.change fun s => { s.resetBuffer with negotiated }
  send (← Act.ofResult (c.spans version size))
  let present ← receiveConnack timeout
  Act.ofResult (Connack.checkSession c.cleanSession present)
  resume present
  Act.change fun s => { s with
    status := .connected
    keepAlive := s.negotiated.serverKeepAlive.getD c.keepAlive
    awaitsPingresp := false
    pingSentAt := 0 }
  let now ← Act.now
  Act.change fun s => { s with lastTx := now, lastRx := now }
  return present

end MqttClient.Session
