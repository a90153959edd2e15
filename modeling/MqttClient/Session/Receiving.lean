import MqttClient.Session.Dispatch
import MqttClient.Session.Filling
import MqttClient.Session.KeepAlive

/-!
# Receiving packets

Bytes gather in the network buffer, however the stream cuts them, until a whole packet is there.
It is handled, and what follows it moves to the front of the buffer. A packet that could never
fit is read to its end and dropped.
-/
namespace MqttClient

/-- What one look at the stream came to. -/
inductive Progress where
  /-- Nothing is there, or a packet too large was dropped. -/
  | noData
  /-- Part of a packet is there. -/
  | needMoreBytes
  /-- A packet with this first byte was handled. -/
  | packet (firstByte : UInt8)
  deriving DecidableEq

namespace Session
variable {ω : Type} [Host ω]

/-- Take `n` bytes off the front of the network buffer and move those behind them up. The buffer
keeps its old bytes from there on. -/
def consume (n : Nat) (s : Session) : Session :=
  let kept := (s.buffer.take s.filled).drop n
  { s with buffer := kept ++ s.buffer.drop kept.length, filled := s.filled - n }

/-- Handle the packet at the front of the network buffer, given its header. It leaves the buffer
even when handling it fails. -/
def handleFront (managed : Bool) (header : Header) : Act ω Progress := do
  let s ← Act.session
  let packet := header.withData ((s.buffer.take header.total).drop header.length)
  let result ← Act.outcome (dispatch managed packet)
  Act.change (consume header.total)
  Act.ofResult result
  let now ← Act.now
  Act.change fun s => { s with lastRx := now }
  return .packet header.firstByte

/-- Look at what the network buffer holds. -/
def handleBuffered (managed : Bool) : Act ω Progress := do
  let s ← Act.session
  if s.filled = 0 then return .noData
  match Header.decode s.version (s.buffer.take s.filled) with
  | .error .needMoreBytes => return .needMoreBytes
  | .error fault => throw fault
  | .ok header =>
    if s.capacity < header.total then
      discard (header.total - s.filled)
      return .noData
    else if s.filled < header.total then return .needMoreBytes
    else handleFront managed header

/-- Read once, and handle at most one packet. Under managed keep-alive a read that gives nothing
is the time to see to it. -/
def receive (managed : Bool) : Act ω Progress := do
  let s ← Act.session
  let received ← Act.readInto s.filled (s.capacity - s.filled)
  Act.change fun s => { s with filled := s.filled + received }
  if received = 0 ∧ managed then keepAliveDuty
  handleBuffered managed

/-- Receive with managed keep-alive. -/
def process : Act ω Progress := receive true

/-- Receive and leave keep-alive to the caller. -/
def receiveOnly : Act ω Progress := receive false

end Session

end MqttClient
