import MqttClient.Packet.Ping
import MqttClient.Session.Sending

/-!
# Keep-alive

A client that has been silent, or has heard nothing, for too long sends a ping, and a ping must
be answered in time. `Timers.duty` makes the decision from the times alone.
-/
namespace MqttClient

/-- What keep-alive asks for. -/
inductive Duty where
  | nothing
  | ping
  | giveUp
  deriving DecidableEq

/-- The times that a keep-alive decision looks at, in milliseconds. -/
structure Timers where
  now : UInt32
  lastTx : UInt32
  lastRx : UInt32
  pingSentAt : UInt32
  awaitsPingresp : Bool
  /-- The longest silence of the client; zero switches it off. -/
  txLimit : UInt32
  /-- The longest silence of the broker; zero switches it off. -/
  rxLimit : UInt32
  pingrespTimeout : UInt32
  deriving DecidableEq

/-- The keep-alive decision. Times are compared by their distance, so the clock may wrap. -/
def Timers.duty (t : Timers) : Duty :=
  if t.awaitsPingresp then
    if t.pingrespTimeout < t.now - t.pingSentAt then .giveUp else .nothing
  else if t.txLimit ≠ 0 ∧ t.txLimit ≤ t.now - t.lastTx then .ping
  else if t.rxLimit ≠ 0 ∧ t.rxLimit ≤ t.now - t.lastRx then .ping
  else .nothing

namespace Session
variable {ω : Type} [Host ω]

/-- The longest silence of the client: the keep-alive in force or the setting, whichever is
shorter. -/
def txLimit (s : Session) : UInt32 :=
  min (UInt32.ofNat (s.keepAlive.toNat * 1000)) s.settings.txIdle

/-- The times of a session at `now`. -/
def timers (s : Session) (now : UInt32) : Timers where
  now := now
  lastTx := s.lastTx
  lastRx := s.lastRx
  pingSentAt := s.pingSentAt
  awaitsPingresp := s.awaitsPingresp
  txLimit := s.txLimit
  rxLimit := s.settings.rxIdle
  pingrespTimeout := s.settings.pingrespTimeout

/-- Send a ping and wait for its answer from now on. -/
def ping : Act ω Unit := do
  send [Ping.request]
  Act.change fun s => { s with pingSentAt := s.lastTx, awaitsPingresp := true }

/-- Do what keep-alive asks for. -/
def keepAliveDuty : Act ω Unit := do
  let now ← Act.now
  match ((← Act.session).timers now).duty with
  | .nothing => return
  | .ping => ping
  | .giveUp => throw .keepAliveTimeout

end Session

end MqttClient
