import MqttClient.Exchange.Table
import MqttClient.Host
import MqttClient.Settings

/-!
# Sessions

A `Session` is all that a client remembers about its connection. An operation on it is an
`Act`: it sees the session together with its host, changes both, and either gives a result or
fails. What it changed before failing stays changed. An operation that its host keeps waiting
for ever has no answer at all.
-/
namespace MqttClient

/-- Whether a client believes that it holds a session. -/
inductive LinkStatus where
  | notConnected
  | connected
  deriving DecidableEq

/-- All that a client remembers about its connection. -/
structure Session where
  /-- The network buffer, as long as its capacity. -/
  buffer : Bytes
  /-- How many bytes at the front of the buffer belong to packets that are still to handle. -/
  filled : Nat := 0
  settings : Settings := {}
  version : Version := .v311
  status : LinkStatus := .notConnected
  /-- The next packet identifier to hand out. -/
  nextPacketId : UInt16 := 1
  /-- When a packet was last sent. -/
  lastTx : UInt32 := 0
  /-- When a packet was last handled. -/
  lastRx : UInt32 := 0
  /-- The keep-alive in force, in seconds. -/
  keepAlive : UInt16 := 0
  /-- When the last ping was sent. -/
  pingSentAt : UInt32 := 0
  /-- Whether a ping is unanswered. -/
  awaitsPingresp : Bool := false
  negotiated : Negotiated := {}
  exchanges : ExchangeTable
  deriving DecidableEq

namespace Session

/-- A new session with a buffer of `capacity` bytes. -/
def create (capacity : Nat) (exchanges : ExchangeTable) (version : Version)
    (settings : Settings) : Session :=
  { buffer := List.replicate capacity 0, exchanges, version, settings }

/-- The number of bytes that the network buffer holds at most. -/
def capacity (s : Session) : Nat := s.buffer.length

/-- Clear the network buffer. -/
def resetBuffer (s : Session) : Session :=
  { s with buffer := List.replicate s.buffer.length 0, filled := 0 }

/-- Hand out a packet identifier. They run from 1 to 65535 and over again. -/
def takePacketId (s : Session) : UInt16 × Session :=
  (s.nextPacketId,
    { s with nextPacketId := if s.nextPacketId = 65535 then 1 else s.nextPacketId + 1 })

end Session

/-- A session and its host. -/
structure Scene (ω : Type) where
  session : Session
  host : ω
  deriving DecidableEq

/-- An operation on a session and its host. -/
abbrev Act (ω : Type) := ExceptT Fault (StateT (Scene ω) Option)

namespace Act
variable {ω α : Type}

/-- Run an operation: its result and what it leaves behind, or no answer. -/
def runOn (act : Act ω α) (scene : Scene ω) : Option (Except Fault α × Scene ω) :=
  StateT.run (ExceptT.run act) scene

/-- Give no answer. -/
def stall : Act ω α := ExceptT.mk fun _ => none

/-- The session as it stands. -/
def session : Act ω Session := return (← get).session

/-- Change the session. -/
def change (f : Session → Session) : Act ω Unit :=
  modify fun scene => { scene with session := f scene.session }

/-- Call the host. -/
def host (f : ω → α × ω) : Act ω α :=
  modifyGet fun scene => let (a, host) := f scene.host; (a, { scene with host })

/-- Call the host for its effect alone. -/
def hostDo (f : ω → ω) : Act ω Unit :=
  modify fun scene => { scene with host := f scene.host }

/-- Succeed or fail as a result says. -/
def ofResult : Except Fault α → Act ω α
  | .ok a => pure a
  | .error fault => throw fault

/-- Run an operation and give its outcome as a result, so that a failure does not end the
caller. -/
def outcome (act : Act ω α) : Act ω (Except Fault α) :=
  ExceptT.mk (Except.ok <$> ExceptT.run act)

variable [Host ω]

/-- The time. -/
def now : Act ω UInt32 := host Host.now

/-- Do something between the guard hooks. What is guarded gives its failures as values. -/
def guarded (act : Act ω α) : Act ω α := do
  hostDo Host.enter
  let a ← act
  hostDo Host.exit
  return a

/-- Update the exchanges, and give the outcome. -/
def update (step : ExchangeTable → Except Fault (α × ExchangeTable)) :
    Act ω (Except Fault α) := do
  hostDo Host.tracking
  match step (← session).exchanges with
  | .ok (a, exchanges) =>
    change fun s => { s with exchanges }
    return .ok a
  | .error fault => return .error fault

/-- Update the exchanges between the guard hooks, and give the outcome. -/
def track (step : ExchangeTable → Except Fault (α × ExchangeTable)) :
    Act ω (Except Fault α) :=
  guarded (update step)

/-- Read at most `n` bytes to an offset of the network buffer: the count reported, but
never more than `n`. -/
def readInto (offset n : Nat) : Act ω Nat := do
  match ← host (Host.read n) with
  | none => throw .recvFailed
  | some (count, arrived) =>
    let arrived := arrived.take n
    change fun s => { s with
      buffer := s.buffer.take offset ++ arrived ++ s.buffer.drop (offset + arrived.length) }
    return min count n

end Act

end MqttClient
