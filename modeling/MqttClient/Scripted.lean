import MqttClient.Host

/-!
# Scripted hosts

A host that follows a script and keeps a log. Its stream delivers a queue of bytes and takes
whatever is written, call by call as the script says; its clock moves on by a fixed step at
each reading, after some readings with steps of their own. The log holds what an observer
outside the client sees.
-/
namespace MqttClient

/-- What the stream of a scripted host does at one call. -/
inductive Turn where
  /-- Move at most `limit` bytes. -/
  | move (limit : Nat)
  /-- Fail and move nothing. -/
  | fail
  /-- Move as much as there is and report `count` bytes. -/
  | claim (count : Nat)
  deriving DecidableEq

/-- What an observer outside the client sees. -/
inductive Sighting where
  /-- A read of `asked` bytes that reported `got`, or nothing when it failed. -/
  | read (asked : Nat) (got : Option Nat)
  /-- A write that took `taken`. `offered` has the lengths of the spans of a gathered write and
  `claimed` a count that was reported without regard to `taken`. -/
  | write (taken : Bytes) (offered : Option (List Nat)) (claimed : Option Nat)
  /-- A write that failed. -/
  | writeFailed
  | flush (succeeded : Bool)
  | enter
  | exit
  /-- An update of the table of open exchanges, whether or not it changes anything. -/
  | tracking
  | event (event : Event)
  deriving DecidableEq

/-- A host that follows a script. -/
structure Scripted where
  /-- Bytes that wait to be read. -/
  incoming : Bytes := []
  /-- What the next reads do; after them, reads move as much as there is. -/
  reads : List Turn := []
  /-- What the next writes do; after them, writes move as much as `writeLimit` allows. -/
  writes : List Turn := []
  writeLimit : Option Nat := none
  /-- Whether several spans can be written at once. -/
  gathers : Bool := false
  flushFails : Bool := false
  /-- Whether the guard hooks leave a trace. -/
  guards : Bool := true
  /-- The time at the last reading. -/
  clock : UInt32 := 0
  /-- How far the clock moves at the next readings. -/
  ticks : List UInt32 := []
  /-- How far it moves at each reading after them. -/
  step : UInt32 := 1
  /-- What was seen, latest first. -/
  log : List Sighting := []
  deriving DecidableEq

namespace Scripted

/-- Add to the log. -/
def see (h : Scripted) (s : Sighting) : Scripted := { h with log := s :: h.log }

/-- What was seen, in order. -/
def seen (h : Scripted) : List Sighting := h.log.reverse

/-- Move `n` bytes out of the queue and report `count`. -/
def deliver (h : Scripted) (asked n count : Nat) : Option (Nat × Bytes) × Scripted :=
  let moved := h.incoming.take n
  (some (count, moved), { h with incoming := h.incoming.drop n }.see (.read asked (some count)))

/-- Read as the script says. -/
def read (asked : Nat) (h : Scripted) : Option (Nat × Bytes) × Scripted :=
  match h.reads with
  | [] =>
    let n := min asked h.incoming.length
    h.deliver asked n n
  | .move limit :: reads =>
    let n := min (min asked h.incoming.length) limit
    { h with reads }.deliver asked n n
  | .claim count :: reads => { h with reads }.deliver asked (min asked h.incoming.length) count
  | .fail :: reads => (none, { h with reads }.see (.read asked none))

/-- Take at most `limit` of the offered bytes. -/
def take (h : Scripted) (offered : Bytes) (lengths : Option (List Nat)) (limit : Option Nat) :
    Option Nat × Scripted :=
  let taken := match limit with
    | none => offered
    | some n => offered.take n
  (some taken.length, h.see (.write taken lengths none))

/-- Write one run of bytes as the script says. -/
def writeRun (offered : Bytes) (lengths : Option (List Nat)) (h : Scripted) :
    Option Nat × Scripted :=
  match h.writes with
  | [] => h.take offered lengths h.writeLimit
  | .move limit :: writes => { h with writes }.take offered lengths (some limit)
  | .claim count :: writes =>
    (some count, { h with writes }.see (.write offered lengths (some count)))
  | .fail :: writes => (none, { h with writes }.see .writeFailed)

/-- Write spans: all of them where writes gather, and otherwise the first that is not empty. -/
def write (spans : List Bytes) (h : Scripted) : Option Nat × Scripted :=
  if h.gathers then h.writeRun spans.flatten (some (spans.map List.length))
  else
    match firstSpan? spans with
    | some span => h.writeRun span none
    | none => (some 0, h)

/-- Move the clock on and read it. -/
def now (h : Scripted) : UInt32 × Scripted :=
  match h.ticks with
  | [] => let t := h.clock + h.step; (t, { h with clock := t })
  | tick :: ticks => let t := h.clock + tick; (t, { h with clock := t, ticks })

/-- Add to the log where guards leave a trace. -/
def guardMark (h : Scripted) (s : Sighting) : Scripted := if h.guards then h.see s else h

/-- No operation that can end asks for more than this: its script runs out, and then the clock
takes each of its values at most once before it repeats itself. -/
def patience (h : Scripted) : Nat :=
  h.reads.length + h.writes.length + h.ticks.length + h.incoming.length + 4294967296

instance : Host Scripted where
  read := read
  write := write
  flush h := (!h.flushFails, h.see (.flush !h.flushFails))
  now := now
  enter h := h.guardMark .enter
  exit h := h.guardMark .exit
  tracking h := h.see .tracking
  notify e h := h.see (.event e)
  patience := patience

end Scripted

end MqttClient
