import MqttClient.Packet.Publish
import MqttClient.Packet.Reason

/-!
# The host of a client

A client owns no socket, no clock and no lock. `Host` lists what it asks of the program around
it: a byte stream, milliseconds, a place for incoming packets, and a pair of hooks around each
piece of work that other threads must not see half done. A host's calls are the only effects
that a session has beyond its own state.

A stream may say that it moved another number of bytes than it did; the session has to live
with what it is told. `patience` bounds how often one operation asks its host for something,
so that an operation on a host that makes no progress for ever has no answer instead of none
being found.
-/
namespace MqttClient

/-- What a session reports about an incoming packet. -/
structure Event where
  packet : Packet
  /-- The packet identifier, zero where the packet has none. -/
  packetId : UInt16
  /-- The message of a PUBLISH. -/
  message : Option Message := none
  verdict : Verdict := .accepted
  /-- The reason code of an acknowledgement or a DISCONNECT on MQTT 5. -/
  reason : Option UInt8 := none
  /-- The property region. -/
  properties : Bytes := []
  deriving DecidableEq

/-- What a client asks of the program around it. -/
class Host (ω : Type) where
  /-- Read at most the given number of bytes: the count reported and the bytes that arrived, or
  nothing when reading fails. No bytes means that none are there yet. -/
  read : Nat → ω → Option (Nat × Bytes) × ω
  /-- Offer spans of bytes to be written in their order: the count reported as taken, or
  nothing when writing fails. -/
  write : List Bytes → ω → Option Nat × ω
  /-- Push written bytes out, and say whether that succeeded. -/
  flush : ω → Bool × ω
  /-- The time in milliseconds, which wraps. -/
  now : ω → UInt32 × ω
  /-- Called before guarded work. -/
  enter : ω → ω
  /-- Called after guarded work. -/
  exit : ω → ω
  /-- Called when the table of open exchanges is being updated, for hosts that follow it. -/
  tracking : ω → ω
  /-- Take an incoming packet. -/
  notify : Event → ω → ω
  /-- How many fruitless calls one operation may make. -/
  patience : ω → Nat

namespace Host
variable {ω : Type} [Host ω]

/-- Read one byte. A byte that is reported but did not arrive reads as zero. -/
def readByte (host : ω) : Option (Nat × UInt8) × ω :=
  match read 1 host with
  | (none, host) => (none, host)
  | (some (count, arrived), host) => (some (count, arrived.headD 0), host)

/-- Finish a pending variable byte integer from the stream, in at most `n` reads. Every byte of
it must be there. -/
def readVarIntFrom : Nat → VarInt.Pending → ω → Except Fault Nat × ω
  | 0, _, host => (.error .badResponse, host)
  | n + 1, p, host =>
    match readByte host with
    | (some (count, b), host) =>
      if count = 1 then
        match p.push b with
        | .error fault => (.error fault, host)
        | .ok (.done value) => (.ok value, host)
        | .ok (.more q) => readVarIntFrom n q host
      else (.error .badResponse, host)
    | (none, host) => (.error .badResponse, host)

/-- Read a variable byte integer from the stream, one byte at a time. The byte after the longest
form is read before it is refused. -/
def readVarInt (host : ω) : Except Fault Nat × ω :=
  readVarIntFrom (VarInt.maxWidth + 1) .start host

/-- Read the header of an incoming packet from the stream; `noDataAvailable` when none has
begun. -/
def readHeader (version : Version) (host : ω) : Except Fault Header × ω :=
  match readByte host with
  | (none, host) => (.error .recvFailed, host)
  | (some (count, first), host) =>
    if count = 0 then (.error .noDataAvailable, host)
    else if mayArrive version first then
      match readVarInt host with
      | (.error fault, host) => (.error fault, host)
      | (.ok remaining, host) => (.ok ⟨first, remaining, 1 + VarInt.width remaining⟩, host)
    else (.error .badResponse, host)

end Host

/-- The first span that is not empty, which is what a transport without gathered writes is
offered of several spans. -/
def firstSpan? (spans : List Bytes) : Option Bytes := spans.find? fun span => !span.isEmpty

end MqttClient
