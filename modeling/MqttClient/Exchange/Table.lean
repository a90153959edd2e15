import MqttClient.Exchange.State

/-!
# Exchange tables

The open exchanges of a client, one bounded list of records for each side, in the order in
which they were opened. An operation that fails gives no new table. A completed exchange leaves
its list, and the order of the others stays.
-/
namespace MqttClient

/-- An open exchange. -/
structure Record where
  id : UInt16
  qos : QoS
  state : ExchangeState
  deriving DecidableEq

/-- The open exchanges of a client. -/
structure ExchangeTable where
  /-- How many messages the client may have open. -/
  outgoingCapacity : Nat
  /-- How many messages the broker may have open. -/
  incomingCapacity : Nat
  outgoing : List Record := []
  incoming : List Record := []
  deriving DecidableEq

namespace Record

/-- The record of an identifier. -/
def find? (id : UInt16) (records : List Record) : Option Record :=
  records.find? fun r => r.id == id

/-- Drop the record of an identifier. -/
def drop (id : UInt16) (records : List Record) : List Record :=
  records.filter fun r => r.id != id

/-- Move the record of an identifier to a state, and drop it when that completes it. -/
def settle (id : UInt16) (next : ExchangeState) (records : List Record) : List Record :=
  if next = .complete then drop id records
  else records.map fun r => if r.id = id then { r with state := next } else r

/-- Add a record behind the others, at most `capacity` in all. -/
def push (capacity : Nat) (r : Record) (records : List Record) : Except Fault (List Record) :=
  if records.length < capacity then .ok (records ++ [r]) else .error .noMemory

end Record

namespace ExchangeTable

/-- A table without exchanges. -/
def empty (outgoingCapacity incomingCapacity : Nat) : ExchangeTable :=
  { outgoingCapacity, incomingCapacity }

/-- The records of a side. -/
def records (t : ExchangeTable) : Side → List Record
  | .outgoing => t.outgoing
  | .incoming => t.incoming

/-- Replace the records of a side. -/
def withRecords (t : ExchangeTable) (side : Side) (records : List Record) : ExchangeTable :=
  match side with
  | .outgoing => { t with outgoing := records }
  | .incoming => { t with incoming := records }

/-- Open an exchange before its message is sent. -/
def reserve (t : ExchangeTable) (id : UInt16) (qos : QoS) : Except Fault ExchangeTable := do
  if id = 0 ∨ qos = .atMostOnce then throw .badParameter
  if (Record.find? id t.outgoing).isSome then throw .stateCollision
  let outgoing ← Record.push t.outgoingCapacity ⟨id, qos, .reserved⟩ t.outgoing
  return { t with outgoing }

/-- Note that a message was sent. Its exchange must be open with the same guarantee and not
have been answered. -/
def onPublishSent (t : ExchangeTable) (id : UInt16) (qos : QoS) :
    Except Fault (ExchangeState × ExchangeTable) :=
  match Record.find? id t.outgoing with
  | none => .error .illegalState
  | some r =>
    if r.qos = qos ∧ r.state.canPublish then
      let next := ExchangeState.opening .sent qos
      .ok (next, { t with outgoing := Record.settle id next t.outgoing })
    else .error .illegalState

/-- Note that a message was received, which opens its exchange. -/
def onPublishReceived (t : ExchangeTable) (id : UInt16) (qos : QoS) :
    Except Fault (ExchangeState × ExchangeTable) := do
  if (Record.find? id t.incoming).isSome then throw .stateCollision
  let next := ExchangeState.opening .received qos
  let incoming ← Record.push t.incomingCapacity ⟨id, qos, next⟩ t.incoming
  return (next, { t with incoming })

/-- Note that a message was sent or received. An untracked one opens nothing. -/
def onPublish (t : ExchangeTable) (id : UInt16) (direction : Direction) (qos : QoS) :
    Except Fault (ExchangeState × ExchangeTable) :=
  if qos = .atMostOnce then .ok (.complete, t)
  else
    match direction with
    | .sent => t.onPublishSent id qos
    | .received => t.onPublishReceived id qos

/-- Note that an acknowledgement was sent or received. Its exchange must be open and wait for
just this one. -/
def onAck (t : ExchangeTable) (id : UInt16) (ack : AckKind) (direction : Direction) :
    Except Fault (ExchangeState × ExchangeTable) :=
  let side := ack.side direction
  match Record.find? id (t.records side) with
  | none => .error .illegalState
  | some r =>
    match r.state.onAck ack direction with
    | none => .error .illegalState
    | some next => .ok (next, t.withRecords side (Record.settle id next (t.records side)))

/-- The first of some records whose PUBREL is to be sent again, with the number of records
looked at added to `cursor`. -/
def scanPubrels (cursor : Nat) : List Record → Option UInt16 × Nat
  | [] => (none, cursor)
  | r :: rest =>
    if r.state.resumesWithPubrel then (some r.id, cursor + 1) else scanPubrels (cursor + 1) rest

/-- The next identifier at or after `cursor` whose PUBREL is to be sent again, and the cursor
past it. -/
def nextPubrel (t : ExchangeTable) (cursor : Nat) : Option UInt16 × Nat :=
  scanPubrels cursor (t.outgoing.drop cursor)

/-- Forget a message of the client. -/
def remove (t : ExchangeTable) (id : UInt16) : ExchangeTable :=
  { t with outgoing := Record.drop id t.outgoing }

/-- Forget all exchanges, as a clean session does. -/
def clear (t : ExchangeTable) : ExchangeTable := { t with outgoing := [], incoming := [] }

end ExchangeTable

end MqttClient
