import MqttClient.Proofs.Running
import MqttClient.Session.Connecting
import MqttClient.Session.Receiving

/-!
# Operations that check what they touch

A list can be cut anywhere and a difference of lengths is never negative, but memory is not like
that. Here are the operations that touch the network buffer and the spans of a packet once more,
with each slice and each difference of lengths checked. A `Checked` operation breaks off where a
check fails, and gives `none`. While a packet is handled the network buffer is away, and it is put
back however handling ends.

`Checked.RunsAs` says that no check fails: the operation does what it does without them.
-/
namespace MqttClient

/-- The elements of a list from `first` up to `last`, which must lie in the list. -/
def slice? {α : Type} (first last : Nat) (l : List α) : Option (List α) :=
  if first ≤ last ∧ last ≤ l.length then some ((l.take last).drop first) else none

/-- The difference of two lengths, of which the second must not be larger. -/
def minus? (a b : Nat) : Option Nat := if b ≤ a then some (a - b) else none

example : slice? 1 3 [5, 6, 7] = some [6, 7] := by decide
example : slice? 1 4 [5, 6, 7] = none := by decide

/-- A session whose network buffer is away. -/
def Session.withoutBuffer (s : Session) : Session := { s with buffer := [] }

/-- An operation that breaks off where a check fails. -/
abbrev Checked (ω : Type) := OptionT (Act ω)

namespace Checked
variable {ω α : Type}

/-- The value of a check. -/
def of (a : Option α) : Checked ω α := OptionT.mk (pure a)

/-- An operation in which nothing is checked. -/
def plain (act : Act ω α) : Checked ω α := OptionT.lift act

/-- Run an operation and give its outcome as a result. A check that fails is none. -/
def outcome (chk : Checked ω α) : Checked ω (Except Fault α) := OptionT.mk do
  match ← Act.outcome chk.run with
  | .ok none => return none
  | .ok (some a) => return some (.ok a)
  | .error fault => return some (.error fault)

/-- From a scene the checked operation does what the other one does, and no check fails. -/
def RunsAs (chk : Checked ω α) (act : Act ω α) (σ : Scene ω) : Prop :=
  chk.run.runOn σ = (act.runOn σ).map fun (r, τ) => (r.map some, τ)

/-! ## Sending -/

/-- Go past the spans from `first` on that are empty. -/
def skipEmpty (first : Nat) (spans : List Bytes) : Nat :=
  if h : first < spans.length then
    if spans[first].isEmpty then skipEmpty (first + 1) spans else first
  else first
termination_by spans.length - first

/-- Drop `n` bytes from the front of the spans from `first` on: the spans, and where those that are
left begin. -/
def advance (n first : Nat) (spans : List Bytes) : Option (List Bytes × Nat) :=
  if h : 0 < n ∧ first < spans.length then
    let current := spans[first]
    if current.length ≤ n then
      (minus? n current.length).bind fun n => advance n (first + 1) spans
    else (slice? n current.length current).map fun left => (spans.set first left, first)
  else some (spans, first)
termination_by spans.length - first

variable [Host ω]

/-- Offer the spans from `first` on until `total` bytes are taken, of which `sent` have been, in at
most `n` writes. -/
def offer (n : Nat) (start : UInt32) (total sent first : Nat) (spans : List Bytes) :
    Checked ω Unit := do
  if total ≤ sent then return
  match n with
  | 0 => plain Act.stall
  | n + 1 =>
    let first := skipEmpty first spans
    let left ← of (slice? first spans.length spans)
    match ← plain (Act.guarded (Act.host (Host.write left))) with
    | none => plain (throw .sendFailed)
    | some count =>
      let count := min count (← of (minus? total sent))
      let (spans, first) ← of (advance count first spans)
      if sent + count < total then
        let elapsed := (← plain Act.now) - start
        if (← plain Act.session).settings.sendTimeout ≤ elapsed then plain (throw .sendFailed)
      offer n start total (sent + count) first spans

/-- Send spans as one packet and note the time. -/
def send (spans : List Bytes) : Checked ω Unit := do
  let start ← plain Act.now
  let total := Spans.size spans
  let scene ← plain get
  offer (Host.patience scene.host + total) start total 0 0 spans
  if !(← plain (Act.host Host.flush)) then plain (throw .sendFailed)
  let now ← plain Act.now
  plain <| Act.change fun s => { s with lastTx := now }

/-! ## Filling and draining the network buffer -/

/-- Read to the network buffer, from `first` up to `last`. -/
def readInto (first last : Nat) : Checked ω Nat := do
  let _ ← of (slice? first last (← plain Act.session).buffer)
  plain (Act.readInto first (← of (minus? last first)))

/-- Go on reading to the front of the network buffer until `length` bytes are there. -/
def fillFrom (n length received : Nat) (progress : UInt32) : Checked ω Nat := do
  if length ≤ received then return received
  match n with
  | 0 => plain Act.stall
  | n + 1 =>
    let count ← readInto received length
    let now ← plain Act.now
    if count = 0 then
      if (← plain Act.session).settings.recvPollingTimeout ≤ now - progress then return received
      fillFrom n length received progress
    else fillFrom n length (received + count) now

/-- Read at most `length` bytes to the front of the network buffer. -/
def fill (length : Nat) : Checked ω Nat := do
  let scene ← plain get
  let length := min length scene.session.capacity
  let start ← plain Act.now
  fillFrom (Host.patience scene.host + length) length 0 start

/-- Read and drop `remaining` bytes, at most a buffer at a time. -/
def drain (n remaining : Nat) : Checked ω Unit := do
  if remaining = 0 then return
  match n with
  | 0 => plain Act.stall
  | n + 1 =>
    let want := min remaining (← plain Act.session).capacity
    let got ← fill want
    let remaining ← of (minus? remaining got)
    if got < want then plain (throw .recvFailed)
    drain n remaining

/-- Read and drop `remaining` bytes, and clear the network buffer. -/
def discard (remaining : Nat) : Checked ω Unit := do
  let result ← outcome do
    if (← plain Act.session).capacity = 0 then plain (throw .noMemory)
    drain remaining remaining
  plain (Act.change Session.resetBuffer)
  plain (Act.ofResult result)

/-! ## Waiting for CONNACK -/

/-- Decode the CONNACK at the front of the network buffer, and blank it out when it is accepted. -/
def acceptConnack (header : Header) : Checked ω Bool := do
  let s ← plain Act.session
  let packet := header.withData (← of (slice? 0 header.remaining s.buffer))
  let (result, negotiated) := Connack.decode s.version packet s.negotiated
  plain <| Act.change fun s => { s with negotiated }
  let connack ← plain (Act.ofResult result)
  let _ ← of (slice? 0 header.remaining (← plain Act.session).buffer)
  plain <| Act.change fun s => { s with
    buffer := List.replicate header.remaining 0 ++ s.buffer.drop header.remaining }
  return connack.sessionPresent

/-- Wait for CONNACK and apply it. -/
def receiveConnack (timeout : UInt32) : Checked ω Bool := do
  let start ← plain Act.now
  let scene ← plain get
  let looks := Host.patience scene.host + scene.session.settings.connackRetries.toNat + 1
  let header ← plain (Session.awaitHeader looks start timeout 0)
  if header.firstByte ≠ PacketType.connack.firstByte then plain (throw .badResponse)
  if scene.session.capacity < header.remaining then
    discard header.remaining
    plain (throw .noMemory)
  let received ← fill header.remaining
  if received < header.remaining then plain (throw .recvFailed)
  acceptConnack header

/-! ## Receiving -/

/-- Put a network buffer back that was away, and take `n` bytes off its front. -/
def putBack (n : Nat) (buffer : Bytes) : Checked ω Unit := do
  let s ← plain Act.session
  let kept ← of (slice? n s.filled buffer)
  let filled ← of (minus? s.filled n)
  plain <| Act.change fun s => { s with buffer := kept ++ buffer.drop kept.length, filled }

/-- Handle the packet at the front of the network buffer. The buffer is away meanwhile. -/
def handleFront (managed : Bool) (header : Header) : Checked ω Progress := do
  let buffer := (← plain Act.session).buffer
  let packet := header.withData (← of (slice? header.length header.total buffer))
  plain (Act.change Session.withoutBuffer)
  let result ← plain (Act.outcome (Session.dispatch managed packet))
  putBack header.total buffer
  plain (Act.ofResult result)
  let now ← plain Act.now
  plain <| Act.change fun s => { s with lastRx := now }
  return .packet header.firstByte

/-- Look at what the network buffer holds. -/
def handleBuffered (managed : Bool) : Checked ω Progress := do
  let s ← plain Act.session
  if s.filled = 0 then return .noData
  match Header.decode s.version (← of (slice? 0 s.filled s.buffer)) with
  | .error .needMoreBytes => return .needMoreBytes
  | .error fault => plain (throw fault)
  | .ok header =>
    if s.capacity < header.total then
      discard (← of (minus? header.total s.filled))
      return .noData
    else if s.filled < header.total then return .needMoreBytes
    else handleFront managed header

/-- Read once, and handle at most one packet. -/
def receive (managed : Bool) : Checked ω Progress := do
  let s ← plain Act.session
  let received ← readInto s.filled s.capacity
  plain <| Act.change fun s => { s with filled := s.filled + received }
  if received = 0 ∧ managed then plain Session.keepAliveDuty
  handleBuffered managed

end Checked

end MqttClient
