import MqttClient.Session.Basic

/-!
# Filling and draining the network buffer

Reads of a known number of bytes, which may arrive in pieces with pauses between them.
-/
namespace MqttClient.Session
variable {ω : Type} [Host ω]

/-- Go on reading to the front of the network buffer until `length` bytes are there or a pause
is too long, in at most `n` reads. `progress` is the time at which the last bytes arrived. -/
def fillFrom (n length received : Nat) (progress : UInt32) : Act ω Nat := do
  if length ≤ received then return received
  match n with
  | 0 => Act.stall
  | n + 1 =>
    let count ← Act.readInto received (length - received)
    let now ← Act.now
    if count = 0 then
      if (← Act.session).settings.recvPollingTimeout ≤ now - progress then return received
      fillFrom n length received progress
    else fillFrom n length (received + count) now

/-- Read at most `length` bytes to the front of the network buffer, and give their number. -/
def fill (length : Nat) : Act ω Nat := do
  let scene ← get
  let length := min length scene.session.capacity
  let start ← Act.now
  fillFrom (Host.patience scene.host + length) length 0 start

/-- Read and drop `remaining` bytes, at most a buffer at a time, in at most `n` fillings. -/
def drain (n remaining : Nat) : Act ω Unit := do
  if remaining = 0 then return
  match n with
  | 0 => Act.stall
  | n + 1 =>
    let want := min remaining (← Act.session).capacity
    let got ← fill want
    if got < want then throw .recvFailed
    drain n (remaining - got)

/-- Read and drop `remaining` bytes of a packet that cannot be kept. The network buffer is
cleared whatever comes of it. -/
def discard (remaining : Nat) : Act ω Unit := do
  let result ← Act.outcome do
    if (← Act.session).capacity = 0 then throw .noMemory
    drain remaining remaining
  Act.change resetBuffer
  Act.ofResult result

end MqttClient.Session
