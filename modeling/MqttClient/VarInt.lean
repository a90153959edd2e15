import MqttClient.Bytes
import MqttClient.Fault

/-!
# Variable byte integers

Numbers written seven bits at a time, least significant group first, every byte but the last
with its high bit set. Four bytes reach up to `maxValue`, and only the shortest form of a
number is accepted. `Pending` is a number of which some bytes have been seen, so that one
decoder serves a byte string (`decode`) and a stream that yields one byte at a time.
-/
namespace MqttClient.VarInt

/-- The largest number that four groups carry. -/
def maxValue : Nat := 268435455

/-- The number of bytes of the longest form. -/
def maxWidth : Nat := 4

/-- The number of bytes in the shortest form of a number up to `maxValue`. -/
def width (value : Nat) : Nat :=
  if value < 128 then 1
  else if value < 16384 then 2
  else if value < 2097152 then 3
  else 4

/-- The groups of a number, at most `n` of them. -/
def groups : Nat → Nat → Bytes
  | 0, _ => []
  | n + 1, value =>
    if value < 128 then [UInt8.ofNat value]
    else UInt8.ofNat (value % 128 + 128) :: groups n (value / 128)

/-- The shortest form of a number up to `maxValue`. -/
def bytes (value : Nat) : Bytes := groups maxWidth value

/-- The shortest form of a number, refused above `maxValue`. -/
def encode (value : Nat) : Except Fault Bytes :=
  if value ≤ maxValue then .ok (bytes value) else .error .badParameter

/-- Overwrite the first `n` bytes of a buffer with the groups of a number. -/
def overwrite : Nat → Nat → Bytes → Bytes
  | 0, _, buffer => buffer
  | _ + 1, _, [] => []
  | n + 1, value, _ :: buffer =>
    let group := value % 128
    let left := value / 128
    UInt8.ofNat (if 0 < left then group + 128 else group) :: overwrite n left buffer

/-- Write the shortest form of a number over the front of a buffer: how many bytes were written,
and the buffer afterwards. A refused buffer keeps all its bytes. -/
def write (value : Nat) (buffer : Bytes) : Except Fault Nat × Bytes :=
  if maxValue < value then (.error .badParameter, buffer)
  else if buffer.length < width value then (.error .noMemory, buffer)
  else (.ok (width value), overwrite (width value) value buffer)

/-- A number of which `taken` bytes have been seen. -/
structure Pending where
  value : Nat
  taken : Nat
  deriving DecidableEq

/-- What one more byte makes of a pending number. -/
inductive Step where
  | more (rest : Pending)
  | done (value : Nat)
  deriving DecidableEq

namespace Pending

/-- A number of which nothing has been seen. -/
def start : Pending := ⟨0, 0⟩

/-- Take in one byte. A fifth byte and a form that is not the shortest are refused. -/
def push (p : Pending) (b : UInt8) : Except Fault Step :=
  if p.taken = maxWidth then .error .badResponse
  else
    let value := p.value + b.toNat % 128 * Nat.pow 128 p.taken
    if 128 ≤ b.toNat then .ok (.more ⟨value, p.taken + 1⟩)
    else if p.taken + 1 = width value then .ok (.done value)
    else .error .badResponse

end Pending

/-- Finish a pending number from the front of a byte string: its value and the number of bytes
of its whole form. -/
def decodeFrom (p : Pending) : Bytes → Except Fault (Nat × Nat)
  | [] => .error .needMoreBytes
  | b :: rest =>
    match p.push b with
    | .error fault => .error fault
    | .ok (.more q) => decodeFrom q rest
    | .ok (.done value) => .ok (value, p.taken + 1)

/-- The number at the front of a byte string and the number of bytes it takes; `needMoreBytes`
when the string ends inside it. -/
def decode (b : Bytes) : Except Fault (Nat × Nat) := decodeFrom .start b

end MqttClient.VarInt
