import MqttClient.VarInt

/-!
# Reading received fields

A `Reader` takes a field off the front of received bytes. Every field that the bytes do not
hold in full, and every malformed one, is `badResponse`.
-/
namespace MqttClient

/-- A step that takes something off the front of received bytes. -/
abbrev Reader := StateT Bytes (Except Fault)

namespace Reader

/-- Refuse the received bytes. -/
def refuse {α : Type} : Reader α := fun _ => .error .badResponse

/-- Exactly `n` bytes. -/
def take (n : Nat) : Reader Bytes := fun b =>
  let front := b.take n
  if front.length = n then .ok (front, b.drop n) else .error .badResponse

/-- All bytes that are left. -/
def rest : Reader Bytes := fun b => .ok (b, [])

/-- Refuse bytes that are left. -/
def done : Reader Unit := fun b =>
  if b.isEmpty then .ok ((), b) else .error .badResponse

/-- One byte. -/
def byte : Reader UInt8
  | a :: b => .ok (a, b)
  | [] => .error .badResponse

/-- A two-byte number. -/
def word : Reader UInt16
  | x :: y :: b => .ok (Bytes.word x y, b)
  | _ => .error .badResponse

/-- A four-byte number. -/
def long : Reader UInt32
  | w :: x :: y :: z :: b => .ok (Bytes.long w x y z, b)
  | _ => .error .badResponse

/-- A variable byte integer, which received fields hold in full. -/
def varint : Reader Nat := fun b =>
  match VarInt.decode b with
  | .ok (value, used) => .ok (value, b.drop used)
  | .error _ => .error .badResponse

/-- A byte string after its two-byte length. -/
def framed : Reader Bytes := do
  let length ← word
  take length.toNat

/-- A text after its two-byte length. -/
def text : Reader String := do
  match Bytes.text? (← framed) with
  | some s => return s
  | none => refuse

/-- A byte string after its length as a variable byte integer. -/
def region : Reader Bytes := do
  let length ← varint
  take length

end Reader

end MqttClient
