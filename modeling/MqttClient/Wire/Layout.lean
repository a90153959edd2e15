import MqttClient.Bytes
import MqttClient.Fault

/-!
# Laying out packets in bounded room

A writer knows how much room it has. `lay` places pieces one after another and stops at the
first one that is refused or does not fit; `fit` places spans that are known already and looks
at their sum only. `store` is the view of a buffer that a writer fills from its front.
-/
namespace MqttClient.Layout

/-- Place pieces one after another into `room` bytes. -/
def lay : Nat → List (Except Fault Bytes) → Except Fault Bytes
  | _, [] => .ok []
  | room, piece :: pieces => do
    let front ← piece
    if room < front.length then throw .noMemory
    let back ← lay (room - front.length) pieces
    return front ++ back

/-- Place spans back to back into `room` bytes. -/
def fit (room : Nat) (spans : List Bytes) : Except Fault Bytes :=
  let whole := spans.flatten
  if room < whole.length then .error .noMemory else .ok whole

/-- A byte string after its two-byte length, refused when the length field cannot carry it. -/
def framed (b : Bytes) : Except Fault Bytes :=
  if Bytes.maxFieldLength < b.length then .error .badParameter else .ok (Bytes.framed b)

/-- Let a writer fill a buffer from its front: how many bytes it wrote, and the buffer
afterwards. A writer that fails leaves the buffer as it was. -/
def store (buffer : Bytes) (write : Nat → Except Fault Bytes) : Except Fault Nat × Bytes :=
  match write buffer.length with
  | .ok out => (.ok out.length, out ++ buffer.drop out.length)
  | .error fault => (.error fault, buffer)

end MqttClient.Layout
