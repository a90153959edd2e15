import MqttClient.Property.Id
import MqttClient.Wire.Reader

/-!
# Properties and property regions

A property is an identifier with a value of the identifier's shape. `Property.bytes` writes one,
and `Property.walk` reads a whole region: the properties before the first fault, in order, and
the fault if there is one.
-/
namespace MqttClient

namespace Shape

/-- The values of a shape. -/
@[reducible] def Value : Shape → Type
  | byte => UInt8
  | word => UInt16
  | long => UInt32
  | positive => Nat
  | text => String
  | binary => Bytes
  | pair => String × String

instance : (s : Shape) → DecidableEq s.Value
  | byte => inferInstanceAs (DecidableEq UInt8)
  | word => inferInstanceAs (DecidableEq UInt16)
  | long => inferInstanceAs (DecidableEq UInt32)
  | positive => inferInstanceAs (DecidableEq Nat)
  | text => inferInstanceAs (DecidableEq String)
  | binary => inferInstanceAs (DecidableEq Bytes)
  | pair => inferInstanceAs (DecidableEq (String × String))

/-- The bytes of a value. -/
def bytes : (s : Shape) → s.Value → Bytes
  | byte, v => [v]
  | word, v => Bytes.ofWord v
  | long, v => Bytes.ofLong v
  | positive, v => VarInt.bytes v
  | text, v => Bytes.framed (Bytes.ofText v)
  | binary, v => Bytes.framed v
  | pair, (key, value) => Bytes.framed (Bytes.ofText key) ++ Bytes.framed (Bytes.ofText value)

/-- Whether a value can be written: framed parts must not outgrow their length field, and a
variable byte integer lies between one and its maximum. -/
def fits : (s : Shape) → s.Value → Bool
  | byte, _ | word, _ | long, _ => true
  | positive, v => 0 < v && v ≤ VarInt.maxValue
  | text, v => (Bytes.ofText v).length ≤ Bytes.maxFieldLength
  | binary, v => v.length ≤ Bytes.maxFieldLength
  | pair, (key, value) =>
    (Bytes.ofText key).length ≤ Bytes.maxFieldLength &&
      (Bytes.ofText value).length ≤ Bytes.maxFieldLength

/-- Read a value. -/
def read : (s : Shape) → Reader s.Value
  | byte => Reader.byte
  | word => Reader.word
  | long => Reader.long
  | positive => do
    let v ← Reader.varint
    if v = 0 then Reader.refuse else return v
  | text => Reader.text
  | binary => Reader.framed
  | pair => do
    let key ← Reader.text
    let value ← Reader.text
    return (key, value)

end Shape

/-- A property and its value. -/
structure Property where
  id : PropertyId
  value : id.shape.Value
  deriving DecidableEq

/-- What reading a property region gives. -/
structure Walk where
  /-- The properties before the first fault. -/
  properties : List Property
  /-- The fault that ended the walk early. -/
  fault : Option Fault
  deriving DecidableEq

namespace Property

/-- The bytes of a property. -/
def bytes (p : Property) : Bytes := p.id.code :: p.id.shape.bytes p.value

/-- Read one property, given the identifiers seen before it. Unknown identifiers and repeated
ones that may occur only once are refused before their value is looked at. -/
def read (seen : List PropertyId) : Reader Property := do
  let code ← Reader.byte
  match PropertyId.ofCode? code with
  | none => Reader.refuse
  | some id =>
    if id ∈ seen ∧ id.repeatable = false then Reader.refuse
    else
      let value ← id.shape.read
      return ⟨id, value⟩

/-- Read at most `n` properties, given the identifiers seen before them. -/
def walkFrom : Nat → List PropertyId → Bytes → Walk
  | 0, _, _ | _ + 1, _, [] => ⟨[], none⟩
  | n + 1, seen, region =>
    match read seen region with
    | .error fault => ⟨[], some fault⟩
    | .ok (p, rest) =>
      let after := walkFrom n (seen.insert p.id) rest
      ⟨p :: after.properties, after.fault⟩

/-- Read a property region. A region holds no more properties than bytes. -/
def walk (region : Bytes) : Walk := walkFrom region.length [] region

/-- The value of the first property with a given identifier. -/
def find? (id : PropertyId) : List Property → Option id.shape.Value
  | [] => none
  | p :: rest => if h : p.id = id then some (h ▸ p.value) else find? id rest

/-- The number of bytes of a region together with its length. -/
def regionSize (region : Bytes) : Nat := VarInt.width region.length + region.length

end Property

namespace Walk

/-- Whether a region was read to its end and every property in it is one of `allowed`. -/
def within (w : Walk) (allowed : PropertyId → Bool) : Bool :=
  w.fault.isNone && w.properties.all fun p => allowed p.id

end Walk

end MqttClient
