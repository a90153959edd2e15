import MqttClient.Protocol
import MqttClient.VarInt

/-!
# Fixed headers

Every packet begins with a byte that names its type and a variable byte integer that counts the
bytes after it. `Header.decode` reads the header of an incoming packet from the front of the
bytes received so far, and `PacketSize.checked` counts the header of an outgoing one.
-/
namespace MqttClient

/-- The types of control packets. -/
inductive PacketType where
  | connect
  | connack
  | publish
  | puback
  | pubrec
  | pubrel
  | pubcomp
  | subscribe
  | suback
  | unsubscribe
  | unsuback
  | pingreq
  | pingresp
  | disconnect
  deriving DecidableEq

namespace PacketType

/-- The first byte of a packet of this type. The high half is the type and the low half its
fixed flags; a PUBLISH adds flags of its own. -/
def firstByte : PacketType → UInt8
  | connect => 0x10
  | connack => 0x20
  | publish => 0x30
  | puback => 0x40
  | pubrec => 0x50
  | pubrel => 0x62
  | pubcomp => 0x70
  | subscribe => 0x82
  | suback => 0x90
  | unsubscribe => 0xA2
  | unsuback => 0xB0
  | pingreq => 0xC0
  | pingresp => 0xD0
  | disconnect => 0xE0

/-- The type that the high half of a first byte names. -/
def ofFirstByte? (b : UInt8) : Option PacketType :=
  match b.toNat / 16 with
  | 1 => some connect
  | 2 => some connack
  | 3 => some publish
  | 4 => some puback
  | 5 => some pubrec
  | 6 => some pubrel
  | 7 => some pubcomp
  | 8 => some subscribe
  | 9 => some suback
  | 10 => some unsubscribe
  | 11 => some unsuback
  | 12 => some pingreq
  | 13 => some pingresp
  | 14 => some disconnect
  | _ => none

end PacketType

/-- The first byte without its flags. -/
def kindBits (firstByte : UInt8) : UInt8 := firstByte &&& 0xF0

/-- Whether a packet with this first byte may arrive at a client. The flag bit of a PUBREL must
be set, and only an MQTT 5 server may send DISCONNECT. -/
def mayArrive (version : Version) (firstByte : UInt8) : Bool :=
  match PacketType.ofFirstByte? firstByte with
  | some .connack | some .publish | some .puback | some .pubrec | some .pubcomp
  | some .suback | some .unsuback | some .pingresp => true
  | some .pubrel => firstByte &&& 0x02 != 0
  | some .disconnect => version == .v5
  | _ => false

/-- The header of an incoming packet. -/
structure Header where
  /-- Type and flags. -/
  firstByte : UInt8
  /-- The number of bytes after the header. -/
  remaining : Nat
  /-- The number of bytes of the header itself. -/
  length : Nat
  deriving DecidableEq

/-- An incoming packet: its header and the bytes after it. -/
structure Packet extends Header where
  data : Bytes
  deriving DecidableEq

namespace Header

/-- The number of bytes of the whole packet. -/
def total (h : Header) : Nat := h.length + h.remaining

/-- The packet of a header and the bytes after it. -/
def withData (h : Header) (data : Bytes) : Packet := { h with data }

/-- The header at the front of the bytes received so far. -/
def decode (version : Version) : Bytes → Except Fault Header
  | [] => .error .noDataAvailable
  | first :: rest =>
    if mayArrive version first then
      match VarInt.decode rest with
      | .ok (remaining, width) => .ok ⟨first, remaining, 1 + width⟩
      | .error fault => .error fault
    else .error .badResponse

end Header

/-- The sizes of an outgoing packet. -/
structure PacketSize where
  /-- The number of bytes after the header. -/
  remaining : Nat
  /-- The number of bytes of the whole packet. -/
  total : Nat
  deriving DecidableEq

namespace PacketSize

/-- The largest size of a packet: a type byte, four length bytes and the largest count. -/
def maxTotal : UInt32 := 268435460

/-- The number of bytes of the header. -/
def headerLength (s : PacketSize) : Nat := 1 + VarInt.width s.remaining

/-- The sizes of a packet with `remaining` bytes after its header, refused when the count or
the size is too large. -/
def checked (remaining : Nat) (max : UInt32) : Except Fault PacketSize :=
  if VarInt.maxValue < remaining then .error .badParameter
  else
    let total := 1 + VarInt.width remaining + remaining
    if max.toNat < total then .error .badParameter else .ok ⟨remaining, total⟩

end PacketSize

end MqttClient
