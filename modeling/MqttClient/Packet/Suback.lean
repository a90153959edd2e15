import MqttClient.Packet.Ack

/-!
# SUBACK and UNSUBACK

The answers to SUBSCRIBE and UNSUBSCRIBE: one reason code per topic filter, except that the
UNSUBACK of the older revision has none.
-/
namespace MqttClient

/-- A decoded SUBACK or UNSUBACK. -/
structure Suback where
  packetId : UInt16
  /-- One code per topic filter. -/
  codes : Bytes
  /-- The property region, empty before MQTT 5. -/
  properties : Bytes := []
  deriving DecidableEq

namespace Suback

/-- Read the fields of a SUBACK or an UNSUBACK, given its first byte without flags. -/
def read (version : Version) (kind : UInt8) : Reader Suback := do
  let packetId ← Reader.word
  if packetId = 0 then Reader.refuse
  let properties ← if version.hasProperties then Ack.readDiagnostics else pure []
  let codes ← Reader.rest
  let wantsCodes := kind == PacketType.suback.firstByte || version.hasProperties
  if wantsCodes == codes.isEmpty then Reader.refuse
  return { packetId, codes, properties }

/-- Decode a SUBACK or an UNSUBACK. Its codes are not looked at. -/
def decode (version : Version) (packet : Packet) : Except Fault Suback :=
  (read version (kindBits packet.firstByte)).run' packet.data

/-- What one code means. -/
def codeVerdict (kind : UInt8) (version : Version) (code : UInt8) : Option Verdict :=
  if kind = PacketType.suback.firstByte then Reason.subscribe version code
  else Reason.unsubscribe code

/-- What the codes mean together: unknown if one of them is, accepted if there are none or one
of them accepts, and refused otherwise. -/
def verdict (s : Suback) (kind : UInt8) (version : Version) : Option Verdict :=
  let verdicts := s.codes.map (codeVerdict kind version)
  if verdicts.contains none then none
  else if verdicts.isEmpty || verdicts.contains (some .accepted) then some .accepted
  else some .refused

/-- The server's diagnostic. -/
def reasonString? (s : Suback) : Option String :=
  Property.find? .reasonString (Property.walk s.properties).properties

/-- The return codes of a SUBACK of the older revision. -/
def statusCodes (packet : Packet) : Except Fault Bytes :=
  if kindBits packet.firstByte ≠ PacketType.suback.firstByte ∨ packet.remaining < 3 ∨
      packet.data.length < 2 then
    .error .badParameter
  else .ok (packet.data.drop 2)

end Suback

end MqttClient
