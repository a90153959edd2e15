import MqttClient.Negotiated
import MqttClient.Packet.Reason

/-!
# CONNACK

The broker's answer to CONNECT. Decoding it also fills in the broker's half of the negotiated
values; what was applied before a fault stays applied.
-/
namespace MqttClient

/-- A broker's consent to a session. -/
structure Connack where
  /-- Whether the broker kept the state of an earlier session. -/
  sessionPresent : Bool
  reason : UInt8
  /-- The property region, empty before MQTT 5. -/
  properties : Bytes := []
  deriving DecidableEq

namespace Connack

/-- The value of a property of the answer. -/
def property? (c : Connack) (id : PropertyId) : Option id.shape.Value :=
  Property.find? id (Property.walk c.properties).properties

/-- The property region of an answer, which only MQTT 5 has and which fills what is left. -/
def readRegion : Version → Reader Bytes
  | .v311 => pure []
  | .v5 => do
    let region ← Reader.region
    Reader.done
    return region

/-- Read the fields of a CONNACK. No session can be present on a refusal. -/
def read (version : Version) : Reader Connack := do
  let flags ← Reader.byte
  if flags &&& 0xFE ≠ 0 then Reader.refuse
  let reason ← Reader.byte
  let sessionPresent := flags &&& 0x01 != 0
  if sessionPresent ∧ reason ≠ Reason.success then Reader.refuse
  let properties ← readRegion version
  return { sessionPresent, reason, properties }

/-- What a reason code makes of an answer. -/
def judge (version : Version) (c : Connack) : Except Fault Connack :=
  match Reason.connack version c.reason with
  | some .accepted => .ok c
  | some .refused => .error .serverRefused
  | none => .error .badResponse

/-- Decode a CONNACK and apply its properties to the negotiated values. A fault in the
properties outweighs a refusal. -/
def decode (version : Version) (packet : Packet) (n : Negotiated) :
    Except Fault Connack × Negotiated :=
  if !version.hasProperties ∧ packet.remaining ≠ 2 then (.error .badResponse, n)
  else
    match (read version).run' packet.data with
    | .error fault => (.error fault, n)
    | .ok c =>
      match n.applyConnack c.properties with
      | (.error fault, n) => (.error fault, n)
      | (.ok (), n) => (c.judge version, n)

/-- Refuse a stored session after a clean one was asked for. -/
def checkSession (clean present : Bool) : Except Fault Unit :=
  if clean && present then .error .badResponse else .ok ()

end Connack

end MqttClient
