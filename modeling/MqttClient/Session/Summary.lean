import MqttClient.Session.Basic

/-!
# One-line summaries

A session in one line, as programs write it to their logs.
-/
namespace MqttClient

/-- The name of a protocol revision. -/
def Version.name : Version → String
  | v311 => "V3_1_1"
  | v5 => "V5"

/-- The name of a status. -/
def LinkStatus.name : LinkStatus → String
  | notConnected => "NotConnected"
  | connected => "Connected"

namespace Session

/-- The fields of a summary and their values. -/
def summaryFields (s : Session) : List (String × String) :=
  [("version", s.version.name),
    ("status", s.status.name),
    ("buffered", toString s.filled),
    ("buffer_len", toString s.capacity),
    ("next_packet_id", toString s.nextPacketId.toNat),
    ("keep_alive_s", toString s.keepAlive.toNat),
    ("waiting_for_ping_resp", if s.awaitsPingresp then "true" else "false")]

/-- A session in one line. Two dots stand for what it leaves out. -/
def summary (s : Session) : String :=
  let fields := s.summaryFields.map fun (name, value) => name ++ ": " ++ value ++ ", "
  "Context \x7b " ++ String.join fields ++ ".. \x7d"

end Session

end MqttClient
