/-!
# Settings

The waiting times of a client. `Setting` names them one by one, so that they can be written and
read as fields of a text.
-/
namespace MqttClient

/-- The waiting times of a client, in milliseconds. -/
structure Settings where
  /-- How long sending a packet may take. -/
  sendTimeout : UInt32 := 20000
  /-- How long a packet may pause while it arrives. -/
  recvPollingTimeout : UInt32 := 10
  /-- How long the answer to a ping may take. -/
  pingrespTimeout : UInt32 := 5000
  /-- The longest silence of the client before it pings; zero switches it off. -/
  txIdle : UInt32 := 30000
  /-- The longest silence of the broker before the client pings; zero switches it off. -/
  rxIdle : UInt32 := 30000
  /-- How often to look again for CONNACK where no time is set for it. -/
  connackRetries : UInt16 := 5
  deriving DecidableEq

/-- The names of the settings. -/
inductive Setting where
  | sendTimeout
  | recvPollingTimeout
  | pingrespTimeout
  | txIdle
  | rxIdle
  | connackRetries
  deriving DecidableEq

namespace Setting

/-- All settings, in the order in which they are written. -/
def all : List Setting :=
  [sendTimeout, recvPollingTimeout, pingrespTimeout, txIdle, rxIdle, connackRetries]

/-- The name of a setting in a text. -/
def name : Setting → String
  | sendTimeout => "send_timeout_ms"
  | recvPollingTimeout => "recv_polling_timeout_ms"
  | pingrespTimeout => "pingresp_timeout_ms"
  | txIdle => "keep_alive_tx_idle_ms"
  | rxIdle => "keep_alive_rx_idle_ms"
  | connackRetries => "connack_retry_count"

/-- The setting of a name. -/
def ofName? (name : String) : Option Setting := all.find? fun s => s.name == name

/-- The largest value of a setting. -/
def maxValue : Setting → Nat
  | connackRetries => 65535
  | _ => 4294967295

theorem mem_all (f : Setting) : f ∈ all := by
  cases f <;> decide

theorem nodup_all : all.Nodup := by decide

theorem ofName?_name (f : Setting) : ofName? f.name = some f := by
  cases f <;> decide

end Setting

namespace Settings

/-- The value of a setting. -/
def get (s : Settings) : Setting → Nat
  | .sendTimeout => s.sendTimeout.toNat
  | .recvPollingTimeout => s.recvPollingTimeout.toNat
  | .pingrespTimeout => s.pingrespTimeout.toNat
  | .txIdle => s.txIdle.toNat
  | .rxIdle => s.rxIdle.toNat
  | .connackRetries => s.connackRetries.toNat

/-- Change the value of a setting, which must not exceed the setting's largest value. -/
def set (s : Settings) (setting : Setting) (value : Nat) : Settings :=
  match setting with
  | .sendTimeout => { s with sendTimeout := UInt32.ofNat value }
  | .recvPollingTimeout => { s with recvPollingTimeout := UInt32.ofNat value }
  | .pingrespTimeout => { s with pingrespTimeout := UInt32.ofNat value }
  | .txIdle => { s with txIdle := UInt32.ofNat value }
  | .rxIdle => { s with rxIdle := UInt32.ofNat value }
  | .connackRetries => { s with connackRetries := UInt16.ofNat value }

variable {s t : Settings} {f g : Setting} {v : Nat}

theorem get_le (s : Settings) (f : Setting) : s.get f ≤ f.maxValue := by
  cases f <;> simp only [get, Setting.maxValue]
  case connackRetries => exact Nat.le_of_lt_succ s.connackRetries.toNat_lt
  all_goals exact Nat.le_of_lt_succ (UInt32.toNat_lt _)

theorem get_set (h : v ≤ f.maxValue) : (s.set f v).get g = if g = f then v else s.get g := by
  cases f <;> cases g <;> simp [set, get]
  all_goals
    simp only [Setting.maxValue] at h
    omega

/-- Settings are known by their values. -/
theorem eq_of_get (h : ∀ f, s.get f = t.get f) : s = t := by
  cases s
  cases t
  congr
  · exact UInt32.toNat.inj (h .sendTimeout)
  · exact UInt32.toNat.inj (h .recvPollingTimeout)
  · exact UInt32.toNat.inj (h .pingrespTimeout)
  · exact UInt32.toNat.inj (h .txIdle)
  · exact UInt32.toNat.inj (h .rxIdle)
  · exact UInt16.toNat.inj (h .connackRetries)

end Settings

/-- Why settings could not be read or written. -/
inductive SettingsFault where
  /-- The text holds no settings. -/
  | malformed
  /-- The text does not fit. -/
  | noRoom
  deriving DecidableEq

namespace SettingsFault

/-- Both faults, in their customary order. -/
def all : List SettingsFault := [malformed, noRoom]

/-- The wording of a fault. -/
def message : SettingsFault → String
  | malformed => "invalid configuration JSON"
  | noRoom => "configuration does not fit the buffer"

end SettingsFault

end MqttClient
