import MqttClient.Protocol

/-!
# Reason codes

What the code of an answer means for the request it answers. A code that its packet type does
not know has no verdict.
-/
namespace MqttClient

/-- What an answer says about the request. -/
inductive Verdict where
  | accepted
  | refused
  deriving DecidableEq

namespace Reason

/-- The code of success. -/
def success : UInt8 := 0x00

/-- Refusals that an MQTT 5 CONNACK may carry. -/
def connackRefusals : List UInt8 :=
  [0x80, 0x81, 0x82, 0x83, 0x84, 0x85, 0x86, 0x87, 0x88, 0x89, 0x8A, 0x8C, 0x90, 0x95, 0x97,
    0x99, 0x9A, 0x9B, 0x9C, 0x9D, 0x9F]

/-- The verdict of a CONNACK code. -/
def connack (version : Version) (code : UInt8) : Option Verdict :=
  if code = success then some .accepted
  else
    match version with
    | .v311 => if code ≤ 5 then some .refused else none
    | .v5 => if code ∈ connackRefusals then some .refused else none

/-- The message found no subscriber. -/
def noMatchingSubscribers : UInt8 := 0x10

/-- The answered packet identifier is unknown. -/
def packetIdNotFound : UInt8 := 0x92

/-- Refusals of a published message. -/
def publishRefusals : List UInt8 := [0x80, 0x83, 0x87, 0x90, 0x91, 0x97, 0x99]

/-- The verdict of a code that answers a PUBLISH. -/
def publish (code : UInt8) : Option Verdict :=
  if code = success ∨ code = noMatchingSubscribers then some .accepted
  else if code ∈ publishRefusals then some .refused
  else none

/-- The verdict of a code in the second half of a handshake. -/
def release (code : UInt8) : Option Verdict :=
  if code = success then some .accepted
  else if code = packetIdNotFound then some .refused
  else none

/-- Refusals of a subscription on MQTT 5. -/
def subscribeRefusals : List UInt8 :=
  [0x80, 0x83, 0x87, 0x8F, 0x91, 0x97, 0x9E, 0xA1, 0xA2]

/-- The verdict of a SUBACK code. Success names the guarantee granted. -/
def subscribe (version : Version) (code : UInt8) : Option Verdict :=
  if code ≤ 2 then some .accepted
  else
    match version with
    | .v311 => if code = 0x80 then some .refused else none
    | .v5 => if code ∈ subscribeRefusals then some .refused else none

/-- There was no subscription to end. -/
def noSubscriptionExisted : UInt8 := 0x11

/-- Refusals to end a subscription. -/
def unsubscribeRefusals : List UInt8 := [0x80, 0x83, 0x87, 0x8F, 0x91]

/-- The verdict of an UNSUBACK code. -/
def unsubscribe (code : UInt8) : Option Verdict :=
  if code = success ∨ code = noSubscriptionExisted then some .accepted
  else if code ∈ unsubscribeRefusals then some .refused
  else none

/-- Disconnect and have the broker publish the will. -/
def disconnectWithWill : UInt8 := 0x04

/-- DISCONNECT codes that either side may send. -/
def sharedDisconnects : List UInt8 :=
  [0x80, 0x81, 0x82, 0x83, 0x90, 0x93, 0x94, 0x95, 0x96, 0x97, 0x98, 0x99]

/-- DISCONNECT codes that only a server may send. -/
def serverDisconnects : List UInt8 :=
  [0x87, 0x89, 0x8B, 0x8C, 0x8D, 0x8E, 0x8F, 0x9A, 0x9B, 0x9C, 0x9D, 0x9E, 0x9F, 0xA0, 0xA1, 0xA2]

/-- Whether a client may send a DISCONNECT code. -/
def clientMayDisconnect (code : UInt8) : Bool :=
  code == success || code == disconnectWithWill || sharedDisconnects.contains code

/-- Whether a server may send a DISCONNECT code. -/
def serverMayDisconnect (code : UInt8) : Bool :=
  code == success || sharedDisconnects.contains code || serverDisconnects.contains code

end Reason

end MqttClient
