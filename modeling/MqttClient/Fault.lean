/-!
# Faults

The causes for which a codec or an operation of the client gives no result, and the wording
of each. `LinkFault` lists what a byte-stream transport may report about itself.
-/
namespace MqttClient

/-- Why a codec or an operation of the client gave no result. -/
inductive Fault where
  /-- An argument that the protocol or the broker does not allow. -/
  | badParameter
  /-- A destination or a table without room. -/
  | noMemory
  /-- The transport did not take a packet, or not in time. -/
  | sendFailed
  /-- The transport failed to read, or a packet did not arrive in time. -/
  | recvFailed
  /-- Received bytes that break the protocol. -/
  | badResponse
  /-- A well-formed answer that says no. -/
  | serverRefused
  /-- Nothing has arrived yet. -/
  | noDataAvailable
  /-- Part of what is wanted has arrived. -/
  | needMoreBytes
  /-- A step that the exchange of its packet identifier does not wait for. -/
  | illegalState
  /-- A packet identifier that is in use already. -/
  | stateCollision
  /-- A ping that was not answered in time. -/
  | keepAliveTimeout
  deriving DecidableEq

namespace Fault

/-- All faults, in their customary order. -/
def all : List Fault :=
  [badParameter, noMemory, sendFailed, recvFailed, badResponse, serverRefused,
    noDataAvailable, needMoreBytes, illegalState, stateCollision, keepAliveTimeout]

/-- The wording of a fault. -/
def message : Fault → String
  | badParameter => "bad parameter"
  | noMemory => "buffer too small"
  | sendFailed => "send failed"
  | recvFailed => "receive failed"
  | badResponse => "malformed or unexpected response"
  | serverRefused => "refused by server"
  | noDataAvailable => "no data available"
  | needMoreBytes => "need more bytes"
  | illegalState => "illegal publish state"
  | stateCollision => "publish state collision"
  | keepAliveTimeout => "keep-alive timeout"

/-- Whether a fault only asks the caller to come back when more bytes have arrived. -/
def isFlowSignal : Fault → Bool
  | noDataAvailable | needMoreBytes => true
  | _ => false

end Fault

/-- What a byte-stream transport may report about itself. -/
inductive LinkFault where
  | notOpen
  | writeFailed
  | readFailed
  | closedByPeer
  deriving DecidableEq

namespace LinkFault

/-- All transport faults, in their customary order. -/
def all : List LinkFault := [notOpen, writeFailed, readFailed, closedByPeer]

/-- The wording of a transport fault. -/
def message : LinkFault → String
  | notOpen => "connection not open"
  | writeFailed => "write failed"
  | readFailed => "read failed"
  | closedByPeer => "connection closed by peer"

end LinkFault

end MqttClient
