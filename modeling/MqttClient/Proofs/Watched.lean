import Mathlib.Data.Nat.Notation
import MqttClient.Scripted

/-!
# Watched hosts

A host of any kind together with a record of the calls made to it. Statements about what an
operation does to the outside are statements about this record: the bytes that were taken
(`written`) and the packets that were reported (`reported`).
-/
namespace MqttClient

/-- A call of a host, with its answer. -/
inductive HostCall where
  | read (asked : ℕ) (answer : Option (ℕ × Bytes))
  | write (spans : List Bytes) (answer : Option ℕ)
  | flush (succeeded : Bool)
  | now (time : UInt32)
  | enter
  | exit
  | tracking
  | notify (event : Event)
  deriving DecidableEq

namespace HostCall

/-- The bytes that a call offers to be written. -/
def offered : HostCall → Bytes
  | write spans _ => spans.flatten
  | _ => []

/-- The bytes that a call has taken, as far as the host says. -/
def taken : HostCall → Bytes
  | write spans (some count) => spans.flatten.take count
  | _ => []

/-- The packet that a call reports, if any. -/
def event? : HostCall → Option Event
  | notify event => some event
  | _ => none

/-- Whether a call asks for bytes to be written. -/
def IsWrite : HostCall → Prop
  | write _ _ => True
  | _ => False

/-- The calls of which sending a packet consists. -/
def IsSending : HostCall → Prop
  | write _ _ | flush _ | now _ | enter | exit => True
  | _ => False

instance : DecidablePred IsWrite := fun c => by
  cases c <;> unfold IsWrite <;> infer_instance

end HostCall

/-- The bytes taken by calls that are listed latest first. -/
def written (calls : List HostCall) : Bytes := calls.reverse.flatMap HostCall.taken

/-- The packets reported by calls that are listed latest first. -/
def reported (calls : List HostCall) : List Event := calls.reverse.filterMap HostCall.event?

@[simp] theorem written_nil : written [] = [] := rfl
@[simp] theorem written_cons (c : HostCall) (calls : List HostCall) :
    written (c :: calls) = written calls ++ c.taken := by simp [written]
@[simp] theorem written_append (later earlier : List HostCall) :
    written (later ++ earlier) = written earlier ++ written later := by simp [written]

theorem written_eq_nil {calls : List HostCall} (h : ∀ c ∈ calls, ¬c.IsWrite) :
    written calls = [] := by
  simp only [written, List.flatMap_eq_nil_iff, List.mem_reverse]
  intro c hc
  cases c with
  | write spans answer => exact (h _ hc trivial).elim
  | _ => rfl

@[simp] theorem reported_nil : reported [] = [] := rfl
@[simp] theorem reported_cons (c : HostCall) (calls : List HostCall) :
    reported (c :: calls) = reported calls ++ c.event?.toList := by
  cases h : c.event? <;> simp [reported, h]
@[simp] theorem reported_append (later earlier : List HostCall) :
    reported (later ++ earlier) = reported earlier ++ reported later := by simp [reported]

/-- Sending a packet reports none. -/
theorem reported_eq_nil_of_sending {calls : List HostCall} (h : ∀ c ∈ calls, c.IsSending) :
    reported calls = [] := by
  simp only [reported, List.filterMap_eq_nil_iff, List.mem_reverse]
  intro c hc
  cases c with
  | notify event => exact (h _ hc).elim
  | _ => rfl

/-- A host and the calls made to it. -/
structure Watched (ω : Type) where
  host : ω
  /-- The calls, latest first. -/
  calls : List HostCall := []

namespace Watched
variable {ω : Type} [Host ω]

instance : Host (Watched ω) where
  read n w :=
    let (answer, host) := Host.read n w.host
    (answer, ⟨host, .read n answer :: w.calls⟩)
  write spans w :=
    let (answer, host) := Host.write spans w.host
    (answer, ⟨host, .write spans answer :: w.calls⟩)
  flush w :=
    let (succeeded, host) := Host.flush w.host
    (succeeded, ⟨host, .flush succeeded :: w.calls⟩)
  now w :=
    let (time, host) := Host.now w.host
    (time, ⟨host, .now time :: w.calls⟩)
  enter w := ⟨Host.enter w.host, .enter :: w.calls⟩
  exit w := ⟨Host.exit w.host, .exit :: w.calls⟩
  tracking w := ⟨Host.tracking w.host, .tracking :: w.calls⟩
  notify event w := ⟨Host.notify event w.host, .notify event :: w.calls⟩
  patience w := Host.patience w.host

@[simp] theorem calls_read (n : ℕ) (w : Watched ω) :
    (Host.read n w).2.calls = .read n (Host.read n w.host).1 :: w.calls := rfl
@[simp] theorem calls_write (spans : List Bytes) (w : Watched ω) :
    (Host.write spans w).2.calls = .write spans (Host.write spans w.host).1 :: w.calls := rfl
@[simp] theorem calls_flush (w : Watched ω) :
    (Host.flush w).2.calls = .flush (Host.flush w.host).1 :: w.calls := rfl
@[simp] theorem calls_now (w : Watched ω) :
    (Host.now w).2.calls = .now (Host.now w.host).1 :: w.calls := rfl
@[simp] theorem calls_enter (w : Watched ω) : (Host.enter w).calls = .enter :: w.calls := rfl
@[simp] theorem calls_exit (w : Watched ω) : (Host.exit w).calls = .exit :: w.calls := rfl
@[simp] theorem calls_tracking (w : Watched ω) :
    (Host.tracking w).calls = .tracking :: w.calls := rfl
@[simp] theorem calls_notify (event : Event) (w : Watched ω) :
    (Host.notify event w).calls = .notify event :: w.calls := rfl

end Watched

end MqttClient
