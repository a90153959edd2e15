import Mathlib.Data.List.Chain
import MqttClient.Proofs.Running
import MqttClient.Proofs.Watched
import MqttClient.Session.Closing
import MqttClient.Session.Connecting
import MqttClient.Session.Publishing
import MqttClient.Session.Receiving
import MqttClient.Session.Subscribing

/-!
# Runs of a client

A program calls its client again and again, in any order. Between two calls the transport and
all else around the session may change; the session itself may not.
-/
namespace MqttClient
variable {ω : Type} [Host ω]

/-- What a program may ask of its client. -/
inductive Call where
  | connect (c : Connect) (timeout : UInt32)
  | publish (m : Message) (id : UInt16)
  | subscribe (subscriptions : List Subscription) (properties : Bytes) (id : UInt16)
  | unsubscribe (filters : List String) (properties : Bytes) (id : UInt16)
  | disconnect
  | disconnectWithReason (reason : UInt8) (properties : Bytes)
  | ping
  | takePacketId
  /-- Receive, with managed keep-alive or without. -/
  | receive (managed : Bool)
  deriving DecidableEq

/-- What a call that succeeds answers. -/
inductive Answer where
  | done
  /-- Whether the broker kept a session. -/
  | session (present : Bool)
  | packetId (id : UInt16)
  | progress (p : Progress)
  deriving DecidableEq

/-- Do what a call asks for. -/
def Call.perform : Call → Act ω Answer
  | connect c timeout => return .session (← Session.connect c timeout)
  | publish m id => do
    Session.publish m id
    return .done
  | subscribe subscriptions properties id => do
    Session.subscribe subscriptions properties id
    return .done
  | unsubscribe filters properties id => do
    Session.unsubscribe filters properties id
    return .done
  | disconnect => do
    Session.disconnect
    return .done
  | disconnectWithReason reason properties => do
    Session.disconnectWithReason reason properties
    return .done
  | ping => do
    Session.ping
    return .done
  | takePacketId => do
    let s ← Act.session
    Act.change fun s => s.takePacketId.2
    return .packetId s.takePacketId.1
  | receive managed => return .progress (← Session.receive managed)

/-- A call that has answered, on a watched host. -/
structure Step (ω : Type) [Host ω] where
  call : Call
  before : Scene (Watched ω)
  result : Except Fault Answer
  after : Scene (Watched ω)
  performed : call.perform.runOn before = some (result, after)

namespace Step

/-- A step finds the session that the one before it left. -/
def Follows (first next : Step ω) : Prop := next.before.session = first.after.session

/-- The calls of the host in a step, latest first. -/
def calls (s : Step ω) : List HostCall :=
  s.after.host.calls.take (s.after.host.calls.length - s.before.host.calls.length)

theorem calls_eq {s : Step ω} {calls : List HostCall}
    (h : s.after.host.calls = calls ++ s.before.host.calls) : s.calls = calls := by
  rw [Step.calls, h, List.length_append, Nat.add_sub_cancel, List.take_left]

/-- A step that connects ends as connecting ends. -/
theorem connects {s : Step ω} {c : Connect} {timeout : UInt32}
    (h : s.call = .connect c timeout) :
    ∃ r, (Session.connect c timeout).runOn s.before = some (r, s.after) ∧
      s.result = r.map .session := by
  obtain ⟨call, σ, r, τ, hperform⟩ := s
  cases h
  exact Act.runOn_bind_pure_inv hperform

theorem connects_ok {s : Step ω} {c : Connect} {timeout : UInt32} {present : Bool}
    (h : s.call = .connect c timeout) (hresult : s.result = .ok (.session present)) :
    (Session.connect c timeout).runOn s.before = some (.ok present, s.after) := by
  obtain ⟨r, hconnect, hr⟩ := s.connects h
  rcases r with fault | present' <;> cases hr.symm.trans hresult
  exact hconnect

theorem connects_error {s : Step ω} {c : Connect} {timeout : UInt32} {fault : Fault}
    (h : s.call = .connect c timeout) (hresult : s.result = .error fault) :
    (Session.connect c timeout).runOn s.before = some (.error fault, s.after) := by
  obtain ⟨r, hconnect, hr⟩ := s.connects h
  rcases r with fault' | present <;> cases hr.symm.trans hresult
  exact hconnect

end Step

/-- Steps that a program takes one after another. -/
def IsRun (steps : List (Step ω)) : Prop := steps.IsChain Step.Follows

/-- What holds of the session before the first step, and is kept by each, holds before each. -/
theorem before_of_isRun {P : Session → Prop} {steps : List (Step ω)} (hrun : IsRun steps)
    (hfirst : ∀ s ∈ steps.head?, P s.before.session)
    (hstep : ∀ s ∈ steps, P s.before.session → P s.after.session) :
    ∀ s ∈ steps, P s.before.session := by
  induction steps with
  | nil => simp
  | cons first rest ih =>
    obtain ⟨hfollows, hrest⟩ := List.isChain_cons.mp hrun
    obtain ⟨hkept, hothers⟩ := List.forall_mem_cons.mp hstep
    have hP : P first.before.session := hfirst first rfl
    refine List.forall_mem_cons.mpr ⟨hP, ih hrest (fun next hnext => ?_) hothers⟩
    have hbefore : next.before.session = first.after.session := hfollows next hnext
    rw [hbefore]
    exact hkept hP

/-- The steps of calls made one after another, with nothing else changed in between. A call that
has no answer is the last. -/
def stepsFrom (σ : Scene (Watched ω)) : List Call → List (Step ω)
  | [] => []
  | c :: rest =>
    match h : c.perform.runOn σ with
    | none => []
    | some (r, τ) => ⟨c, σ, r, τ, h⟩ :: stepsFrom τ rest

theorem before_stepsFrom {σ : Scene (Watched ω)} {calls : List Call} {s : Step ω}
    {rest : List (Step ω)} (h : stepsFrom σ calls = s :: rest) : s.before = σ := by
  cases calls with
  | nil => cases h
  | cons c calls =>
    rw [stepsFrom] at h
    split at h
    · cases h
    · cases h
      rfl

theorem before_of_mem_head?_stepsFrom {σ : Scene (Watched ω)} {calls : List Call} {s : Step ω}
    (h : s ∈ (stepsFrom σ calls).head?) : s.before = σ := by
  obtain ⟨rest, hsteps⟩ := List.head?_eq_some_iff.mp h
  exact before_stepsFrom hsteps

theorem isRun_stepsFrom (σ : Scene (Watched ω)) (calls : List Call) :
    IsRun (stepsFrom σ calls) := by
  induction calls generalizing σ with
  | nil => exact List.isChain_nil
  | cons c calls ih =>
    rw [stepsFrom]
    split
    · exact List.isChain_nil
    · rename_i r τ hrun
      cases hrest : stepsFrom τ calls with
      | nil => exact List.isChain_singleton _
      | cons next rest =>
        refine List.isChain_cons_cons.mpr ⟨?_, hrest ▸ ih τ⟩
        rw [Step.Follows, before_stepsFrom hrest]

/-- A scene in which the host has been changed from outside. -/
def Scene.meanwhile (σ : Scene (Watched ω)) (change : ω → ω) : Scene (Watched ω) :=
  { σ with host := { σ.host with host := change σ.host.host } }

/-- The steps of calls made one after another, before each of which the host changes as given. A
call that has no answer is the last. -/
def stepsAmid (σ : Scene (Watched ω)) : List ((ω → ω) × Call) → List (Step ω)
  | [] => []
  | (change, c) :: rest =>
    match h : c.perform.runOn (σ.meanwhile change) with
    | none => []
    | some (r, τ) => ⟨c, σ.meanwhile change, r, τ, h⟩ :: stepsAmid τ rest

section
variable {σ τ : Scene (Watched ω)} {change : ω → ω} {c : Call} {rest : List ((ω → ω) × Call)}
  {r : Except Fault Answer}

theorem stepsAmid_of_none (h : c.perform.runOn (σ.meanwhile change) = none) :
    stepsAmid σ ((change, c) :: rest) = [] := by
  rw [stepsAmid]
  split
  · rfl
  · rename_i hrun
    cases h.symm.trans hrun

theorem stepsAmid_of_some (h : c.perform.runOn (σ.meanwhile change) = some (r, τ)) :
    stepsAmid σ ((change, c) :: rest) = ⟨c, _, r, τ, h⟩ :: stepsAmid τ rest := by
  rw [stepsAmid]
  split
  · rename_i hrun
    cases h.symm.trans hrun
  · rename_i hrun
    cases h.symm.trans hrun
    rfl

end

/-- They are a run that goes on with the session that the scene has. -/
theorem isRun_stepsAmid (σ : Scene (Watched ω)) (plan : List ((ω → ω) × Call)) :
    IsRun (stepsAmid σ plan) ∧
      ∀ s ∈ (stepsAmid σ plan).head?, s.before.session = σ.session := by
  induction plan generalizing σ with
  | nil => exact ⟨List.isChain_nil, by simp [stepsAmid]⟩
  | cons first rest ih =>
    obtain ⟨change, c⟩ := first
    cases hrun : c.perform.runOn (σ.meanwhile change) with
    | none =>
      rw [stepsAmid_of_none hrun]
      exact ⟨List.isChain_nil, by simp⟩
    | some ending =>
      rw [stepsAmid_of_some hrun]
      obtain ⟨hrest, hnext⟩ := ih ending.2
      refine ⟨List.isChain_cons.mpr ⟨hnext, hrest⟩, ?_⟩
      rintro s ⟨⟩
      rfl

end MqttClient
