import Mathlib.Order.Defs.Unbundled
import MqttClient.Proofs.Running

/-!
# What operations keep

`Act.Keeps R act` says that however the operation ends, the scene that it leaves stands in the
relation `R` to the one that it found. A preorder is kept by an operation if it is kept by the
primitives of which the operation is made.
-/
namespace MqttClient.Act
variable {ω α β : Type}

/-- However an operation ends, it leads from a scene to a related one. -/
def Keeps (R : Scene ω → Scene ω → Prop) (act : Act ω α) : Prop :=
  ∀ σ r τ, act.runOn σ = some (r, τ) → R σ τ

namespace Keeps
variable {R R' : Scene ω → Scene ω → Prop} {act : Act ω α}

theorem mono (h : Keeps R act) (hR : ∀ σ τ, R σ τ → R' σ τ) : Keeps R' act :=
  fun σ r τ hrun => hR σ τ (h σ r τ hrun)

/-- An operation without an answer keeps everything. -/
theorem stall : Keeps R (Act.stall : Act ω α) := by
  intro σ r τ hrun
  cases hrun

theorem change {f : Session → Session} (h : ∀ σ, R σ { σ with session := f σ.session }) :
    Keeps R (Act.change f) := by
  intro σ r τ hrun
  cases hrun
  exact h σ

theorem host {f : ω → α × ω} (h : ∀ σ, R σ { σ with host := (f σ.host).2 }) :
    Keeps R (Act.host f) := by
  intro σ r τ hrun
  cases hrun
  exact h σ

theorem hostDo {f : ω → ω} (h : ∀ σ, R σ { σ with host := f σ.host }) :
    Keeps R (Act.hostDo f) := by
  intro σ r τ hrun
  cases hrun
  exact h σ

theorem outcome (h : Keeps R act) : Keeps R (Act.outcome act) := by
  intro σ r τ hrun
  rw [runOn_outcome] at hrun
  obtain ⟨_, hact, heq⟩ := Option.map_eq_some_iff.mp hrun
  cases heq
  exact h σ _ _ hact

theorem ite {c : Prop} [Decidable c] {other : Act ω α} (h : Keeps R act) (hother : Keeps R other) :
    Keeps R (if c then act else other) := by
  split
  · exact h
  · exact hother

/-- An update of the exchanges keeps what it keeps when it succeeds and when it fails. -/
theorem track [Host ω] {step : ExchangeTable → Except Fault (α × ExchangeTable)}
    (hok : ∀ (σ : Scene ω) a exchanges, step σ.session.exchanges = .ok (a, exchanges) →
      R σ ⟨{ σ.session with exchanges }, trackedHost σ.host⟩)
    (herror : ∀ σ : Scene ω, R σ { σ with host := trackedHost σ.host }) :
    Keeps R (Act.track step) := by
  intro σ r τ hrun
  cases hstep : step σ.session.exchanges with
  | error fault =>
    rw [runOn_track_error hstep] at hrun
    cases hrun
    exact herror σ
  | ok found =>
    rw [runOn_track_ok hstep] at hrun
    cases hrun
    exact hok σ found.1 found.2 hstep

/-- A sequence whose parts keep different relations. -/
theorem seq {R₁ R₂ : Scene ω → Scene ω → Prop} {f : α → Act ω β} (h : Keeps R₁ act)
    (hf : ∀ a, Keeps R₂ (f a)) (hfails : ∀ σ τ, R₁ σ τ → R σ τ)
    (hboth : ∀ σ υ τ, R₁ σ υ → R₂ υ τ → R σ τ) : Keeps R (act >>= f) := by
  intro σ r τ hrun
  rcases runOn_bind_inv hrun with ⟨fault, hact, -⟩ | ⟨a, υ, hact, hrest⟩
  · exact hfails σ τ (h σ _ τ hact)
  · exact hboth σ υ τ (h σ _ υ hact) (hf a υ r τ hrest)

variable [IsPreorder (Scene ω) R]

theorem pure (a : α) : Keeps R (Pure.pure a : Act ω α) := by
  intro σ r τ hrun
  cases hrun
  exact refl_of R σ

theorem throw (fault : Fault) : Keeps R (MonadExcept.throw fault : Act ω α) := by
  intro σ r τ hrun
  cases hrun
  exact refl_of R σ

theorem get : Keeps R (MonadState.get : Act ω (Scene ω)) := by
  intro σ r τ hrun
  cases hrun
  exact refl_of R σ

theorem session : Keeps R (Act.session : Act ω Session) := by
  intro σ r τ hrun
  cases hrun
  exact refl_of R σ

theorem ofResult (result : Except Fault α) : Keeps R (Act.ofResult result : Act ω α) := by
  cases result with
  | error fault => exact throw fault
  | ok a => exact pure a

theorem bind {f : α → Act ω β} (h : Keeps R act) (hf : ∀ a, Keeps R (f a)) :
    Keeps R (act >>= f) :=
  h.seq hf (fun _ _ h => h) fun _ _ _ h h' => trans_of R h h'

/-- Guarded work keeps what it and the hooks keep. -/
theorem guarded [Host ω] (henter : Keeps R (Act.hostDo Host.enter)) (h : Keeps R act)
    (hexit : Keeps R (Act.hostDo Host.exit)) : Keeps R (Act.guarded act) :=
  henter.bind fun _ => h.bind fun _ => hexit.bind fun _ => .pure _

/-- A read to the network buffer is a read and a change of the buffer. -/
theorem readInto [Host ω] {offset n : Nat} (hread : Keeps R (Act.host (Host.read n)))
    (hfill : ∀ arrived : Bytes, Keeps R (Act.change fun s => { s with
      buffer := s.buffer.take offset ++ arrived ++ s.buffer.drop (offset + arrived.length) })) :
    Keeps R (Act.readInto offset n) := by
  refine hread.bind fun answer => ?_
  split
  · exact throw _
  · exact (hfill _).bind fun _ => pure _

/-- An operation that fails at once does not go on. -/
theorem throw_bind (fault : Fault) (f : α → Act ω β) :
    Keeps R ((MonadExcept.throw fault : Act ω α) >>= f) := by
  intro σ r τ hrun
  rw [runOn_bind_of_error (runOn_throw fault σ)] at hrun
  cases hrun
  exact refl_of R σ

/-- A check ends the operation or lets it go on. -/
theorem check {c : Prop} [Decidable c] {fault : Fault} {f : β → Act ω α} (h : Keeps R act) :
    Keeps R (if c then (MonadExcept.throw fault : Act ω β) >>= f else act) :=
  ite (throw_bind fault f) h

end Keeps

end MqttClient.Act
