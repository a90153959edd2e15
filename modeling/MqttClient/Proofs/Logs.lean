import MqttClient.Proofs.Running
import MqttClient.Proofs.Watched

/-!
# What operations ask of their hosts

`Act.Logs P act` says that however the operation ends, its result and the calls that it has made
are as `P` says. The calls of a sequence are those of its parts, the later ones in front.
-/
namespace MqttClient.Act
variable {ω α β : Type}

/-- The result of an operation and the calls that it has made, latest first, are as `P` says. -/
def Logs (P : Except Fault α → List HostCall → Prop) (act : Act (Watched ω) α) : Prop :=
  ∀ σ r τ, act.runOn σ = some (r, τ) →
    ∃ calls, τ.host.calls = calls ++ σ.host.calls ∧ P r calls

namespace Logs
variable {P P' : Except Fault α → List HostCall → Prop} {act : Act (Watched ω) α}

theorem mono (h : Logs P act) (hP : ∀ r calls, P r calls → P' r calls) : Logs P' act := by
  intro σ r τ hrun
  obtain ⟨calls, hcalls, hlog⟩ := h σ r τ hrun
  exact ⟨calls, hcalls, hP r calls hlog⟩

theorem pure {a : α} (h : P (.ok a) []) : Logs P (Pure.pure a : Act (Watched ω) α) := by
  intro σ r τ hrun
  cases hrun
  exact ⟨[], rfl, h⟩

theorem throw {fault : Fault} (h : P (.error fault) []) :
    Logs P (MonadExcept.throw fault : Act (Watched ω) α) := by
  intro σ r τ hrun
  cases hrun
  exact ⟨[], rfl, h⟩

theorem stall : Logs P (Act.stall : Act (Watched ω) α) := by
  intro σ r τ hrun
  cases hrun

theorem ofResult {result : Except Fault α} (h : P result []) :
    Logs P (Act.ofResult result : Act (Watched ω) α) := by
  cases result with
  | error fault => exact throw h
  | ok a => exact pure h

theorem ite {c : Prop} [Decidable c] {other : Act (Watched ω) α} (h : c → Logs P act)
    (hother : ¬c → Logs P other) : Logs P (if c then act else other) := by
  split
  · exact h ‹_›
  · exact hother ‹_›

variable {Q : α → Except Fault β → List HostCall → Prop}
  {R : Except Fault β → List HostCall → Prop} {f : α → Act (Watched ω) β}

theorem bind (h : Logs P act) (hf : ∀ a calls, P (.ok a) calls → Logs (Q a) (f a))
    (herror : ∀ fault calls, P (.error fault) calls → R (.error fault) calls)
    (hok : ∀ a r calls later, P (.ok a) calls → Q a r later → R r (later ++ calls)) :
    Logs R (act >>= f) := by
  intro σ r τ hrun
  rcases runOn_bind_inv hrun with ⟨fault, hact, rfl⟩ | ⟨a, υ, hact, hrest⟩
  · obtain ⟨calls, hcalls, hlog⟩ := h σ _ τ hact
    exact ⟨calls, hcalls, herror fault calls hlog⟩
  · obtain ⟨calls, hcalls, hlog⟩ := h σ _ υ hact
    obtain ⟨later, hlater, hlog'⟩ := hf a calls hlog υ r τ hrest
    exact ⟨later ++ calls, by rw [hlater, hcalls, List.append_assoc],
      hok a r calls later hlog hlog'⟩

/-- A part that makes no call and does not fail. -/
theorem silent_bind (h : ∀ σ, ∃ a s, act.runOn σ = some (.ok a, ⟨s, σ.host⟩))
    (hf : ∀ a, Logs R (f a)) : Logs R (act >>= f) := by
  intro σ r τ hrun
  obtain ⟨a, s, hact⟩ := h σ
  rw [runOn_bind_of_ok hact] at hrun
  exact hf a ⟨s, σ.host⟩ r τ hrun

theorem host_bind {g : Watched ω → α × Watched ω} {c : α → HostCall}
    (hcall : ∀ h, (g h).2.calls = c (g h).1 :: h.calls)
    (hf : ∀ a, Logs (fun r later => R r (later ++ [c a])) (f a)) :
    Logs R (Act.host g >>= f) := by
  intro σ r τ hrun
  rw [runOn_bind_of_ok (runOn_host g σ)] at hrun
  obtain ⟨later, hlater, hlog⟩ := hf _ _ r τ hrun
  exact ⟨later ++ [c (g σ.host).1], by rw [hlater, hcall, List.append_assoc]; rfl, hlog⟩

theorem session_bind {f : Session → Act (Watched ω) β} (hf : ∀ s, Logs R (f s)) :
    Logs R (Act.session >>= f) :=
  silent_bind (fun _ => ⟨_, _, rfl⟩) hf

theorem get_bind {f : Scene (Watched ω) → Act (Watched ω) β} (hf : ∀ σ, Logs R (f σ)) :
    Logs R (MonadState.get >>= f) :=
  silent_bind (fun _ => ⟨_, _, rfl⟩) hf

theorem change_bind {g : Session → Session} {f : Unit → Act (Watched ω) β}
    (hf : Logs R (f ())) : Logs R (Act.change g >>= f) :=
  silent_bind (fun _ => ⟨_, _, rfl⟩) fun _ => hf

theorem ofResult_bind {result : Except Fault α}
    (herror : ∀ fault, result = .error fault → R (.error fault) [])
    (hf : ∀ a, result = .ok a → Logs R (f a)) : Logs R (Act.ofResult result >>= f) := by
  cases result with
  | error fault => exact throw (herror fault rfl)
  | ok a => exact hf a rfl

/-- A check ends the operation or lets it go on. -/
theorem check {c : Prop} [Decidable c] {fault : Fault} {f : α → Act (Watched ω) β}
    {next : Act (Watched ω) β} (hfails : c → R (.error fault) []) (h : ¬c → Logs R next) :
    Logs R (if c then (MonadExcept.throw fault : Act (Watched ω) α) >>= f else next) :=
  ite (fun hc => throw (hfails hc)) h

theorem outcome_bind {f : Except Fault α → Act (Watched ω) β} (h : Logs P act)
    (hf : ∀ r calls, P r calls → Logs (fun r' later => R r' (later ++ calls)) (f r)) :
    Logs R (Act.outcome act >>= f) := by
  intro σ r τ hrun
  rcases runOn_bind_inv hrun with ⟨fault, hact, -⟩ | ⟨r', υ, hact, hrest⟩
  · rw [runOn_outcome] at hact
    obtain ⟨_, -, heq⟩ := Option.map_eq_some_iff.mp hact
    cases heq
  · rw [runOn_outcome] at hact
    obtain ⟨⟨_, _⟩, hact, heq⟩ := Option.map_eq_some_iff.mp hact
    cases heq
    obtain ⟨calls, hcalls, hlog⟩ := h σ _ _ hact
    obtain ⟨later, hlater, hlog'⟩ := hf _ calls hlog υ r τ hrest
    exact ⟨later ++ calls, by rw [hlater, hcalls, List.append_assoc], hlog'⟩

end Logs

end MqttClient.Act
