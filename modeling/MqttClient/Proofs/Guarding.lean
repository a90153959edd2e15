import MqttClient.Proofs.Untouched

/-!
# Work between the guard hooks

A host may share a connection between threads and take a lock in its guard hooks. Two kinds of work
are shared, writes to the transport and updates of the exchanges. In the calls of a client each
piece of such work stands alone between the hooks, and the hooks stand nowhere else (`Bracketed`).
This is so from one step of an operation to the next, whatever the host answers (`Guards`), and
therefore along every run (`run_guards`).
-/
namespace MqttClient
variable {ω : Type}

namespace HostCall

/-- Whether a call is work that other threads must not see half done. -/
def IsShared : HostCall → Prop
  | write _ _ | tracking => True
  | _ => False

/-- Whether a call is one of the guard hooks. -/
def IsHook : HostCall → Prop
  | enter | exit => True
  | _ => False

instance : DecidablePred IsShared
  | write _ _ | tracking => isTrue trivial
  | read _ _ | flush _ | now _ | enter | exit | notify _ => isFalse id

instance : DecidablePred IsHook
  | enter | exit => isTrue trivial
  | read _ _ | write _ _ | flush _ | now _ | tracking | notify _ => isFalse id

theorem IsShared.not_isHook {c : HostCall} (h : c.IsShared) : ¬c.IsHook := by
  cases c <;> simp_all [IsShared, IsHook]

end HostCall

/-- Calls, in their order, in which every piece of shared work stands alone between the guard hooks
and the hooks stand nowhere else. -/
inductive Bracketed : List HostCall → Prop
  | nil : Bracketed []
  /-- One piece of shared work. -/
  | shared {c : HostCall} {calls : List HostCall} (work : c.IsShared) (rest : Bracketed calls) :
    Bracketed (.enter :: c :: .exit :: calls)
  /-- A call that needs no guard. -/
  | aside {c : HostCall} {calls : List HostCall} (work : ¬c.IsShared) (hook : ¬c.IsHook)
    (rest : Bracketed calls) : Bracketed (c :: calls)

namespace Bracketed
variable {calls later : List HostCall}

theorem append (h : Bracketed calls) (hlater : Bracketed later) : Bracketed (calls ++ later) := by
  induction h with
  | nil => exact hlater
  | shared work _ ih => exact .shared work ih
  | aside work hook _ ih => exact .aside work hook ih

theorem flatMap {α : Type} {f : α → List HostCall} {l : List α}
    (h : ∀ a ∈ l, Bracketed (f a)) : Bracketed (l.flatMap f) := by
  induction l with
  | nil => exact .nil
  | cons a rest ih =>
    obtain ⟨ha, hrest⟩ := List.forall_mem_cons.mp h
    exact ha.append (ih hrest)

theorem of_aside (h : ∀ c ∈ calls, ¬c.IsShared ∧ ¬c.IsHook) : Bracketed calls := by
  induction calls with
  | nil => exact .nil
  | cons c rest ih =>
    obtain ⟨⟨work, hook⟩, hrest⟩ := List.forall_mem_cons.mp h
    exact .aside work hook (ih hrest)

/-- The hooks are called in turn, once each for every piece of shared work. -/
theorem hooks_eq (h : Bracketed calls) : calls.filter (·.IsHook) =
    (List.replicate (calls.countP (·.IsShared)) [HostCall.enter, .exit]).flatten := by
  induction h with
  | nil => rfl
  | @shared c calls work _ ih =>
    have henter : HostCall.enter.IsHook ∧ ¬HostCall.enter.IsShared := by decide
    have hexit : HostCall.exit.IsHook ∧ ¬HostCall.exit.IsShared := by decide
    simp [henter, hexit, work, work.not_isHook, ih, List.replicate_succ]
  | aside work hook _ ih => simpa [hook, work] using ih

/-- A piece of shared work has one of the hooks right before it and the other right behind it. -/
theorem around {before after : List HostCall} {c : HostCall} (h : Bracketed calls)
    (hcalls : calls = before ++ c :: after) (hc : c.IsShared) :
    ∃ before' after', before = before' ++ [.enter] ∧ after = .exit :: after' := by
  induction h generalizing before with
  | nil => simp at hcalls
  | @shared c' calls _ _ ih =>
    rcases before with _ | ⟨_, _ | ⟨_, _ | ⟨_, before⟩⟩⟩
    · cases hcalls
      cases hc
    · cases hcalls
      exact ⟨[], calls, rfl, rfl⟩
    · cases hcalls
      cases hc
    · simp only [List.cons_append, List.cons.injEq] at hcalls
      obtain ⟨rfl, rfl, rfl, hcalls⟩ := hcalls
      obtain ⟨before', after', rfl, rfl⟩ := ih hcalls
      exact ⟨.enter :: c' :: .exit :: before', after', rfl, rfl⟩
  | @aside c' calls work _ _ ih =>
    rcases before with _ | ⟨_, before⟩
    · cases hcalls
      exact absurd hc work
    · obtain ⟨before', after', rfl, rfl⟩ := ih (List.cons.inj hcalls).2
      exact ⟨_ :: before', after', rfl, rfl⟩

end Bracketed

/-- From one scene to the other all shared work has been guarded, and every request to the exchanges
has been one of these pieces of work. -/
def Guards (σ τ : Scene (Watched ω)) : Prop :=
  ∃ calls requests, τ.host.calls = calls ++ σ.host.calls ∧ Bracketed calls.reverse ∧
    requests.length ≤ calls.count .tracking ∧
      τ.session.exchanges = σ.session.exchanges.run requests

instance : IsPreorder (Scene (Watched ω)) Guards where
  refl _ := ⟨[], [], rfl, .nil, Nat.le_refl _, rfl⟩
  trans := by
    rintro σ υ τ ⟨calls, requests, hcalls, hguarded, hcount, hexchanges⟩
      ⟨later, more, hlater, hguarded', hcount', hexchanges'⟩
    refine ⟨later ++ calls, requests ++ more, by rw [hlater, hcalls, List.append_assoc], ?_, ?_, ?_⟩
    · rw [List.reverse_append]
      exact hguarded.append hguarded'
    · rw [List.length_append, List.count_append]
      omega
    · rw [hexchanges', hexchanges, ExchangeTable.run_append]

namespace Guards
variable {σ τ : Scene (Watched ω)}

/-- Calls that need no guard, and exchanges as they were. -/
theorem of_made (h : σ.host.Made (fun c => ¬c.IsShared ∧ ¬c.IsHook) τ.host)
    (hexchanges : τ.session.exchanges = σ.session.exchanges) : Guards σ τ := by
  obtain ⟨calls, hcalls, haside⟩ := h
  exact ⟨calls, [], hcalls, .of_aside fun c hc => haside c (List.mem_reverse.mp hc),
    Nat.zero_le _, hexchanges⟩

theorem of_call {c : HostCall} (hcalls : τ.host.calls = c :: σ.host.calls)
    (haside : ¬c.IsShared ∧ ¬c.IsHook)
    (hexchanges : τ.session.exchanges = σ.session.exchanges) : Guards σ τ :=
  .of_made (.of_call hcalls haside) hexchanges

/-- A change of the session that leaves the exchanges. -/
theorem change {f : Session → Session} (h : ∀ s, (f s).exchanges = s.exchanges) :
    Act.Keeps (@Guards ω) (Act.change f) :=
  .change fun σ => .of_made (.refl _) (h σ.session)

/-- A call of the host that needs no guard. -/
theorem host {α : Type} {f : Watched ω → α × Watched ω} {c : Watched ω → HostCall}
    (hcalls : ∀ h, (f h).2.calls = c h :: h.calls)
    (haside : ∀ h, ¬(c h).IsShared ∧ ¬(c h).IsHook) : Act.Keeps (@Guards ω) (Act.host f) :=
  .host fun σ => .of_call (hcalls σ.host) (haside σ.host) rfl

end Guards

variable [Host ω]

namespace Session

theorem now_guards : Act.Keeps (@Guards ω) Act.now :=
  Guards.host (c := fun h => .now (Host.now h.host).1) (fun _ => rfl) fun _ => ⟨id, id⟩

theorem read_guards (n : ℕ) : Act.Keeps (@Guards ω) (Act.host (Host.read n)) :=
  Guards.host (c := fun h => .read n (Host.read n h.host).1) (fun _ => rfl) fun _ => ⟨id, id⟩

theorem write_guards (spans : List Bytes) :
    Act.Keeps (@Guards ω) (Act.guarded (Act.host (Host.write spans))) := by
  intro σ r τ hrun
  rw [Act.runOn_guarded_host] at hrun
  cases hrun
  exact ⟨[.exit, .write spans _, .enter], [], rfl, .shared trivial .nil, Nat.zero_le _, rfl⟩

theorem send_guards : ∀ spans, Act.Keeps (@Guards ω) (send spans) :=
  send_keeps write_guards now_guards
    (Guards.host (c := fun h => .flush (Host.flush h.host).1) (fun _ => rfl) fun _ => ⟨id, id⟩)
    fun _ => Guards.change fun _ => rfl

theorem track_guards {α : Type} {step : ExchangeTable → Except Fault (α × ExchangeTable)}
    (hstep : ExchangeTable.IsRequest step) : Act.Keeps (@Guards ω) (Act.track step) := by
  have hguarded : Bracketed trackCalls.reverse := .shared trivial .nil
  refine .track (fun σ a exchanges hok => ?_) fun σ => ?_
  · obtain ⟨request, hrequest⟩ := hstep _ _ _ hok
    exact ⟨trackCalls, [request], rfl, hguarded, Nat.le_refl 1, hrequest⟩
  · exact ⟨trackCalls, [], rfl, hguarded, Nat.zero_le _, rfl⟩

theorem listens_guards : Listens (@Guards ω) where
  read _ n := .readInto (read_guards n) fun _ => Guards.change fun _ => rfl
  now := now_guards
  header := .readHeader read_guards
  reset := Guards.change fun _ => rfl
  blank _ := Guards.change fun _ => rfl
  negotiate _ := Guards.change fun _ => rfl
  send := send_guards
  track := track_guards
  report _ := .hostDo fun _ => .of_call rfl ⟨id, id⟩ rfl
  grow _ := Guards.change fun _ => rfl
  wait := Guards.change fun _ => rfl
  answer := Guards.change fun _ => rfl
  consume _ := Guards.change fun _ => rfl
  stamp _ := Guards.change fun _ => rfl

theorem connect_guards (c : Connect) (timeout : UInt32) :
    Act.Keeps (@Guards ω) (connect c timeout) := by
  rw [connect_eq]
  have hestablish : Act.Keeps (@Guards ω) (establish c) := by
    refine Act.Keeps.bind (Guards.change ?_) fun _ => now_guards.bind fun _ => Guards.change ?_ <;>
      exact fun _ => rfl
  exact (listens_guards.handshake send_guards c timeout).bind fun present =>
    (listens_guards.resume present).bind fun _ => hestablish.bind fun _ => .pure _

end Session

/-! ## Runs -/

theorem Step.guards (s : Step ω) : Guards s.before s.after :=
  have hlistens := @Session.listens_guards ω _
  s.call.perform_keeps hlistens.toOutward (fun _ _ _ => Session.connect_guards _ _)
    (fun _ => Guards.change fun _ => rfl) (fun _ => hlistens.ping) (Guards.change fun _ => rfl)
    (fun managed _ => hlistens.receive managed (Guards.change fun _ => rfl))
    s.before s.result s.after s.performed

/-- **What the guard hooks bracket.** Along every run, whatever comes in and whatever fails, the
hooks are called in turn, once each for every piece of shared work, which stands alone between them,
and no call of the client ends with a hook left open. Shared work is every write to the transport
and every update of the exchanges: they change by no more requests than there are such updates. -/
theorem run_guards (steps : List (Step ω)) :
    Bracketed (steps.flatMap fun s => s.calls.reverse) ∧
      ∀ s ∈ steps, Bracketed s.calls.reverse ∧
        s.calls.reverse.filter (·.IsHook) = (List.replicate (s.calls.reverse.countP (·.IsShared))
          [HostCall.enter, .exit]).flatten ∧
        (∀ before c after, s.calls.reverse = before ++ c :: after → c.IsShared →
          ∃ before' after', before = before' ++ [.enter] ∧ after = .exit :: after') ∧
        ∃ requests : List ExchangeTable.Request, requests.length ≤ s.calls.count .tracking ∧
          s.after.session.exchanges = s.before.session.exchanges.run requests := by
  have hstep : ∀ s : Step ω, Bracketed s.calls.reverse ∧
      ∃ requests : List ExchangeTable.Request, requests.length ≤ s.calls.count .tracking ∧
        s.after.session.exchanges = s.before.session.exchanges.run requests := by
    intro s
    obtain ⟨calls, requests, hcalls, hguarded, hcount, hexchanges⟩ := s.guards
    rw [s.calls_eq hcalls]
    exact ⟨hguarded, requests, hcount, hexchanges⟩
  refine ⟨.flatMap fun s _ => (hstep s).1, fun s _ => ?_⟩
  obtain ⟨hguarded, hrequests⟩ := hstep s
  exact ⟨hguarded, hguarded.hooks_eq, fun _ _ _ => hguarded.around, hrequests⟩

end MqttClient
