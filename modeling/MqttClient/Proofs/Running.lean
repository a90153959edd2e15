import MqttClient.Session.Basic

/-!
# Running operations

What a run of each primitive of `Act` gives, how a run of a sequence comes apart
(`Act.runOn_bind_inv`), and when two operations run alike: `Act.Matches` compares their runs on
two scenes, which need not have hosts of the same type.
-/
namespace MqttClient

/-- Two steps succeed when both do. -/
theorem bind_eq_ok {α β : Type} {result : Except Fault α} {f : α → Except Fault β} {b : β} :
    result >>= f = .ok b ↔ ∃ a, result = .ok a ∧ f a = .ok b := by
  cases result <;> simp [bind, Except.bind]

namespace Act
variable {ω ω' α α' β β' : Type}

/-! ## The primitives -/

@[simp] theorem runOn_pure (a : α) (σ : Scene ω) :
    (pure a : Act ω α).runOn σ = some (.ok a, σ) := rfl

@[simp] theorem runOn_throw (fault : Fault) (σ : Scene ω) :
    (throw fault : Act ω α).runOn σ = some (.error fault, σ) := rfl

@[simp] theorem runOn_stall (σ : Scene ω) : (stall : Act ω α).runOn σ = none := rfl

@[simp] theorem runOn_get (σ : Scene ω) :
    (get : Act ω (Scene ω)).runOn σ = some (.ok σ, σ) := rfl

@[simp] theorem runOn_session (σ : Scene ω) :
    (session : Act ω Session).runOn σ = some (.ok σ.session, σ) := rfl

@[simp] theorem runOn_change (f : Session → Session) (σ : Scene ω) :
    (change f : Act ω Unit).runOn σ = some (.ok (), { σ with session := f σ.session }) := rfl

@[simp] theorem runOn_host (f : ω → α × ω) (σ : Scene ω) :
    (host f : Act ω α).runOn σ = some (.ok (f σ.host).1, { σ with host := (f σ.host).2 }) := rfl

@[simp] theorem runOn_hostDo (f : ω → ω) (σ : Scene ω) :
    (hostDo f : Act ω Unit).runOn σ = some (.ok (), { σ with host := f σ.host }) := rfl

@[simp] theorem runOn_ofResult (r : Except Fault α) (σ : Scene ω) :
    (ofResult r : Act ω α).runOn σ = some (r, σ) := by
  cases r <;> rfl

/-- A sequence runs its second part where the first left off, unless the first fails. -/
theorem runOn_bind (act : Act ω α) (f : α → Act ω β) (σ : Scene ω) :
    (act >>= f).runOn σ =
      match act.runOn σ with
      | none => none
      | some (.error fault, τ) => some (.error fault, τ)
      | some (.ok a, τ) => (f a).runOn τ := by
  change ((ExceptT.run act : StateT (Scene ω) Option _) >>= ExceptT.bindCont f) σ = _
  simp only [bind, StateT.bind, runOn, StateT.run, ExceptT.run]
  rcases act σ with _ | ⟨_ | a, τ⟩ <;> rfl

theorem runOn_bind_of_ok {act : Act ω α} {σ τ : Scene ω} {a : α}
    (h : act.runOn σ = some (.ok a, τ)) (f : α → Act ω β) :
    (act >>= f).runOn σ = (f a).runOn τ := by
  rw [runOn_bind, h]

theorem runOn_bind_of_error {act : Act ω α} {σ τ : Scene ω} {fault : Fault}
    (h : act.runOn σ = some (.error fault, τ)) (f : α → Act ω β) :
    (act >>= f).runOn σ = some (.error fault, τ) := by
  rw [runOn_bind, h]

/-- A run of a sequence comes apart into runs of its parts. -/
theorem runOn_bind_inv {act : Act ω α} {f : α → Act ω β} {σ τ : Scene ω} {r : Except Fault β}
    (h : (act >>= f).runOn σ = some (r, τ)) :
    (∃ fault, act.runOn σ = some (.error fault, τ) ∧ r = .error fault) ∨
      ∃ a υ, act.runOn σ = some (.ok a, υ) ∧ (f a).runOn υ = some (r, τ) := by
  rw [runOn_bind] at h
  rcases hact : act.runOn σ with _ | ⟨fault | a, υ⟩ <;> rw [hact] at h
  · cases h
  · cases h; exact .inl ⟨fault, rfl, rfl⟩
  · exact .inr ⟨a, υ, rfl, h⟩

/-- An operation whose value is only dressed up ends as the operation does. -/
theorem runOn_bind_pure_inv {act : Act ω α} {f : α → β} {σ τ : Scene ω} {r : Except Fault β}
    (h : (act >>= fun a => pure (f a)).runOn σ = some (r, τ)) :
    ∃ r', act.runOn σ = some (r', τ) ∧ r = r'.map f := by
  rcases runOn_bind_inv h with ⟨fault, hact, rfl⟩ | ⟨a, υ, hact, h⟩
  · exact ⟨_, hact, rfl⟩
  · cases h
    exact ⟨_, hact, rfl⟩

@[simp] theorem runOn_outcome (act : Act ω α) (σ : Scene ω) :
    (outcome act).runOn σ = (act.runOn σ).map fun (r, τ) => (.ok r, τ) := by
  simp only [outcome, runOn, ExceptT.run, ExceptT.mk, StateT.run, Functor.map, StateT.map]
  rcases act σ with _ | ⟨r, τ⟩ <;> rfl

section
variable [Host ω]

@[simp] theorem runOn_now (σ : Scene ω) :
    (now : Act ω UInt32).runOn σ =
      some (.ok (Host.now σ.host).1, { σ with host := (Host.now σ.host).2 }) := rfl

/-- Guarded work runs between the two hooks. -/
theorem runOn_guarded {act : Act ω α} {σ τ : Scene ω} {a : α}
    (h : act.runOn { σ with host := Host.enter σ.host } = some (.ok a, τ)) :
    (guarded act).runOn σ = some (.ok a, { τ with host := Host.exit τ.host }) := by
  rw [guarded, runOn_bind_of_ok (runOn_hostDo _ _), runOn_bind_of_ok h,
    runOn_bind_of_ok (runOn_hostDo _ _), runOn_pure]

@[simp] theorem runOn_guarded_host (f : ω → α × ω) (σ : Scene ω) :
    (guarded (host f)).runOn σ =
      some (.ok (f (Host.enter σ.host)).1,
        { σ with host := Host.exit (f (Host.enter σ.host)).2 }) :=
  runOn_guarded (runOn_host _ _)

/-- The host after an update of the exchanges between the guard hooks. -/
def trackedHost (h : ω) : ω := Host.exit (Host.tracking (Host.enter h))

/-- An update of the exchanges gives its outcome, and changes nothing but the exchanges. -/
theorem runOn_track (step : ExchangeTable → Except Fault (α × ExchangeTable)) (σ : Scene ω) :
    (track step).runOn σ =
      match step σ.session.exchanges with
      | .ok (a, exchanges) =>
        some (.ok (.ok a), ⟨{ σ.session with exchanges }, trackedHost σ.host⟩)
      | .error fault => some (.ok (.error fault), { σ with host := trackedHost σ.host }) := by
  have hupdate : ∀ τ : Scene ω, (update step).runOn τ =
      match step τ.session.exchanges with
      | .ok (a, exchanges) =>
        some (.ok (.ok a), ⟨{ τ.session with exchanges }, Host.tracking τ.host⟩)
      | .error fault => some (.ok (.error fault), { τ with host := Host.tracking τ.host }) := by
    intro τ
    rw [update, runOn_bind_of_ok (runOn_hostDo _ _), runOn_bind_of_ok (runOn_session _)]
    rcases step τ.session.exchanges with fault | ⟨a, exchanges⟩ <;> rfl
  cases hstep : step σ.session.exchanges with
  | error fault => exact runOn_guarded (by rw [hupdate, hstep])
  | ok found => exact runOn_guarded (by rw [hupdate, hstep])

theorem runOn_track_ok {step : ExchangeTable → Except Fault (α × ExchangeTable)} {σ : Scene ω}
    {a : α} {exchanges : ExchangeTable} (h : step σ.session.exchanges = .ok (a, exchanges)) :
    (track step).runOn σ =
      some (.ok (.ok a), ⟨{ σ.session with exchanges }, trackedHost σ.host⟩) := by
  rw [runOn_track, h]

theorem runOn_track_error {step : ExchangeTable → Except Fault (α × ExchangeTable)}
    {σ : Scene ω} {fault : Fault} (h : step σ.session.exchanges = .error fault) :
    (track step).runOn σ =
      some (.ok (.error fault), { σ with host := trackedHost σ.host }) := by
  rw [runOn_track, h]

end

/-! ## Two operations that run alike -/

/-- Two results with the same fault, or with values that belong together. -/
inductive SameResult (Q : α → α' → Prop) : Except Fault α → Except Fault α' → Prop where
  | ok {a : α} {a' : α'} (h : Q a a') : SameResult Q (.ok a) (.ok a')
  | error (fault : Fault) : SameResult Q (.error fault) (.error fault)

/-- Two results with equal values are equal. -/
theorem SameResult.eq {r r' : Except Fault α} (h : SameResult (· = ·) r r') : r = r' := by
  cases h with
  | ok h => rw [h]
  | error fault => rfl

/-- From related scenes both operations answer, with the same result up to `Q`, and they leave
related scenes behind. -/
def Matches (R : Scene ω → Scene ω' → Prop) (Q : α → α' → Prop) (act : Act ω α)
    (act' : Act ω' α') : Prop :=
  ∀ σ σ', R σ σ' → ∃ r τ r' τ', act.runOn σ = some (r, τ) ∧ act'.runOn σ' = some (r', τ') ∧
    SameResult Q r r' ∧ R τ τ'

namespace Matches
variable {R : Scene ω → Scene ω' → Prop} {Q : α → α' → Prop} {S : β → β' → Prop}

theorem pure {a : α} {a' : α'} (h : Q a a') :
    Matches R Q (Pure.pure a) (Pure.pure a') :=
  fun σ σ' hR => ⟨_, σ, _, σ', rfl, rfl, .ok h, hR⟩

theorem throw (fault : Fault) :
    Matches R Q (MonadExcept.throw fault) (MonadExcept.throw fault) :=
  fun σ σ' hR => ⟨_, σ, _, σ', rfl, rfl, .error fault, hR⟩

theorem bind {act : Act ω α} {act' : Act ω' α'} {f : α → Act ω β} {f' : α' → Act ω' β'}
    (h : Matches R Q act act') (hf : ∀ a a', Q a a' → Matches R S (f a) (f' a')) :
    Matches R S (act >>= f) (act' >>= f') := by
  intro σ σ' hR
  obtain ⟨r, υ, r', υ', hrun, hrun', hsame, hR'⟩ := h σ σ' hR
  cases hsame with
  | error fault =>
    exact ⟨_, υ, _, υ', runOn_bind_of_error hrun f, runOn_bind_of_error hrun' f',
      .error fault, hR'⟩
  | ok hQ =>
    rw [runOn_bind_of_ok hrun, runOn_bind_of_ok hrun']
    exact hf _ _ hQ υ υ' hR'

theorem ofResult (r : Except Fault α) :
    Matches R (· = ·) (Act.ofResult r) (Act.ofResult r) := by
  cases r with
  | error fault => exact throw fault
  | ok a => exact pure rfl

/-- The exchanges of matching scenes are updated alike. -/
theorem track [Host ω] [Host ω'] (step : ExchangeTable → Except Fault (α × ExchangeTable))
    (heq : ∀ σ σ', R σ σ' → σ.session.exchanges = σ'.session.exchanges)
    (hok : ∀ σ σ' exchanges, R σ σ' →
      R ⟨{ σ.session with exchanges }, trackedHost σ.host⟩
        ⟨{ σ'.session with exchanges }, trackedHost σ'.host⟩)
    (herror : ∀ σ σ', R σ σ' → R { σ with host := trackedHost σ.host }
      { σ' with host := trackedHost σ'.host }) :
    Matches R (· = ·) (Act.track step) (Act.track step) := by
  intro σ σ' hR
  cases hstep : step σ.session.exchanges with
  | error fault =>
    exact ⟨_, _, _, _, runOn_track_error hstep, runOn_track_error (heq σ σ' hR ▸ hstep),
      .ok rfl, herror σ σ' hR⟩
  | ok found =>
    exact ⟨_, _, _, _, runOn_track_ok hstep, runOn_track_ok (heq σ σ' hR ▸ hstep),
      .ok rfl, hok σ σ' _ hR⟩

end Matches

/-- From related scenes both operations answer, with the same result up to `Q` and related scenes
behind, or neither does. -/
def Mirrors (R : Scene ω → Scene ω' → Prop) (Q : α → α' → Prop) (act : Act ω α)
    (act' : Act ω' α') : Prop :=
  ∀ σ σ', R σ σ' → Option.Rel (fun ending ending' =>
    SameResult Q ending.1 ending'.1 ∧ R ending.2 ending'.2) (act.runOn σ) (act'.runOn σ')

namespace Mirrors
variable {R : Scene ω → Scene ω' → Prop} {Q : α → α' → Prop} {S : β → β' → Prop}
  {act : Act ω α} {act' : Act ω' α'} {f : α → Act ω β} {f' : α' → Act ω' β'}

theorem pure {a : α} {a' : α'} (h : Q a a') :
    Mirrors R Q (Pure.pure a) (Pure.pure a') :=
  fun _ _ hR => .some ⟨.ok h, hR⟩

theorem throw (fault : Fault) :
    Mirrors R Q (MonadExcept.throw fault) (MonadExcept.throw fault) :=
  fun _ _ hR => .some ⟨.error fault, hR⟩

theorem stall : Mirrors R Q Act.stall Act.stall := fun _ _ _ => .none

theorem bind (h : Mirrors R Q act act') (hf : ∀ a a', Q a a' → Mirrors R S (f a) (f' a')) :
    Mirrors R S (act >>= f) (act' >>= f') := by
  intro σ σ' hR
  have hfirst := h σ σ' hR
  rw [runOn_bind, runOn_bind]
  generalize act.runOn σ = ending, act'.runOn σ' = ending' at hfirst ⊢
  cases hfirst with
  | none => exact .none
  | @some ending ending' hends =>
    obtain ⟨r, υ⟩ := ending
    obtain ⟨r', υ'⟩ := ending'
    obtain ⟨hsame, hR'⟩ := hends
    cases hsame with
    | error fault => exact .some ⟨.error fault, hR'⟩
    | ok hQ => exact hf _ _ hQ υ υ' hR'

theorem get_bind {f : Scene ω → Act ω β} {f' : Scene ω' → Act ω' β'}
    (hf : ∀ σ σ', R σ σ' → Mirrors R S (f σ) (f' σ')) :
    Mirrors R S (MonadState.get >>= f) (MonadState.get >>= f') :=
  fun σ σ' hR => hf σ σ' hR σ σ' hR

theorem sessions_bind {f : Session → Act ω β} {f' : Session → Act ω' β'}
    (hf : ∀ σ σ', R σ σ' → Mirrors R S (f σ.session) (f' σ'.session)) :
    Mirrors R S (Act.session >>= f) (Act.session >>= f') :=
  fun σ σ' hR => hf σ σ' hR σ σ' hR

/-- A part that gives the same on both sides. -/
theorem bind_eq {act' : Act ω' α} {f' : α → Act ω' β'} (h : Mirrors R (· = ·) act act')
    (hf : ∀ a, Mirrors R S (f a) (f' a)) : Mirrors R S (act >>= f) (act' >>= f') :=
  h.bind fun a _ ha => ha ▸ hf a

theorem ofResult (r : Except Fault α) :
    Mirrors R (· = ·) (Act.ofResult r) (Act.ofResult r) := by
  cases r with
  | error fault => exact throw fault
  | ok a => exact pure rfl

theorem ite {c : Prop} [Decidable c] {other : Act ω α} {other' : Act ω' α'}
    (h : Mirrors R Q act act') (hother : Mirrors R Q other other') :
    Mirrors R Q (if c then act else other) (if c then act' else other') := by
  split
  · exact h
  · exact hother

theorem throw_bind (fault : Fault) : Mirrors R S ((MonadExcept.throw fault : Act ω α) >>= f)
    ((MonadExcept.throw fault : Act ω' α') >>= f') :=
  throw fault

/-- A check ends both operations or lets both go on. -/
theorem check {c : Prop} [Decidable c] {fault : Fault} {next : Act ω β} {next' : Act ω' β'}
    (h : Mirrors R S next next') :
    Mirrors R S (if c then (MonadExcept.throw fault : Act ω α) >>= f else next)
      (if c then (MonadExcept.throw fault : Act ω' α') >>= f' else next') :=
  ite (throw_bind fault) h

/-- Where one scene is a view of the other, so are their ends. -/
theorem runOn_eq {g : Scene ω → Scene ω} {act act' : Act ω α}
    (h : Mirrors (fun σ σ' => σ' = g σ) (· = ·) act act') (σ : Scene ω) :
    act'.runOn (g σ) = (act.runOn σ).map fun ending => (ending.1, g ending.2) := by
  have hends := h σ (g σ) rfl
  generalize act.runOn σ = ending, act'.runOn (g σ) = ending' at hends
  cases hends with
  | none => rfl
  | some hends => exact congrArg some (Prod.ext hends.1.eq.symm hends.2)

theorem outcome {act' : Act ω' α} (h : Mirrors R (· = ·) act act') :
    Mirrors R (· = ·) (Act.outcome act) (Act.outcome act') := by
  intro σ σ' hR
  have hends := h σ σ' hR
  rw [runOn_outcome, runOn_outcome]
  generalize act.runOn σ = ending, act'.runOn σ' = ending' at hends ⊢
  cases hends with
  | none => exact .none
  | some hends => exact .some ⟨.ok hends.1.eq, hends.2⟩

end Mirrors

/-! ## Operations that answer more often -/

/-- Where the first operation answers, the second one answers the same. -/
def Extends (act act' : Act ω α) : Prop :=
  ∀ σ ending, act.runOn σ = some ending → act'.runOn σ = some ending

namespace Extends
variable {act act' : Act ω α}

theorem refl (act : Act ω α) : Extends act act := fun _ _ => id

theorem stall : Extends Act.stall act := by
  intro σ ending hrun
  cases hrun

theorem bind {f f' : α → Act ω β} (h : Extends act act') (hf : ∀ a, Extends (f a) (f' a)) :
    Extends (act >>= f) (act' >>= f') := by
  intro σ ending hrun
  obtain ⟨r, τ⟩ := ending
  rcases runOn_bind_inv hrun with ⟨fault, hact, rfl⟩ | ⟨a, υ, hact, hrest⟩
  · exact runOn_bind_of_error (h σ _ hact) f'
  · rw [runOn_bind_of_ok (h σ _ hact)]
    exact hf a υ _ hrest

theorem ite {c : Prop} [Decidable c] {other other' : Act ω α} (h : Extends act act')
    (hother : Extends other other') :
    Extends (if c then act else other) (if c then act' else other') := by
  split
  · exact h
  · exact hother

end Extends

/-- Where the first operation answers, the second one answers the same from a related scene, and
leaves a related one behind. -/
def Follows (R : Scene ω → Scene ω' → Prop) (act : Act ω α) (act' : Act ω' α) : Prop :=
  ∀ σ σ' r τ, R σ σ' → act.runOn σ = some (r, τ) → ∃ τ', act'.runOn σ' = some (r, τ') ∧ R τ τ'

/-- Operations that both answer alike do so where either may not. -/
theorem Matches.mirrors {R : Scene ω → Scene ω' → Prop} {Q : α → α' → Prop} {act : Act ω α}
    {act' : Act ω' α'} (h : Matches R Q act act') : Mirrors R Q act act' := by
  intro σ σ' hσ
  obtain ⟨r, τ, r', τ', hrun, hrun', hsame, hτ⟩ := h σ σ' hσ
  rw [hrun, hrun']
  exact .some ⟨hsame, hτ⟩

theorem Mirrors.follows {R : Scene ω → Scene ω' → Prop} {act : Act ω α} {act' : Act ω' α}
    (h : Mirrors R (· = ·) act act') : Follows R act act' := by
  intro σ σ' r τ hR hrun
  have hends := h σ σ' hR
  rw [hrun] at hends
  generalize hrun' : act'.runOn σ' = ending' at hends ⊢
  obtain ⟨hsame, hR'⟩ := hends
  exact ⟨_, congrArg some (Prod.ext hsame.eq.symm rfl), hR'⟩

theorem Follows.bind {R : Scene ω → Scene ω' → Prop} {act : Act ω α} {act' : Act ω' α}
    {f : α → Act ω β} {f' : α → Act ω' β} (h : Follows R act act')
    (hf : ∀ a, Follows R (f a) (f' a)) : Follows R (act >>= f) (act' >>= f') := by
  intro σ σ' r τ hR hrun
  rcases runOn_bind_inv hrun with ⟨fault, hact, rfl⟩ | ⟨a, υ, hact, hrest⟩
  · obtain ⟨τ', hact', hR'⟩ := h σ σ' _ τ hR hact
    exact ⟨τ', runOn_bind_of_error hact' f', hR'⟩
  · obtain ⟨υ', hact', hR'⟩ := h σ σ' _ υ hR hact
    rw [runOn_bind_of_ok hact']
    exact hf a υ υ' r τ hR' hrest

end Act

end MqttClient
