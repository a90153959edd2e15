import MqttClient.Proofs.Receiving
import MqttClient.Proofs.Sending

/-!
# Before a packet is handled

A call that receives reads once (`Session.fetch`). When that gives nothing and keep-alive is left
to the client, the call gives up if the answer to a ping is overdue, and sends a PINGREQ if one is
due. `Session.arrive_inv` is all that comes of it.
-/
namespace MqttClient.Session

/-! ## The read -/

/-- The session after the read with which receiving begins, given the answer of the host. -/
def afterRead (s : Session) : Option (ℕ × Bytes) → Session
  | none => s
  | some (count, arrived) =>
    { s.readAt s.filled (arrived.take (s.capacity - s.filled)) with
      filled := s.filled + min count (s.capacity - s.filled) }

section
variable (s : Session) (answer : Option (ℕ × Bytes))

@[simp] theorem version_afterRead : (s.afterRead answer).version = s.version := by
  cases answer <;> rfl

@[simp] theorem negotiated_afterRead : (s.afterRead answer).negotiated = s.negotiated := by
  cases answer <;> rfl

@[simp] theorem exchanges_afterRead : (s.afterRead answer).exchanges = s.exchanges := by
  cases answer <;> rfl

@[simp] theorem awaitsPingresp_afterRead :
    (s.afterRead answer).awaitsPingresp = s.awaitsPingresp := by
  cases answer <;> rfl

/-- Whether the answer to a ping is overdue. -/
def Overdue (now : UInt32) : Prop :=
  s.awaitsPingresp = true ∧ s.settings.pingrespTimeout < now - s.pingSentAt

instance (now : UInt32) : Decidable (s.Overdue now) :=
  inferInstanceAs (Decidable (_ ∧ _))

theorem duty_eq_giveUp {now : UInt32} : (s.timers now).duty = .giveUp ↔ s.Overdue now := by
  unfold Timers.duty Overdue
  simp only [timers]
  grind

theorem overdue_afterRead (now : UInt32) : (s.afterRead answer).Overdue now ↔ s.Overdue now := by
  cases answer <;> rfl

/-- The session after a PINGREQ has been sent at `t`. -/
def pinged (t : UInt32) : Session :=
  { s with lastTx := t, pingSentAt := t, awaitsPingresp := true }

end

variable {ω : Type} [Host ω] {σ υ τ : Scene (Watched ω)} {r : Except Fault Unit}

/-- What the host answers to the read with which a call begins. -/
def firstAnswer (σ : Scene (Watched ω)) : Option (ℕ × Bytes) × Watched ω :=
  Host.read (σ.session.capacity - σ.session.filled) σ.host

/-- The scene after this read. -/
def fetch (σ : Scene (Watched ω)) : Scene (Watched ω) :=
  ⟨σ.session.afterRead (firstAnswer σ).1, (firstAnswer σ).2⟩

/-- A call finds nothing to read and the answer to a ping overdue. -/
structure GivesUp (σ : Scene (Watched ω)) : Prop where
  quiet : ∃ count arrived, (firstAnswer σ).1 = some (count, arrived) ∧
    min count (σ.session.capacity - σ.session.filled) = 0
  overdue : σ.session.Overdue (Host.now (firstAnswer σ).2).1

theorem arrive_none {managed : Bool} (h : (firstAnswer σ).1 = none) :
    (arrive managed).runOn σ = some (.error .recvFailed, fetch σ) := by
  rw [arrive, Act.runOn_bind_of_ok (Act.runOn_session _),
    Act.runOn_bind_of_error (runOn_readInto_none h), fetch, h]
  rfl

theorem arrive_some {managed : Bool} {count : ℕ} {arrived : Bytes}
    (h : (firstAnswer σ).1 = some (count, arrived)) :
    (arrive managed).runOn σ =
      if min count (σ.session.capacity - σ.session.filled) = 0 ∧ managed = true then
        (keepAliveDuty).runOn (fetch σ)
      else some (.ok (), fetch σ) := by
  rw [arrive, Act.runOn_bind_of_ok (Act.runOn_session _),
    Act.runOn_bind_of_ok (runOn_readInto_some h), Act.runOn_bind_of_ok (Act.runOn_change _ _),
    fetch, h]
  split <;> rfl

/-! ## Keep-alive -/

/-- From one scene to the other the first `k` bytes of a PINGREQ are written, and nothing is
reported. -/
def WritesPing (k : ℕ) (σ τ : Scene (Watched ω)) : Prop :=
  ∃ calls, τ.host.calls = calls ++ σ.host.calls ∧ reported calls = [] ∧
    written calls = Ping.request.take k

omit [Host ω] in
/-- A call that neither writes nor reports may come first. -/
theorem WritesPing.after {k : ℕ} {c : HostCall} (h : WritesPing k υ τ)
    (hcall : υ.host.calls = c :: σ.host.calls) (hevent : c.event? = none)
    (htaken : c.taken = []) : WritesPing k σ τ := by
  obtain ⟨calls, hcalls, hreported, hwritten⟩ := h
  refine ⟨calls ++ [c], ?_, ?_, ?_⟩
  · rw [hcalls, hcall, List.append_assoc]
    rfl
  · simp [hreported, hevent]
  · simp [hwritten, htaken]

omit [Host ω] in
theorem WritesPing.nothing (hcalls : τ.host.calls = σ.host.calls) : WritesPing 0 σ τ :=
  ⟨[], hcalls, rfl, rfl⟩

theorem ping_inv (h : (ping).runOn σ = some (r, τ)) :
    ∃ k, WritesPing k σ τ ∧
      (r = .ok () ∧ k = Ping.request.length ∧ (∃ t, τ.session = σ.session.pinged t) ∨
        r = .error .sendFailed ∧ τ.session = σ.session) := by
  have hwrites : ∀ {υ : Scene (Watched ω)} {k calls}, υ.host.calls = calls ++ σ.host.calls →
      SendCalls [Ping.request].flatten k calls → WritesPing k σ υ := fun hcalls hsent =>
    ⟨_, hcalls, reported_eq_nil_of_sending hsent.sending, hsent.taken⟩
  rw [ping] at h
  rcases Act.runOn_bind_inv h with ⟨fault, hsend, rfl⟩ | ⟨_, υ, hsend, h⟩
  · obtain ⟨k, calls, hcalls, hsent, -, ⟨hr, -⟩ | ⟨hr, hsession⟩⟩ := send_inv hsend
    · cases hr
    · cases hr
      exact ⟨k, hwrites hcalls hsent, .inr ⟨rfl, hsession⟩⟩
  · obtain ⟨k, calls, hcalls, hsent, -, ⟨-, hk, t, hsession⟩ | ⟨hr, -⟩⟩ := send_inv hsend
    · rw [Act.runOn_change] at h
      cases h
      exact ⟨k, hwrites hcalls hsent, .inl ⟨rfl, hk, t, by rw [hsession]; rfl⟩⟩
    · cases hr

/-- Seeing to keep-alive writes a PINGREQ at most, and fails as keep-alive only when the answer to
one is overdue. -/
theorem keepAliveDuty_inv (h : (keepAliveDuty).runOn σ = some (r, τ)) :
    (r = .error .keepAliveTimeout ↔ σ.session.Overdue (Host.now σ.host).1) ∧
      ∃ k, WritesPing k σ τ ∧ (τ.session = σ.session ∨
        r = .ok () ∧ k = Ping.request.length ∧ ∃ t, τ.session = σ.session.pinged t) := by
  have hclock : (Host.now σ.host).2.calls = .now (Host.now σ.host.host).1 :: σ.host.calls := rfl
  rw [keepAliveDuty, Act.runOn_bind_of_ok (Act.runOn_now _),
    Act.runOn_bind_of_ok (Act.runOn_session _)] at h
  rw [← duty_eq_giveUp]
  split at h
  · rename_i hduty
    cases h
    refine ⟨iff_of_false ?_ ?_, 0, (WritesPing.nothing rfl).after hclock rfl rfl, .inl rfl⟩
    · rintro ⟨⟩
    · exact fun hgives => by cases hduty.symm.trans hgives
  · rename_i hduty
    obtain ⟨k, hwrites, hends⟩ := ping_inv h
    refine ⟨iff_of_false ?_ ?_, k, hwrites.after hclock rfl rfl, ?_⟩
    · rintro rfl
      rcases hends with ⟨hr, -⟩ | ⟨hr, -⟩ <;> cases hr
    · exact fun hgives => by cases hduty.symm.trans hgives
    · rcases hends with hpinged | ⟨-, hsession⟩
      · exact .inr hpinged
      · exact .inl hsession
  · cases h
    exact ⟨iff_of_true rfl ‹_›, 0, (WritesPing.nothing rfl).after hclock rfl rfl, .inl rfl⟩

/-- **Before a packet is handled.** A call fails as keep-alive just when it gives up. Otherwise it
leaves what its read has left, or has sent a PINGREQ besides. -/
theorem arrive_inv {managed : Bool} (h : (arrive managed).runOn σ = some (r, τ)) :
    (r = .error .keepAliveTimeout ↔ managed = true ∧ GivesUp σ) ∧
      ∃ k, WritesPing k σ τ ∧ (τ.session = (fetch σ).session ∨
        managed = true ∧ r = .ok () ∧ k = Ping.request.length ∧
          ∃ t, τ.session = (fetch σ).session.pinged t) := by
  have hread : (fetch σ).host.calls = .read (σ.session.capacity - σ.session.filled)
    (firstAnswer σ).1 :: σ.host.calls := rfl
  have hreads : WritesPing 0 σ (fetch σ) := (WritesPing.nothing rfl).after hread rfl rfl
  cases hanswer : (firstAnswer σ).1 with
  | none =>
    rw [arrive_none hanswer] at h
    cases h
    refine ⟨iff_of_false ?_ ?_, 0, hreads, .inl rfl⟩
    · rintro ⟨⟩
    · rintro ⟨-, ⟨count, arrived, hquiet, -⟩, -⟩
      cases hanswer.symm.trans hquiet
  | some answer =>
    obtain ⟨count, arrived⟩ := answer
    rw [arrive_some hanswer] at h
    split at h
    · -- Reading has changed nothing that keep-alive looks at.
      obtain ⟨hquiet, rfl⟩ := ‹_ ∧ managed = true›
      obtain ⟨hgives, k, hwrites, hends⟩ := keepAliveDuty_inv h
      refine ⟨?_, k, hwrites.after hread rfl rfl, ?_⟩
      · rw [hgives, fetch, overdue_afterRead]
        exact ⟨fun hdue => ⟨rfl, ⟨count, arrived, hanswer, hquiet⟩, hdue⟩,
          fun hgives => hgives.2.overdue⟩
      · exact hends.imp_right fun hpinged => ⟨rfl, hpinged⟩
    · rename_i hcase
      cases h
      refine ⟨iff_of_false ?_ ?_, 0, hreads, .inl rfl⟩
      · rintro ⟨⟩
      · rintro ⟨hmanaged, ⟨count', arrived', hanswer', hquiet⟩, -⟩
        cases hanswer.symm.trans hanswer'
        exact hcase ⟨hquiet, hmanaged⟩

/-- In all this the exchanges and what has been negotiated stay as they are. -/
theorem arrive_keeps {managed : Bool} (h : (arrive managed).runOn σ = some (r, τ)) :
    τ.session.version = σ.session.version ∧ τ.session.negotiated = σ.session.negotiated ∧
      τ.session.exchanges = σ.session.exchanges ∧ ∃ k, WritesPing k σ τ := by
  obtain ⟨-, k, hwrites, hsession | ⟨-, -, -, t, hsession⟩⟩ := arrive_inv h
  · rw [hsession]
    exact ⟨version_afterRead .., negotiated_afterRead .., exchanges_afterRead .., k, hwrites⟩
  · rw [hsession]
    exact ⟨version_afterRead .., negotiated_afterRead .., exchanges_afterRead .., k, hwrites⟩

end MqttClient.Session
