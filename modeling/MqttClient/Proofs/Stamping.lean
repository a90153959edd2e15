import MqttClient.Proofs.KeepAlive

/-!
# What the clock showed

A session remembers when it last sent a packet and when it last handled one. An observer of its
calls can tell both. A packet has been sent when the clock is read right after a flush that
succeeds (`sentTimes`), and a call that has handled a packet ends with a look at the clock.
-/
namespace MqttClient

/-- The time that a call reads. -/
def HostCall.time? : HostCall → Option UInt32
  | now time => some time
  | _ => none

/-- The times that calls have read, latest first. -/
def clockTimes (calls : List HostCall) : List UInt32 := calls.filterMap HostCall.time?

/-- The times that calls have read right after a flush that succeeded, latest first. -/
def sentTimes : List HostCall → List UInt32
  | .now time :: .flush true :: rest => time :: sentTimes rest
  | _ :: rest => sentTimes rest
  | [] => []

/-- A call that does not look at the clock right after such a flush. -/
theorem sentTimes_cons {c : HostCall} {calls : List HostCall}
    (h : ∀ time rest, c = .now time → calls ≠ .flush true :: rest) :
    sentTimes (c :: calls) = sentTimes calls := by
  rw [sentTimes]
  exact fun time rest hc hcalls => h time rest hc hcalls

/-- Later calls add their own times, unless the first of them looks at the clock after a flush. -/
theorem sentTimes_append {later earlier : List HostCall}
    (h : earlier.head? ≠ some (.flush true)) :
    sentTimes (later ++ earlier) = sentTimes later ++ sentTimes earlier := by
  fun_induction sentTimes later with
  | case1 time rest ih => rw [List.cons_append, List.cons_append, sentTimes, ih, List.cons_append]
  | case2 c rest hother ih =>
    rw [List.cons_append, sentTimes_cons, ih]
    rintro time flushed rfl heq
    cases rest with
    | nil => exact h (by rw [← List.nil_append earlier, heq]; rfl)
    | cons d rest => exact hother time rest rfl (by rw [(List.cons.inj heq).1])
  | case3 => rfl

theorem sentTimes_eq_nil {calls : List HostCall} (h : ∀ c ∈ calls, c ≠ .flush true) :
    sentTimes calls = [] := by
  induction calls with
  | nil => rfl
  | cons c rest ih =>
    obtain ⟨-, hrest⟩ := List.forall_mem_cons.mp h
    rw [sentTimes_cons, ih hrest]
    rintro time rest' - rfl
    exact hrest _ List.mem_cons_self rfl

theorem head?_ne_of_forall {calls : List HostCall} (h : ∀ c ∈ calls, c ≠ .flush true) :
    calls.head? ≠ some (.flush true) :=
  fun hhead => h _ (List.mem_of_mem_head? hhead) rfl

variable {ω α : Type}

/-- Between two scenes packets may have been sent, and the session remembers when the last one
was. -/
def Stamps (σ τ : Scene (Watched ω)) : Prop :=
  ∃ calls, τ.host.calls = calls ++ σ.host.calls ∧ calls.head? ≠ some (.flush true) ∧
    τ.session.lastTx = (sentTimes calls).headD σ.session.lastTx

instance : IsPreorder (Scene (Watched ω)) Stamps where
  refl _ := ⟨[], rfl, nofun, rfl⟩
  trans := by
    rintro σ υ τ ⟨calls, hcalls, hhead, hlast⟩ ⟨later, hlater, hhead', hlast'⟩
    refine ⟨later ++ calls, by rw [hlater, hcalls, List.append_assoc], ?_, ?_⟩
    · cases later with
      | nil => exact hhead
      | cons c rest => exact hhead'
    · rw [sentTimes_append hhead, hlast', hlast]
      cases sentTimes later <;> rfl

namespace Stamps
variable {σ τ : Scene (Watched ω)}

/-- Calls that flush nothing. -/
theorem of_made (h : σ.host.Made (· ≠ .flush true) τ.host)
    (hlast : τ.session.lastTx = σ.session.lastTx) : Stamps σ τ := by
  obtain ⟨calls, hcalls, hkind⟩ := h
  exact ⟨calls, hcalls, head?_ne_of_forall hkind, by rw [sentTimes_eq_nil hkind, hlast]; rfl⟩

theorem change {f : Session → Session} (h : ∀ s, (f s).lastTx = s.lastTx) :
    Act.Keeps (@Stamps ω) (Act.change f) :=
  .change fun σ => .of_made (.refl _) (h σ.session)

/-- A call of the host that flushes nothing. -/
theorem host {f : Watched ω → α × Watched ω} {c : Watched ω → HostCall}
    (hcalls : ∀ h, (f h).2.calls = c h :: h.calls) (hc : ∀ h, c h ≠ .flush true) :
    Act.Keeps (@Stamps ω) (Act.host f) :=
  .host fun σ => .of_made (.of_call (hcalls σ.host) (hc σ.host)) rfl

end Stamps

variable [Host ω] {σ τ : Scene (Watched ω)}

namespace Session

/-- Offering spans flushes nothing. -/
theorem offer_unflushed (n : ℕ) (start : UInt32) (left : ℕ) (spans : List Bytes) :
    Act.Keeps (Makes (ω := ω) (· ≠ .flush true)) (offer n start left spans) :=
  offer_keeps (fun spans => .guarded (.hostDo fun _ => .of_call rfl (by simp))
      (.host fun _ => .of_call (Watched.calls_write spans _) (by simp))
      (.hostDo fun _ => .of_call rfl (by simp)))
    (.host fun _ => .of_call (Watched.calls_now _) (by simp)) n start left spans

/-- When a packet is sent, the last calls flush it and look at the clock. -/
theorem send_trace {spans : List Bytes} {r : Except Fault Unit}
    (h : (send spans).runOn σ = some (r, τ)) :
    ∃ calls, τ.host.calls = calls ++ σ.host.calls ∧
      ((∃ t before, calls = .now t :: .flush true :: before ∧ r = .ok () ∧
          (∀ c ∈ before, c ≠ .flush true) ∧ τ.session = { σ.session with lastTx := t }) ∨
        r = .error .sendFailed ∧ (∀ c ∈ calls, c ≠ .flush true) ∧ τ.session = σ.session) := by
  simp only [send] at h
  rw [Act.runOn_bind_of_ok (Act.runOn_now _), Act.runOn_bind_of_ok (Act.runOn_get _)] at h
  have hclock : Makes (· ≠ .flush true) σ { σ with host := (Host.now σ.host).2 } :=
    .of_call (Watched.calls_now σ.host) (by simp)
  rcases Act.runOn_bind_inv h with ⟨fault, hoffer, rfl⟩ | ⟨_, υ, hoffer, h⟩
  · obtain ⟨hsession, -, -, -, -, -, ⟨hr, -⟩ | ⟨hr, -⟩⟩ := offer_inv (Spans.size_eq spans) hoffer
    · cases hr
    · obtain ⟨calls, hcalls, hkind⟩ := hclock.trans (offer_unflushed _ _ _ _ _ _ _ hoffer)
      exact ⟨calls, hcalls, .inr ⟨hr, hkind, hsession⟩⟩
  obtain ⟨hsession, -⟩ := offer_inv (Spans.size_eq spans) hoffer
  obtain ⟨calls, hcalls, hkind⟩ := hclock.trans (offer_unflushed _ _ _ _ _ _ _ hoffer)
  rw [Act.runOn_bind_of_ok (Act.runOn_host _ _)] at h
  cases hflush : (Host.flush υ.host).1 with
  | false =>
    rw [hflush] at h
    cases h
    refine ⟨.flush false :: calls, ?_, .inr ⟨rfl, ?_, hsession⟩⟩
    · rw [Watched.calls_flush, show (Host.flush υ.host.host).1 = false from hflush, hcalls]
      rfl
    · exact List.forall_mem_cons.mpr ⟨by simp, hkind⟩
  | true =>
    rw [hflush] at h
    cases h
    have hflush' : (Host.flush υ.host.host).1 = true := hflush
    let t := (Host.now (Host.flush υ.host).2).1
    refine ⟨.now t :: .flush true :: calls, ?_, .inl ⟨t, calls, rfl, rfl, hkind, ?_⟩⟩
    · change _ :: (Host.flush υ.host).2.calls = _
      rw [Watched.calls_flush, hflush', hcalls]
      rfl
    · exact congrArg (fun s : Session => { s with lastTx := t }) hsession

theorem read_stamps (n : ℕ) : Act.Keeps (@Stamps ω) (Act.host (Host.read n)) :=
  Stamps.host (c := fun h => .read n (Host.read n h.host).1) (fun _ => rfl) fun _ => nofun

theorem send_stamps (spans : List Bytes) : Act.Keeps (@Stamps ω) (send spans) := by
  intro σ r τ hrun
  obtain ⟨calls, hcalls, ⟨t, before, rfl, -, hbefore, hsession⟩ | ⟨-, hkind, hsession⟩⟩ :=
    send_trace hrun
  · exact ⟨_, hcalls, nofun, by rw [hsession, sentTimes]; rfl⟩
  · exact .of_made ⟨calls, hcalls, hkind⟩ (by rw [hsession])

theorem listens_stamps : Listens (@Stamps ω) where
  read _ n := .readInto (read_stamps n) fun _ => Stamps.change fun _ => rfl
  now := Stamps.host (c := fun h => .now (Host.now h.host).1) (fun _ => rfl) fun _ => nofun
  header := .readHeader read_stamps
  reset := Stamps.change fun _ => rfl
  blank _ := Stamps.change fun _ => rfl
  negotiate _ := Stamps.change fun _ => rfl
  send := send_stamps
  track _ := .track (fun _ _ _ _ => .of_made ⟨trackCalls, rfl, by simp [trackCalls]⟩ rfl)
    fun _ => .of_made ⟨trackCalls, rfl, by simp [trackCalls]⟩ rfl
  report _ := .hostDo fun _ => .of_made (.of_call rfl nofun) rfl
  grow _ := Stamps.change fun _ => rfl
  wait := Stamps.change fun _ => rfl
  answer := Stamps.change fun _ => rfl
  consume _ := Stamps.change fun _ => rfl
  stamp _ := Stamps.change fun _ => rfl

end Session

end MqttClient
