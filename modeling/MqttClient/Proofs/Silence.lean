import MqttClient.Proofs.Untouched

/-!
# Operations that report nothing

Moving bytes in and out neither reports a packet nor touches an exchange: it keeps `Silent`. The
only operations that do more are those that handle a packet, publish a tracked message, or send
an acknowledgement.
-/
namespace MqttClient
variable {ω : Type}

/-- From one host to the other calls have been added that report nothing. -/
def Watched.Unheard (h h' : Watched ω) : Prop :=
  ∃ calls, h'.calls = calls ++ h.calls ∧ reported calls = []

namespace Watched.Unheard
variable {h h' h'' : Watched ω}

theorem refl (h : Watched ω) : h.Unheard h := ⟨[], rfl, rfl⟩

theorem trans (hfirst : h.Unheard h') (hsecond : h'.Unheard h'') : h.Unheard h'' := by
  obtain ⟨calls, hcalls, hreported⟩ := hfirst
  obtain ⟨later, hlater, hreported'⟩ := hsecond
  exact ⟨later ++ calls, by rw [hlater, hcalls, List.append_assoc],
    by rw [reported_append, hreported, hreported']; rfl⟩

/-- One call. -/
theorem of_call {c : HostCall} (hcalls : h'.calls = c :: h.calls) (hc : c.event? = none) :
    h.Unheard h' := ⟨[c], hcalls, by simp [reported, hc]⟩

end Watched.Unheard

/-- Between two scenes nothing has been reported, and the exchanges are as they were. -/
structure Silent (σ τ : Scene (Watched ω)) : Prop where
  exchanges : τ.session.exchanges = σ.session.exchanges
  unheard : σ.host.Unheard τ.host

instance : IsPreorder (Scene (Watched ω)) Silent where
  refl σ := ⟨rfl, .refl σ.host⟩
  trans _ _ _ h h' := ⟨h'.exchanges.trans h.exchanges, h.unheard.trans h'.unheard⟩

/-- One call of the host. -/
theorem Silent.of_call {σ : Scene (Watched ω)} {h' : Watched ω} {c : HostCall}
    (hcalls : h'.calls = c :: σ.host.calls) (hc : c.event? = none) :
    Silent σ { σ with host := h' } := ⟨rfl, .of_call hcalls hc⟩

/-- A change of the session that has nothing to do with its exchanges. -/
theorem Act.Keeps.silent_change {f : Session → Session}
    (h : ∀ s, (f s).exchanges = s.exchanges) :
    Act.Keeps (@Silent ω) (Act.change f) :=
  .change fun σ => ⟨h σ.session, .refl σ.host⟩

variable [Host ω]

theorem Act.Keeps.silent_now : Act.Keeps (@Silent ω) Act.now :=
  .host fun _ => .of_call (Watched.calls_now _) rfl

namespace Session

/-! ## Sending -/

theorem send_silent (spans : List Bytes) :
    Act.Keeps (@Silent ω) (send spans) := by
  intro σ r τ hrun
  obtain ⟨k, calls, hcalls, hsent, -, hend⟩ := send_inv hrun
  refine ⟨?_, calls, hcalls, reported_eq_nil_of_sending hsent.sending⟩
  rcases hend with ⟨-, -, t, hsession⟩ | ⟨-, hsession⟩ <;> rw [hsession]

theorem ping_silent : Act.Keeps (@Silent ω) ping :=
  (send_silent _).bind fun _ => .silent_change fun _ => by rfl

theorem disconnect_silent : Act.Keeps (@Silent ω) disconnect :=
  (send_silent _).bind fun _ => .silent_change fun _ => by rfl

theorem disconnectWithReason_silent (reason : UInt8) (properties : Bytes) :
    Act.Keeps (@Silent ω) (disconnectWithReason reason properties) :=
  Act.Keeps.session.bind fun _ => .check <| (Act.Keeps.ofResult _).bind fun _ =>
    (Act.Keeps.ofResult _).bind fun _ => (send_silent _).bind fun _ =>
      .silent_change fun _ => by rfl

/-! ## Taking bytes in -/

theorem inward_silent : Inward (@Silent ω) where
  read _ n := .readInto (.host fun _ => .of_call (Watched.calls_read n _) rfl)
    fun _ => .silent_change fun _ => by rfl
  now := .silent_now
  header := .readHeader fun n => .host fun _ => .of_call (Watched.calls_read n _) rfl
  reset := .silent_change fun _ => by rfl
  blank _ := .silent_change fun _ => by rfl
  negotiate _ := .silent_change fun _ => by rfl

theorem keepAliveDuty_silent : Act.Keeps (@Silent ω) keepAliveDuty :=
  keepAliveDuty_keeps send_silent .silent_now (.silent_change fun _ => by rfl)

theorem arrive_silent (managed : Bool) : Act.Keeps (@Silent ω) (arrive managed) :=
  Act.Keeps.session.bind fun _ => (inward_silent.read _ _).bind fun _ =>
    (Act.Keeps.silent_change fun _ => by rfl).bind fun _ => .ite keepAliveDuty_silent (.pure _)

theorem handshake_silent (c : Connect) (timeout : UInt32) :
    Act.Keeps (@Silent ω) (handshake c timeout) := inward_silent.handshake send_silent c timeout

theorem establish_silent (c : Connect) : Act.Keeps (@Silent ω) (establish c) :=
  (Act.Keeps.silent_change fun _ => by rfl).bind fun _ => Act.Keeps.silent_now.bind fun _ =>
    .silent_change fun _ => by rfl

end Session

end MqttClient
