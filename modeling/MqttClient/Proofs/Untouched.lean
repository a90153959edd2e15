import Mathlib.Tactic.SplitIfs
import MqttClient.Proofs.Arriving
import MqttClient.Proofs.Inward
import MqttClient.Proofs.Outward
import MqttClient.Proofs.Runs

/-!
# What operations do not touch

An operation on a session touches little of it, and asks its host for few kinds of things. `Same f`
says that something of the session is as it was, and `Makes P` that every call made to the host is
of the kind `P`. Receiving is made of a few steps besides those of `Session.Inward` and
`Session.Outward`: a relation that is kept by all of them is kept by it (`Session.Listens`).
-/
namespace MqttClient
variable {ω α : Type}

/-! ## Calls of one kind -/

/-- From one host to the other, calls of one kind have been made and no others. -/
def Watched.Made (P : HostCall → Prop) (h h' : Watched ω) : Prop :=
  ∃ calls, h'.calls = calls ++ h.calls ∧ ∀ c ∈ calls, P c

namespace Watched.Made
variable {P : HostCall → Prop} {h h' h'' : Watched ω}

theorem refl (h : Watched ω) : h.Made P h := ⟨[], rfl, by simp⟩

theorem trans (hfirst : h.Made P h') (hsecond : h'.Made P h'') : h.Made P h'' := by
  obtain ⟨calls, hcalls, hkind⟩ := hfirst
  obtain ⟨later, hlater, hkind'⟩ := hsecond
  exact ⟨later ++ calls, by rw [hlater, hcalls, List.append_assoc],
    List.forall_mem_append.mpr ⟨hkind', hkind⟩⟩

/-- One call. -/
theorem of_call {c : HostCall} (hcalls : h'.calls = c :: h.calls) (hc : P c) : h.Made P h' :=
  ⟨[c], hcalls, by simpa using hc⟩

end Watched.Made

/-- The calls made between two scenes are of one kind. -/
def Makes (P : HostCall → Prop) (σ τ : Scene (Watched ω)) : Prop := σ.host.Made P τ.host

instance (P : HostCall → Prop) : IsPreorder (Scene (Watched ω)) (Makes P) where
  refl σ := .refl σ.host
  trans _ _ _ h h' := h.trans h'

/-- Calls have been made that write nothing. -/
abbrev Mute : Scene (Watched ω) → Scene (Watched ω) → Prop := Makes fun c => ¬c.IsWrite

/-- Something of the session is as it was. -/
def Same (f : Session → α) (σ τ : Scene ω) : Prop := f τ.session = f σ.session

instance (f : Session → α) : IsPreorder (Scene ω) (Same f) where
  refl _ := rfl
  trans _ _ _ h h' := h'.trans h

/-- A change of the session alone makes no call. -/
theorem Act.Keeps.makes_change {P : HostCall → Prop} {f : Session → Session} :
    Act.Keeps (Makes (ω := ω) P) (Act.change f) :=
  .change fun σ => .refl σ.host

/-- Nor does a call of the host change the session. -/
theorem Act.Keeps.same_host {β : Type} {f : Session → α} {g : ω → β × ω} :
    Act.Keeps (Same f) (Act.host g) :=
  .host fun _ => rfl

variable [Host ω]

/-! ## Reading a header -/

namespace Act.Keeps
variable {R : Scene ω → Scene ω → Prop} [IsPreorder (Scene ω) R]
  (hread : ∀ n, Act.Keeps R (Act.host (Host.read n)))
include hread

omit [IsPreorder (Scene ω) R] in
theorem readByte : Act.Keeps R (Act.host Host.readByte) := by
  refine .host fun σ => ?_
  have hcall := hread 1 σ _ _ (Act.runOn_host _ _)
  rw [Host.readByte]
  split
  all_goals
    rename_i heq
    rw [heq] at hcall
    exact hcall

theorem readVarIntFrom (n : ℕ) (p : VarInt.Pending) :
    Act.Keeps R (Act.host (Host.readVarIntFrom n p)) := by
  refine .host fun σ => ?_
  induction n generalizing p σ with
  | zero => exact refl_of R σ
  | succ n ih =>
    have hbyte := readByte hread σ _ _ (Act.runOn_host _ _)
    rw [Host.readVarIntFrom]
    generalize Host.readByte σ.host = found at hbyte ⊢
    obtain ⟨_ | ⟨count, b⟩, host⟩ := found
    · exact hbyte
    · dsimp only
      split_ifs
      · split
        · exact hbyte
        · exact hbyte
        · exact trans_of R hbyte (ih _ { σ with host })
      · exact hbyte

/-- The header of a packet is read from the stream by reads alone. -/
theorem readHeader (version : Version) : Act.Keeps R (Act.host (Host.readHeader version)) := by
  refine .host fun σ => ?_
  have hbyte := readByte hread σ _ _ (Act.runOn_host _ _)
  rw [Host.readHeader]
  generalize Host.readByte σ.host = found at hbyte ⊢
  obtain ⟨_ | ⟨count, first⟩, host⟩ := found
  · exact hbyte
  · have hnumber : R { σ with host } { σ with host := (Host.readVarInt host).2 } :=
      readVarIntFrom hread _ _ { σ with host } _ _ (Act.runOn_host _ _)
    have hrest := trans_of R hbyte hnumber
    dsimp only
    split_ifs
    · exact hbyte
    · generalize Host.readVarInt host = read at hrest ⊢
      obtain ⟨_ | remaining, host'⟩ := read <;> exact hrest
    · exact hbyte

end Act.Keeps

namespace Session

/-! ## Taking bytes in, and sending -/

/-- Taking bytes in takes reads and looks at the clock. -/
theorem inward_makes {P : HostCall → Prop} (hread : ∀ n answer, P (.read n answer))
    (hnow : ∀ t, P (.now t)) : Inward (Makes (ω := ω) P) where
  read _ n := .readInto (.host fun σ => .of_call (Watched.calls_read n σ.host) (hread _ _))
    fun _ => .makes_change
  now := .host fun σ => .of_call (Watched.calls_now σ.host) (hnow _)
  header := .readHeader fun n => .host fun σ => .of_call (Watched.calls_read n σ.host) (hread _ _)
  reset := .makes_change
  blank _ := .makes_change
  negotiate _ := .makes_change

/-- Updating the exchanges makes three calls. -/
theorem track_makes {P : HostCall → Prop} (hcalls : ∀ c ∈ trackCalls, P c)
    (step : ExchangeTable → Except Fault (α × ExchangeTable)) :
    Act.Keeps (Makes (ω := ω) P) (Act.track step) :=
  have htrack (h : Watched ω) : h.Made P (Act.trackedHost h) :=
    ⟨trackCalls, Watched.calls_trackedHost h, hcalls⟩
  .track (fun σ _ _ _ => htrack σ.host) fun σ => htrack σ.host

/-- None of this writes. -/
theorem inward_mute : Inward (Mute (ω := ω)) := inward_makes (fun _ _ => id) fun _ => id

theorem establish_mute (c : Connect) : Act.Keeps Mute (establish c : Act (Watched ω) Unit) :=
  Act.Keeps.makes_change.bind fun _ => inward_mute.now.bind fun _ => .makes_change

theorem track_mute (step : ExchangeTable → Except Fault (α × ExchangeTable)) :
    Act.Keeps (Mute (ω := ω)) (Act.track step) :=
  track_makes (fun _ => not_isWrite_of_mem_trackCalls) step

theorem report_mute (event : Event) : Act.Keeps (Mute (ω := ω)) (report event) :=
  .hostDo fun _ => .of_call rfl id

/-- Sending, updating the exchanges and reporting take no read. -/
theorem outward_makes {P : HostCall → Prop} (hsending : ∀ c, c.IsSending → P c)
    (htracking : P .tracking) (hnotify : ∀ event, P (.notify event)) :
    Outward (Makes (ω := ω) P) where
  send spans σ r τ hrun := by
    obtain ⟨k, calls, hcalls, hsent, -⟩ := send_inv hrun
    exact ⟨calls, hcalls, fun c hc => hsending c (hsent.sending c hc)⟩
  track _ := track_makes (by
    simp [trackCalls, htracking, hsending .exit trivial, hsending .enter trivial]) _
  report event := .hostDo fun σ => .of_call (Watched.calls_notify event σ.host) (hnotify event)

/-- Taking bytes in leaves all of the session but the network buffer and what was negotiated. -/
theorem inward_same {f : Session → α} (hf : ∀ s buffer filled negotiated,
    f { s with buffer, filled, negotiated } = f s) : Inward (Same (ω := ω) f) where
  read _ _ := .readInto .same_host fun _ => .change fun σ => hf σ.session ..
  now := .same_host
  header _ := .same_host
  reset := .change fun σ => hf σ.session ..
  blank _ := .change fun σ => hf σ.session ..
  negotiate _ := .change fun σ => hf σ.session ..

/-- Sending leaves all of the session but the time of it, and updating the exchanges all but
them. -/
theorem outward_same {f : Session → α} (hf : ∀ s lastTx exchanges,
    f { s with lastTx, exchanges } = f s) : Outward (Same (ω := ω) f) where
  send := send_keeps
    (fun _ => .guarded (.hostDo fun _ => rfl) .same_host (.hostDo fun _ => rfl)) .same_host
    .same_host fun _ => .change fun σ => hf σ.session ..
  track _ := .track (fun σ _ _ _ => hf σ.session ..) fun _ => rfl
  report _ := .hostDo fun _ => rfl

/-! ## Receiving -/

section
variable {R : Scene ω → Scene ω → Prop} [IsPreorder (Scene ω) R]

theorem keepAliveDuty_keeps (hsend : ∀ spans, Act.Keeps R (send spans))
    (hnow : Act.Keeps R Act.now) (hwait : Act.Keeps R (Act.change fun s =>
      { s with pingSentAt := s.lastTx, awaitsPingresp := true })) :
    Act.Keeps R keepAliveDuty := by
  refine hnow.bind fun _ => Act.Keeps.session.bind fun _ => ?_
  split
  · exact .pure _
  · exact (hsend _).bind fun _ => hwait
  · exact .throw _

section
variable {managed : Bool} (hdispatch : ∀ packet, Act.Keeps R (dispatch managed packet))
  (hconsume : ∀ n, Act.Keeps R (Act.change (consume n)))
  (hstamp : ∀ t, Act.Keeps R (Act.change fun s => { s with lastRx := t }))
include hdispatch hconsume hstamp

theorem handleFront_keeps (hnow : Act.Keeps R Act.now) (header : Header) :
    Act.Keeps R (handleFront managed header) :=
  Act.Keeps.session.bind fun _ => (Act.Keeps.outcome (hdispatch _)).bind fun _ =>
    (hconsume _).bind fun _ => (Act.Keeps.ofResult _).bind fun _ => hnow.bind fun _ =>
      (hstamp _).bind fun _ => .pure _

/-- A look at the network buffer drops a packet or handles one. -/
theorem handleBuffered_keeps (h : Inward R) : Act.Keeps R (handleBuffered managed) := by
  refine Act.Keeps.session.bind fun s => .ite (.pure _) ?_
  split
  · exact .pure _
  · exact .throw _
  · exact .ite ((h.discard _).bind fun _ => .pure _)
      (.ite (.pure _) (handleFront_keeps hdispatch hconsume hstamp h.now _))

end

end

/-- A relation that is kept by the steps of which receiving is made. -/
structure Listens (R : Scene ω → Scene ω → Prop) : Prop extends Inward R, Outward R where
  grow : ∀ n, Act.Keeps R (Act.change fun s => { s with filled := s.filled + n })
  wait : Act.Keeps R (Act.change fun s =>
    { s with pingSentAt := s.lastTx, awaitsPingresp := true })
  answer : Act.Keeps R (Act.change fun s => { s with awaitsPingresp := false })
  consume : ∀ n, Act.Keeps R (Act.change (consume n))
  stamp : ∀ t, Act.Keeps R (Act.change fun s => { s with lastRx := t })

namespace Listens
variable {R : Scene ω → Scene ω → Prop} [IsPreorder (Scene ω) R]

theorem ping (h : Listens R) : Act.Keeps R Session.ping :=
  (h.send _).bind fun _ => h.wait

theorem arrive (h : Listens R) (managed : Bool) : Act.Keeps R (Session.arrive managed) :=
  Act.Keeps.session.bind fun _ => (h.read _ _).bind fun _ => (h.grow _).bind fun _ =>
    .ite (keepAliveDuty_keeps h.send h.now h.wait) (.pure _)

/-- Handling a DISCONNECT is left to the relation. -/
theorem handleBuffered (h : Listens R) (managed : Bool)
    (hend : Act.Keeps R (Act.change fun s => { s with status := .notConnected })) :
    Act.Keeps R (Session.handleBuffered managed) :=
  handleBuffered_keeps (fun packet => h.answering.dispatch managed packet h.answer fun _ => hend)
    h.consume h.stamp h.toInward

theorem receive (h : Listens R) (managed : Bool)
    (hend : Act.Keeps R (Act.change fun s => { s with status := .notConnected })) :
    Act.Keeps R (Session.receive managed) := by
  rw [receive_eq]
  exact (h.arrive managed).bind fun _ => h.handleBuffered managed hend

end Listens

/-- Receiving leaves the settings, the protocol, the keep-alive in force and the next packet
identifier, and all but a DISCONNECT leave the status. -/
theorem listens_same {f : Session → α} (hf : ∀ s buffer filled lastTx lastRx pingSentAt
    awaitsPingresp negotiated exchanges, f { s with
      buffer, filled, lastTx, lastRx, pingSentAt, awaitsPingresp, negotiated, exchanges } = f s) :
    Listens (Same (ω := Watched ω) f) where
  toInward := inward_same fun s _ _ _ => hf s ..
  toOutward := outward_same fun s _ _ => hf s ..
  grow _ := .change fun σ => hf σ.session ..
  wait := .change fun σ => hf σ.session ..
  answer := .change fun σ => hf σ.session ..
  consume _ := .change fun σ => hf σ.session ..
  stamp _ := .change fun σ => hf σ.session ..

end Session

/-! ## Calls of the program -/

section
variable {R : Scene (Watched ω) → Scene (Watched ω) → Prop} [IsPreorder (Scene (Watched ω)) R]
  {σ τ : Scene (Watched ω)}

namespace Session

omit [Host ω] [IsPreorder (Scene (Watched ω)) R] in
/-- An operation is followed by the end of the session, unless it fails. -/
theorem close_inv {act : Act (Watched ω) Unit} {r : Except Fault Unit} (hact : Act.Keeps R act)
    (h : (act >>= fun _ => Act.change close).runOn σ = some (r, τ)) :
    r = .ok () ∧ (∃ s : Session, τ.session = s.close) ∨ (∃ fault, r = .error fault) ∧ R σ τ := by
  rcases Act.runOn_bind_inv h with ⟨fault, hact', rfl⟩ | ⟨_, υ, -, h⟩
  · exact .inr ⟨⟨fault, rfl⟩, hact σ _ τ hact'⟩
  · cases h
    exact .inl ⟨rfl, υ.session, rfl⟩

omit [IsPreorder (Scene (Watched ω)) R] in
theorem disconnect_inv {r : Except Fault Unit} (hR : Outward R)
    (h : disconnect.runOn σ = some (r, τ)) :
    r = .ok () ∧ (∃ s : Session, τ.session = s.close) ∨ (∃ fault, r = .error fault) ∧ R σ τ :=
  close_inv (hR.send _) h

theorem disconnectWithReason_inv {reason : UInt8} {properties : Bytes} {r : Except Fault Unit}
    (hR : Outward R) (h : (disconnectWithReason reason properties).runOn σ = some (r, τ)) :
    r = .ok () ∧ (∃ s : Session, τ.session = s.close) ∨ (∃ fault, r = .error fault) ∧ R σ τ := by
  rw [disconnectWithReason, Act.runOn_bind_of_ok (Act.runOn_session _)] at h
  split at h
  · rw [Act.runOn_bind_of_error (Act.runOn_throw _ _)] at h
    cases h
    exact .inr ⟨⟨_, rfl⟩, refl_of R σ⟩
  · simp only [← bind_assoc] at h
    exact close_inv (((Act.Keeps.ofResult _).bind fun _ => .ofResult _).bind fun _ => hR.send _) h

end Session

/-- A call keeps what sending keeps, given the same of the calls that do more. -/
theorem Call.perform_keeps (h : Session.Outward R) (call : Call)
    (hconnect : ∀ c timeout, call = .connect c timeout → Act.Keeps R (Session.connect c timeout))
    (hclose : (call = .disconnect ∨ ∃ reason properties,
      call = .disconnectWithReason reason properties) → Act.Keeps R (Act.change Session.close))
    (hping : call = .ping → Act.Keeps R Session.ping)
    (htake : Act.Keeps R (Act.change fun s => s.takePacketId.2))
    (hreceive : ∀ managed, call = .receive managed → Act.Keeps R (Session.receive managed)) :
    Act.Keeps R call.perform := by
  cases call with
  | connect c timeout => exact (hconnect c timeout rfl).bind fun _ => .pure _
  | publish m id => exact (h.publish m id).bind fun _ => .pure _
  | subscribe subscriptions properties id =>
    exact (Session.subscribe_keeps h.send _ _ _).bind fun _ => .pure _
  | unsubscribe filters properties id =>
    exact (Session.unsubscribe_keeps h.send _ _ _).bind fun _ => .pure _
  | disconnect => exact ((h.send _).bind fun _ => hclose (.inl rfl)).bind fun _ => .pure _
  | disconnectWithReason reason properties =>
    have hends : Act.Keeps R (Session.disconnectWithReason reason properties) :=
      Act.Keeps.session.bind fun _ => .check <| (Act.Keeps.ofResult _).bind fun _ =>
        (Act.Keeps.ofResult _).bind fun _ => (h.send _).bind fun _ => hclose (.inr ⟨_, _, rfl⟩)
    exact hends.bind fun _ => .pure _
  | ping => exact (hping rfl).bind fun _ => .pure _
  | takePacketId => exact Act.Keeps.session.bind fun _ => htake.bind fun _ => .pure _
  | receive managed => exact (hreceive managed rfl).bind fun _ => .pure _

namespace Step

/-- A step ends the session because the program asks for it. -/
def HangsUp (s : Step ω) : Prop :=
  (s.call = .disconnect ∨ ∃ reason properties, s.call = .disconnectWithReason reason properties) ∧
    s.result = .ok .done

/-- A step that asks for the end of the session gets it or fails, and then keeps what sending
keeps. -/
theorem hangsUp_or_keeps (h : Session.Outward R) {s : Step ω} (hcall : s.call = .disconnect ∨
      ∃ reason properties, s.call = .disconnectWithReason reason properties) :
    s.HangsUp ∧ (∃ t : Session, s.after.session = t.close) ∨ ¬s.HangsUp ∧ R s.before s.after := by
  obtain ⟨call, σ, r, τ, hrun⟩ := s
  rcases hcall with rfl | ⟨reason, properties, rfl⟩
  · obtain ⟨r', hrun', rfl⟩ := Act.runOn_bind_pure_inv hrun
    rcases Session.disconnect_inv h hrun' with ⟨rfl, hclose⟩ | ⟨⟨fault, rfl⟩, hkeeps⟩
    · exact .inl ⟨⟨.inl rfl, rfl⟩, hclose⟩
    · exact .inr ⟨by rintro ⟨-, ⟨⟩⟩, hkeeps⟩
  · obtain ⟨r', hrun', rfl⟩ := Act.runOn_bind_pure_inv hrun
    rcases Session.disconnectWithReason_inv h hrun' with ⟨rfl, hclose⟩ | ⟨⟨fault, rfl⟩, hkeeps⟩
    · exact .inl ⟨⟨.inr ⟨_, _, rfl⟩, rfl⟩, hclose⟩
    · exact .inr ⟨by rintro ⟨-, ⟨⟩⟩, hkeeps⟩

/-- A step that neither connects nor receives nor hangs up keeps what sending keeps. -/
theorem keeps (h : Session.Outward R) (hping : Act.Keeps R Session.ping)
    (htake : Act.Keeps R (Act.change fun s => s.takePacketId.2)) {s : Step ω}
    (hconnect : ∀ c timeout, s.call ≠ .connect c timeout)
    (hreceive : ∀ managed, s.call ≠ .receive managed) (hstays : ¬s.HangsUp) :
    R s.before s.after := by
  by_cases hcall : s.call = .disconnect ∨
      ∃ reason properties, s.call = .disconnectWithReason reason properties
  · exact ((hangsUp_or_keeps h hcall).resolve_left fun hends => hstays hends.1).2
  · exact s.call.perform_keeps h (fun c timeout hcall' => absurd hcall' (hconnect c timeout))
      (fun hcall' => absurd hcall' hcall) (fun _ => hping) htake
      (fun managed hcall' => absurd hcall' (hreceive managed)) s.before s.result s.after s.performed

end Step

end

end MqttClient
