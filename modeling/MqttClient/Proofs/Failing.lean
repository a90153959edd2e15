import MqttClient.Proofs.Oversized
import MqttClient.Proofs.Publishing
import MqttClient.Proofs.Resuming

/-!
# How calls fail

Eleven faults go through one channel, and each layer has some that are meant for the next one
only. Of what the network brings, a client that receives or connects lets on no more than is said
of it (`run_faults`). A call that is refused with `badParameter` is refused for its arguments,
before it has done anything at all (`run_refuses`): in each operation every check stands in front of
the first effect (`Act.Refuses`).
-/
namespace MqttClient

/-! ## Operations that refuse -/

namespace Act
variable {ω α β : Type}

/-- When an operation fails with a given fault, it has done nothing. -/
def Refuses (fault : Fault) (act : Act ω α) : Prop :=
  ∀ σ τ, act.runOn σ = some (.error fault, τ) → τ = σ

namespace Refuses
variable {fault : Fault} {act : Act ω α}

/-- An operation that never fails with the fault. -/
theorem of_faults {P : Fault → Prop} (h : Faults P act) (hP : ¬P fault) : Refuses fault act :=
  fun σ τ hrun => absurd (h σ fault τ hrun) hP

theorem throw (fault' : Fault) : Refuses fault (MonadExcept.throw fault' : Act ω α) := by
  intro σ τ hrun
  cases hrun
  rfl

theorem session_bind {f : Session → Act ω β} (hf : ∀ s, Refuses fault (f s)) :
    Refuses fault (Act.session >>= f) := by
  intro σ τ hrun
  rw [runOn_bind_of_ok (runOn_session σ)] at hrun
  exact hf σ.session σ τ hrun

theorem ofResult_bind {result : Except Fault α} {f : α → Act ω β}
    (hf : ∀ a, result = .ok a → Refuses fault (f a)) :
    Refuses fault (Act.ofResult result >>= f) := by
  cases result with
  | error fault' => exact throw fault'
  | ok a => exact hf a rfl

/-- A check in front of everything else. -/
theorem check {c : Prop} [Decidable c] {fault' : Fault} {f : β → Act ω α}
    (h : ¬c → Refuses fault act) :
    Refuses fault (if c then (MonadExcept.throw fault' : Act ω β) >>= f else act) := by
  split
  · exact throw fault'
  · exact h ‹_›

theorem bind_pure {f : α → β} (h : Refuses fault act) :
    Refuses fault (act >>= fun a => Pure.pure (f a)) := by
  intro σ τ hrun
  obtain ⟨r, hact, hr⟩ := runOn_bind_pure_inv hrun
  rcases r with fault' | a <;> cases hr
  exact h σ τ hact

end Refuses

end Act

namespace Session
variable {ω : Type} [Host ω]

open Act (Faults Refuses)

theorem ping_faults : Faults (· = .sendFailed) (ping : Act ω Unit) :=
  (send_faults _).bind fun _ => .change _

theorem sendAll_faults (packets : List (List Bytes)) :
    Faults (· = .sendFailed) (sendAll packets : Act ω Unit) := by
  induction packets with
  | nil => exact .pure _
  | cons spans rest ih => exact (send_faults spans).bind fun _ => ih

/-- Opening the exchange of a message that may be published. -/
theorem openOutgoing_faults {m : Message} {id : UInt16} (hid : id ≠ 0)
    (hm : m.qos.isTracked = true) :
    Faults (· ∈ [.stateCollision, .noMemory]) (openOutgoing m id : Act ω Unit) := by
  refine Faults.track_bind (P := (· ∈ [.stateCollision, .noMemory])) ?_ fun result hresult => ?_
  · intro t fault h
    have hargs : ¬(id = 0 ∨ m.qos = .atMostOnce) :=
      not_or.mpr ⟨hid, QoS.ne_atMostOnce_of_isTracked hm⟩
    rw [ExchangeTable.reserve_eq, if_neg hargs] at h
    split_ifs at h <;> cases h <;> simp
  · split
    · exact .pure _
    · exact .ite (.pure _) (.throw (hresult _ rfl))

theorem transmit_faults {m : Message} {id : UInt16} (hid : id ≠ 0) (hm : m.qos.isTracked = true)
    (spans : List Bytes) : Faults (· ∈ [.stateCollision, .noMemory, .sendFailed, .illegalState])
      (transmit m id spans : Act ω Unit) :=
  ((openOutgoing_faults hid hm).mono (by simp +contextual)).bind fun _ =>
    ((send_faults _).mono (by simp)).bind fun _ =>
      Faults.track_bind (fun _ _ h => by simp [ExchangeTable.onPublish_sent_error h])
        fun _ hresult => (Faults.ofResult hresult).bind fun _ => .pure _

theorem publish_refuses (m : Message) (id : UInt16) :
    Refuses .badParameter (publish m id : Act ω Unit) := by
  by_cases hm : m.qos.isTracked = true
  · intro σ τ hrun
    rcases publish_inv hm hrun with ⟨_, -, -, rfl⟩ | ⟨spans, hlayOut, htransmit⟩
    · rfl
    · exact absurd
        (transmit_faults (id_ne_zero_of_layOut hm hlayOut) hm spans σ _ τ htransmit) (by decide)
  · refine .session_bind fun s => .check fun _ => .ofResult_bind fun size _ =>
      .ofResult_bind fun spans _ => ?_
    simp only [if_neg hm]
    exact .of_faults ((send_faults spans).bind fun _ => .pure _) nofun

theorem subscribe_refuses (subscriptions : List Subscription) (properties : Bytes) (id : UInt16) :
    Refuses .badParameter (subscribe subscriptions properties id : Act ω Unit) :=
  .session_bind fun _ => .check fun _ => .ofResult_bind fun _ _ => .ofResult_bind fun _ _ =>
    .of_faults (sendAll_faults _) nofun

theorem unsubscribe_refuses (filters : List String) (properties : Bytes) (id : UInt16) :
    Refuses .badParameter (unsubscribe filters properties id : Act ω Unit) :=
  .session_bind fun _ => .check fun _ => .ofResult_bind fun _ _ => .ofResult_bind fun _ _ =>
    .of_faults (sendAll_faults _) nofun

theorem ping_refuses : Refuses .badParameter (ping : Act ω Unit) := .of_faults ping_faults nofun

theorem disconnect_refuses : Refuses .badParameter (disconnect : Act ω Unit) :=
  .of_faults ((send_faults _).bind fun _ => .change _) nofun

theorem disconnectWithReason_refuses (reason : UInt8) (properties : Bytes) :
    Refuses .badParameter (disconnectWithReason reason properties : Act ω Unit) :=
  .session_bind fun _ => .check fun _ => .ofResult_bind fun _ _ => .ofResult_bind fun _ _ =>
    .of_faults ((send_faults _).bind fun _ => .change _) nofun

/-! ## Receiving -/

/-- What receiving may fail with. -/
def receiveFaults : List Fault := .keepAliveTimeout :: bufferedFaults

theorem arrive_faults (managed : Bool) :
    Faults (· ∈ receiveFaults) (arrive managed : Act ω Unit) := by
  have hduty : Faults (· ∈ receiveFaults) (keepAliveDuty : Act ω Unit) := by
    refine (Faults.host _).bind fun _ => Faults.session.bind fun _ => ?_
    split
    · exact .pure _
    · exact ping_faults.mono (by simp [receiveFaults, bufferedFaults, dispatchFaults])
    · exact .throw (by simp [receiveFaults])
  exact Faults.session.bind fun _ =>
    ((readInto_faults _ _).mono (by simp [receiveFaults, bufferedFaults])).bind fun _ =>
      (Faults.change _).bind fun _ => .ite hduty (.pure _)

/-- Where the network buffer holds what it is said to hold, receiving fails in no other way. -/
theorem receive_error {managed : Bool} {σ τ : Scene (Watched ω)} {fault : Fault}
    (hfilled : σ.session.filled ≤ σ.session.capacity)
    (h : (receive managed).runOn σ = some (.error fault, τ)) : fault ∈ receiveFaults := by
  rw [receive_eq] at h
  rcases Act.runOn_bind_inv h with ⟨_, harrive, ⟨⟩⟩ | ⟨_, υ, harrive, hbuffered⟩
  · exact arrive_faults managed σ fault τ harrive
  rcases handleBuffered_error hbuffered with hfault | ⟨-, hover⟩
  · exact List.mem_cons_of_mem _ hfault
  · exact absurd hover (Nat.not_lt.mpr (filled_le_of_arrive hfilled harrive))

end Session

variable {ω : Type} [Host ω]

/-- In a client whose table and network buffer are as they should be, a call that is refused has
done nothing. -/
theorem Call.perform_refuses {call : Call} {σ τ : Scene (Watched ω)}
    (hvalid : σ.session.exchanges.Valid) (hfilled : σ.session.filled ≤ σ.session.capacity)
    (h : call.perform.runOn σ = some (.error .badParameter, τ)) : τ = σ := by
  cases call with
  | connect c timeout =>
    obtain ⟨r, hconnect, hr⟩ := Act.runOn_bind_pure_inv h
    rcases r with fault | present <;> cases hr
    rcases Session.connect_error hvalid hconnect with ⟨-, hτ⟩ | hfault
    · exact hτ
    · exact absurd hfault (by decide)
  | publish m id => exact (Session.publish_refuses m id).bind_pure σ τ h
  | subscribe subscriptions properties id =>
    exact (Session.subscribe_refuses subscriptions properties id).bind_pure σ τ h
  | unsubscribe filters properties id =>
    exact (Session.unsubscribe_refuses filters properties id).bind_pure σ τ h
  | disconnect => exact Session.disconnect_refuses.bind_pure σ τ h
  | disconnectWithReason reason properties =>
    exact (Session.disconnectWithReason_refuses reason properties).bind_pure σ τ h
  | ping => exact Session.ping_refuses.bind_pure σ τ h
  | takePacketId => cases h
  | receive managed =>
    obtain ⟨r, hreceive, hr⟩ := Act.runOn_bind_pure_inv h
    rcases r with fault | progress <;> cases hr
    exact absurd (Session.receive_error hfilled hreceive) (by decide)

theorem Step.calls_eq_nil {s : Step ω} (h : s.after = s.before) : s.calls = [] := by
  rw [Step.calls, h, Nat.sub_self, List.take_zero]

section
variable {steps : List (Step ω)} {s : Step ω}

theorem filled_le_of_new (hrun : IsRun steps)
    (hnew : ∀ s ∈ steps.head?, ∃ capacity m n version settings,
      s.before.session = .create capacity (.empty m n) version settings) :
    ∀ s ∈ steps, s.before.session.filled ≤ s.before.session.capacity := by
  refine filled_le_of_isRun hrun fun s hs => ?_
  obtain ⟨capacity, m, n, version, settings, hcreate⟩ := hnew s hs
  rw [hcreate]
  exact Nat.zero_le _

theorem after_eq_of_refused (hrun : IsRun steps)
    (hnew : ∀ s ∈ steps.head?, ∃ capacity m n version settings,
      s.before.session = .create capacity (.empty m n) version settings)
    (hs : s ∈ steps) (hresult : s.result = .error .badParameter) : s.after = s.before :=
  Call.perform_refuses (valid_of_isRun hrun hnew s hs) (filled_le_of_new hrun hnew s hs)
    (hresult ▸ s.performed)

/-- **A refused call leaves no trace.** Whatever a new client and its broker have done so far, when
a call with any arguments is refused with `badParameter`, it has asked its host for nothing at all,
neither to read nor to write nor to enter a guard, and the session is just as it was. -/
theorem run_refuses (hrun : IsRun steps)
    (hnew : ∀ s ∈ steps.head?, ∃ capacity m n version settings,
      s.before.session = .create capacity (.empty m n) version settings)
    (hs : s ∈ steps) (hresult : s.result = .error .badParameter) :
    s.calls = [] ∧ s.after = s.before := by
  have hafter : s.after = s.before := after_eq_of_refused hrun hnew hs hresult
  exact ⟨Step.calls_eq_nil hafter, hafter⟩

/-- A client that has published a message is asked to publish another one without an identifier. -/
def unidentified : List (Step Scripted) :=
  stepsFrom
    { session := .create 8 (.empty 2 0) .v311 {}
      host := { host := { incoming := [0x20, 2, 0, 0] } } }
    [.connect { clientId := "c" } 1000, .publish { topic := "a", qos := .atLeastOnce } 3,
      .publish { topic := "a", qos := .atLeastOnce } 0]

theorem run_refuses_unidentified :
    ∃ s ∈ unidentified, s.call = .publish { topic := "a", qos := .atLeastOnce } 0 ∧
      s.result = .error .badParameter ∧ s.calls = [] ∧ s.after = s.before := by
  obtain ⟨s, hs, hcall, hresult⟩ : ∃ s ∈ unidentified,
      s.call = .publish { topic := "a", qos := .atLeastOnce } 0 ∧
        s.result = .error .badParameter := by decide +kernel
  have hnew : ∀ s ∈ unidentified.head?, ∃ capacity m n version settings,
      s.before.session = .create capacity (.empty m n) version settings := fun s hs =>
    ⟨8, 2, 0, .v311, {}, by rw [before_of_mem_head?_stepsFrom hs]⟩
  exact ⟨s, hs, hcall, hresult, run_refuses (isRun_stepsFrom _ _) hnew hs hresult⟩

/-- **What the network can cause.** Whatever bytes arrive at a new client, however its transport
fails and whatever the clock shows, receiving never fails with a fault that is about arguments,
about the answer to a CONNECT, about bytes still to come or about an exchange that is open already.
Connecting never fails with one of the last two kinds, and when it fails because of its arguments
nothing has been asked of the host, so that no byte of a CONNECT has been offered. -/
theorem run_faults (hrun : IsRun steps)
    (hnew : ∀ s ∈ steps.head?, ∃ capacity m n version settings,
      s.before.session = .create capacity (.empty m n) version settings)
    (hs : s ∈ steps) {fault : Fault} (hresult : s.result = .error fault) :
    (∀ managed, s.call = .receive managed →
      fault ∉ [.badParameter, .serverRefused, .noDataAvailable, .needMoreBytes,
        .stateCollision]) ∧
      ∀ c timeout, s.call = .connect c timeout →
        fault ∉ [.noDataAvailable, .needMoreBytes, .stateCollision] ∧
          (fault = .badParameter → s.calls = []) := by
  constructor
  · intro managed hcall
    obtain ⟨r, hreceive, hends⟩ := s.receives hcall
    rw [(hends fault).mp hresult] at hreceive
    have hfault := Session.receive_error (filled_le_of_new hrun hnew s hs) hreceive
    revert hfault
    cases fault <;> decide
  · intro c timeout hcall
    refine ⟨?_, fun hbad =>
      Step.calls_eq_nil (after_eq_of_refused hrun hnew hs (hbad ▸ hresult))⟩
    have hconnect := s.connects_error hcall hresult
    rcases Session.connect_error (valid_of_isRun hrun hnew s hs) hconnect with ⟨rfl, -⟩ | hfault
    · decide
    · revert hfault
      cases fault <;> decide

end

/-- A client is asked to connect without a name to a session that is to be kept, then connects with
one, and receives a PUBACK for a message that it has not published. -/
def unasked : List (Step Scripted) :=
  stepsFrom
    { session := .create 8 (.empty 1 1) .v311 {}
      host := { host := { incoming := [0x20, 2, 0, 0, 0x40, 2, 0, 5] } } }
    [.connect { clientId := "", cleanSession := false } 1000, .connect { clientId := "c" } 1000,
      .receive true]

theorem run_faults_unasked :
    ∃ refused ∈ unasked, ∃ received ∈ unasked, refused.result = .error .badParameter ∧
      refused.calls = [] ∧ received.result = .error .illegalState ∧
      Fault.illegalState ∉ [.badParameter, .serverRefused, .noDataAvailable, .needMoreBytes,
        .stateCollision] := by
  obtain ⟨refused, hrefused, hconnects, hbad⟩ : ∃ s ∈ unasked,
      s.call = .connect { clientId := "", cleanSession := false } 1000 ∧
        s.result = .error .badParameter := by decide +kernel
  obtain ⟨received, hreceived, hreceives, hillegal⟩ : ∃ s ∈ unasked,
      s.call = .receive true ∧ s.result = .error .illegalState := by decide +kernel
  have hnew : ∀ s ∈ unasked.head?, ∃ capacity m n version settings,
      s.before.session = .create capacity (.empty m n) version settings := fun s hs =>
    ⟨8, 1, 1, .v311, {}, by rw [before_of_mem_head?_stepsFrom hs]⟩
  have hrun : IsRun unasked := isRun_stepsFrom _ _
  exact ⟨refused, hrefused, received, hreceived, hbad,
    ((run_faults hrun hnew hrefused hbad).2 _ _ hconnects).2 rfl, hillegal,
    (run_faults hrun hnew hreceived hillegal).1 _ hreceives⟩

end MqttClient
