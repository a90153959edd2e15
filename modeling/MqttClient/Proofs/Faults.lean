import Mathlib.Data.Nat.Notation
import Mathlib.Tactic.SplitIfs
import MqttClient.Proofs.Acknowledgements
import MqttClient.Proofs.Headers
import MqttClient.Proofs.Messages
import MqttClient.Session.Receiving

/-!
# How operations fail

`Act.Faults P act` says that every fault of an operation has the property `P`, and is proved
along the operation as `Act.Keeps` is. What a decoder refuses is always `badResponse`.
-/
namespace MqttClient

/-! ## Decoders -/

section
variable {version : Version} {packet : Packet} {fault : Fault}

open Reader (Strict)

theorem Message.read_strict (n : Negotiated) (qos : QoS) (firstByte : UInt8) :
    Strict (Message.read version n qos firstByte) := by
  refine Strict.text.bind fun topic => ?_
  extract_lets afterId
  have hafter : ∀ id, Strict (afterId id) := fun id => by
    refine .check ?_
    extract_lets afterRegion
    have hregion : ∀ properties, Strict (afterRegion properties) := fun properties =>
      Strict.rest.bind fun _ => .ite (.check (.pure _)) (.pure _)
    exact .ite (Strict.region.bind hregion) ((Strict.pure _).bind hregion)
  exact .ite (Strict.word.bind hafter) ((Strict.pure _).bind hafter)

theorem Ack.readDiagnostics_strict : Strict Ack.readDiagnostics :=
  Strict.region.bind fun _ => .ite (.pure _) .refuse

theorem Ack.read_strict (remaining : ℕ) (problemInfo : Bool) :
    Strict (Ack.read remaining problemInfo) := by
  refine Strict.word.bind fun id => .check ?_
  extract_lets afterReason
  have hafter : ∀ reason, Strict (afterReason reason) := fun reason => by
    refine .check ?_
    extract_lets afterRegion
    have hregion : ∀ properties, Strict (afterRegion properties) := fun properties =>
      Strict.done.bind fun _ => .pure _
    exact .ite (readDiagnostics_strict.bind hregion) ((Strict.pure _).bind hregion)
  exact .ite (Strict.byte.bind hafter) ((Strict.pure _).bind hafter)

theorem Suback.read_strict (kind : UInt8) : Strict (Suback.read version kind) := by
  refine Strict.word.bind fun id => ?_
  extract_lets wantsCodes afterRegion
  have hregion : ∀ properties, Strict (afterRegion properties) := fun properties =>
    Strict.rest.bind fun _ => .check (.pure _)
  refine .check ?_
  exact .ite (Ack.readDiagnostics_strict.bind hregion) ((Strict.pure _).bind hregion)

theorem Disconnect.read_strict (remaining : ℕ) : Strict (Disconnect.read remaining) := by
  have hregion : Strict Disconnect.readRegion :=
    Strict.region.bind fun _ => .ite (.pure _) .refuse
  unfold read
  extract_lets afterReason
  have hafter : ∀ reason, Strict (afterReason reason) := fun reason => by
    refine .check ?_
    extract_lets afterRegion
    have hend : ∀ properties, Strict (afterRegion properties) := fun properties =>
      Strict.done.bind fun _ => .pure _
    exact .ite (hregion.bind hend) ((Strict.pure _).bind hend)
  exact .ite (Strict.byte.bind hafter) ((Strict.pure _).bind hafter)

theorem Message.decode_error {n : Negotiated}
    (h : Message.decode version n packet = .error fault) : fault = .badResponse := by
  rw [decode] at h
  split at h
  · cases h
    rfl
  split_ifs at h
  · cases h
    rfl
  · cases h
    rfl
  · exact (read_strict n _ _).run' h

theorem Ack.decode_error {problemInfo : Bool}
    (h : Ack.decode version problemInfo packet = .error fault) : fault = .badResponse := by
  rw [decode] at h
  split_ifs at h
  · cases h
    rfl
  · exact (read_strict _ _).run' h

theorem Suback.decode_error (h : Suback.decode version packet = .error fault) :
    fault = .badResponse :=
  (read_strict _).run' h

theorem Disconnect.decode_error (h : Disconnect.decode packet = .error fault) :
    fault = .badResponse :=
  (read_strict _).run' h

/-- A variable byte integer is incomplete or malformed. -/
theorem VarInt.decode_error {b : Bytes} (h : VarInt.decode b = .error fault) :
    fault = .needMoreBytes ∨ fault = .badResponse := by
  rw [decode] at h
  generalize Pending.start = p at h
  induction b generalizing p with
  | nil =>
    cases h
    exact .inl rfl
  | cons c rest ih =>
    rw [decodeFrom] at h
    split at h
    · cases h
      exact .inr (Pending.push_error ‹_›)
    · exact ih _ h
    · cases h

/-- A header is incomplete or malformed, and missing when there are no bytes at all. -/
theorem Header.decode_error {b : Bytes} (h : Header.decode version b = .error fault) :
    fault = .noDataAvailable ∧ b = [] ∨ fault = .needMoreBytes ∨ fault = .badResponse := by
  cases b with
  | nil =>
    cases h
    exact .inl ⟨rfl, rfl⟩
  | cons first rest =>
    rw [decode] at h
    split_ifs at h
    · split at h
      · cases h
      · cases h
        exact .inr (VarInt.decode_error ‹_›)
    · cases h
      exact .inr (.inr rfl)

end

/-! ## Operations -/

/-- Every fault of an operation has a property. -/
def Act.Faults {ω α : Type} (P : Fault → Prop) (act : Act ω α) : Prop :=
  ∀ σ fault τ, act.runOn σ = some (.error fault, τ) → P fault

namespace Act.Faults
variable {ω α β : Type} {P Q : Fault → Prop} {act : Act ω α}

/-- An operation that always succeeds. -/
theorem of_ok (h : ∀ σ, ∃ a τ, act.runOn σ = some (.ok a, τ)) : Faults P act := by
  intro σ fault τ hrun
  obtain ⟨a, υ, hok⟩ := h σ
  rw [hok] at hrun
  cases hrun

theorem pure (a : α) : Faults P (Pure.pure a : Act ω α) := of_ok fun _ => ⟨_, _, rfl⟩
theorem get : Faults P (MonadState.get : Act ω (Scene ω)) := of_ok fun _ => ⟨_, _, rfl⟩
theorem session : Faults P (Act.session : Act ω Session) := of_ok fun _ => ⟨_, _, rfl⟩
theorem change (f : Session → Session) : Faults P (Act.change f : Act ω Unit) :=
  of_ok fun _ => ⟨_, _, rfl⟩
theorem host (f : ω → α × ω) : Faults P (Act.host f) := of_ok fun _ => ⟨_, _, rfl⟩
theorem hostDo (f : ω → ω) : Faults P (Act.hostDo f) := of_ok fun _ => ⟨_, _, rfl⟩

theorem throw {fault : Fault} (h : P fault) : Faults P (MonadExcept.throw fault : Act ω α) := by
  intro σ fault' τ hrun
  cases hrun
  exact h

theorem stall : Faults P (Act.stall : Act ω α) := by
  intro σ fault τ hrun
  cases hrun

theorem ofResult {result : Except Fault α} (h : ∀ fault, result = .error fault → P fault) :
    Faults P (Act.ofResult result : Act ω α) := by
  intro σ fault τ hrun
  rw [runOn_ofResult] at hrun
  cases hrun
  exact h fault rfl

theorem bind {f : α → Act ω β} (h : Faults P act) (hf : ∀ a, Faults P (f a)) :
    Faults P (act >>= f) := by
  intro σ fault τ hrun
  rcases runOn_bind_inv hrun with ⟨fault', hact, heq⟩ | ⟨a, υ, -, hrest⟩
  · cases heq
    exact h σ fault τ hact
  · exact hf a υ fault τ hrest

/-- What the host has answered is at hand. -/
theorem host_bind {g : ω → α × ω} {f : α → Act ω β} (hf : ∀ h, Faults P (f (g h).1)) :
    Faults P (Act.host g >>= f) := by
  intro σ fault τ hrun
  rw [runOn_bind_of_ok (runOn_host g σ)] at hrun
  exact hf σ.host _ fault τ hrun

/-- So is what a result says. -/
theorem ofResult_bind {result : Except Fault α} {f : α → Act ω β}
    (h : ∀ fault, result = .error fault → P fault) (hf : ∀ a, result = .ok a → Faults P (f a)) :
    Faults P (Act.ofResult result >>= f) := by
  cases result with
  | error fault => exact throw (h fault rfl)
  | ok a => exact hf a rfl

theorem ite {c : Prop} [Decidable c] {other : Act ω α} (h : Faults P act)
    (hother : Faults P other) : Faults P (if c then act else other) := by
  split
  · exact h
  · exact hother

/-- An operation that fails at once does not go on. -/
theorem throw_bind {fault : Fault} (h : P fault) (f : α → Act ω β) :
    Faults P ((MonadExcept.throw fault : Act ω α) >>= f) := by
  intro σ fault' τ hrun
  rw [runOn_bind_of_error (runOn_throw fault σ)] at hrun
  cases hrun
  exact h

/-- A check ends the operation with its fault or lets it go on. -/
theorem check {c : Prop} [Decidable c] {fault : Fault} {f : β → Act ω α} (hfault : P fault)
    (h : Faults P act) :
    Faults P (if c then (MonadExcept.throw fault : Act ω β) >>= f else act) :=
  ite (throw_bind hfault f) h

/-- The outcome of an operation is looked at later. -/
theorem outcome_bind {f : Except Fault α → Act ω β} (h : Faults P act)
    (hf : ∀ result, (∀ fault, result = .error fault → P fault) → Faults Q (f result)) :
    Faults Q (Act.outcome act >>= f) := by
  intro σ fault τ hrun
  rcases runOn_bind_inv hrun with ⟨fault', hact, -⟩ | ⟨result, υ, hact, hrest⟩
  all_goals
    rw [runOn_outcome] at hact
    obtain ⟨⟨result', υ'⟩, hrun', heq⟩ := Option.map_eq_some_iff.mp hact
    cases heq
  refine hf result (fun fault' hresult => ?_) υ fault τ hrest
  rw [hresult] at hrun'
  exact h σ fault' υ hrun'

/-- So is the outcome of an update of the exchanges. -/
theorem track_bind [Host ω] {step : ExchangeTable → Except Fault (α × ExchangeTable)}
    {f : Except Fault α → Act ω β} (hstep : ∀ t fault, step t = .error fault → P fault)
    (hf : ∀ result, (∀ fault, result = .error fault → P fault) → Faults Q (f result)) :
    Faults Q (Act.track step >>= f) := by
  intro σ fault τ hrun
  cases hfound : step σ.session.exchanges with
  | error fault' =>
    rw [runOn_bind_of_ok (runOn_track_error hfound)] at hrun
    refine hf _ (fun fault'' heq => ?_) _ fault τ hrun
    cases heq
    exact hstep _ _ hfound
  | ok found =>
    rw [runOn_bind_of_ok (runOn_track_ok hfound)] at hrun
    exact hf (.ok found.1) (fun _ heq => by cases heq) _ fault τ hrun

theorem mono (h : Faults P act) (hPQ : ∀ fault, P fault → Q fault) : Faults Q act :=
  fun σ fault τ hrun => hPQ fault (h σ fault τ hrun)

end Act.Faults

theorem ExchangeTable.onAck_error {t : ExchangeTable} {id : UInt16} {ack : AckKind}
    {direction : Direction} {fault : Fault} (h : t.onAck id ack direction = .error fault) :
    fault = .illegalState := by
  simp only [onAck] at h
  split at h
  · cases h
    rfl
  split at h
  · cases h
    rfl
  · cases h

theorem ExchangeTable.onPublish_sent_error {t : ExchangeTable} {id : UInt16} {qos : QoS}
    {fault : Fault} (h : t.onPublish id .sent qos = .error fault) : fault = .illegalState := by
  simp only [onPublish, onPublishSent] at h
  split_ifs at h
  split at h
  · cases h
    rfl
  split_ifs at h
  cases h
  rfl

namespace Session
variable {ω : Type} [Host ω]

open Act (Faults)

/-! ## Sending -/

theorem offer_faults (n : ℕ) (start : UInt32) (left : ℕ) (spans : List Bytes) :
    Faults (· = .sendFailed) (offer n start left spans : Act ω Unit) := by
  induction n generalizing left spans with
  | zero =>
    rw [offer]
    exact .ite (.pure _) .stall
  | succ n ih =>
    rw [offer]
    refine .ite (.pure _) <| Faults.bind ?_ fun answer => ?_
    · exact (Faults.hostDo _).bind fun _ => (Faults.host _).bind fun _ =>
        (Faults.hostDo _).bind fun _ => .pure _
    · split
      · exact .throw rfl
      · exact .ite ((Faults.host _).bind fun _ => Faults.session.bind fun _ =>
          .check rfl (ih _ _)) (ih _ _)

theorem send_faults (spans : List Bytes) :
    Faults (· = .sendFailed) (send spans : Act ω Unit) :=
  (Faults.host _).bind fun _ => Faults.get.bind fun _ => (offer_faults _ _ _ _).bind fun _ =>
    (Faults.host _).bind fun _ => .check rfl <| (Faults.host _).bind fun _ => .change _

/-- What sending an acknowledgement under an identifier may fail with. -/
def ackFaults : List Fault := [.sendFailed, .illegalState]

theorem sendAck_faults {id : UInt16} (hid : id ≠ 0) (state : ExchangeState) :
    Faults (· ∈ ackFaults) (sendAck id state : Act ω Unit) := by
  refine sendAck_elim id state (.pure _) (fun hzero => absurd hzero hid) fun ack _ => ?_
  exact ((send_faults _).mono (by simp [ackFaults])).bind fun _ =>
    Faults.track_bind (fun _ _ h => by simp [ExchangeTable.onAck_error h, ackFaults])
      fun _ hresult => (Faults.ofResult hresult).bind fun _ => .pure _

/-! ## Filling -/

theorem readInto_faults (offset n : ℕ) :
    Faults (· = .recvFailed) (Act.readInto offset n : Act ω ℕ) := by
  refine (Faults.host _).bind fun answer => ?_
  split
  · exact .throw rfl
  · exact (Faults.change _).bind fun _ => .pure _

theorem fillFrom_faults (n length received : ℕ) (progress : UInt32) :
    Faults (· = .recvFailed) (fillFrom n length received progress : Act ω ℕ) := by
  induction n generalizing received progress with
  | zero =>
    rw [fillFrom]
    exact .ite (.pure _) .stall
  | succ n ih =>
    rw [fillFrom]
    exact .ite (.pure _) <| (readInto_faults _ _).bind fun _ => (Faults.host _).bind fun _ =>
      .ite (Faults.session.bind fun _ => .ite (.pure _) (ih _ _)) (ih _ _)

theorem fill_faults (length : ℕ) : Faults (· = .recvFailed) (fill length : Act ω ℕ) :=
  Faults.get.bind fun _ => (Faults.host _).bind fun _ => fillFrom_faults _ _ _ _

theorem drain_faults (n remaining : ℕ) :
    Faults (· = .recvFailed) (drain n remaining : Act ω Unit) := by
  induction n generalizing remaining with
  | zero =>
    rw [drain]
    exact .ite (.pure _) .stall
  | succ n ih =>
    rw [drain]
    exact .ite (.pure _) <| Faults.session.bind fun _ => (fill_faults _).bind fun _ =>
      .check rfl (ih _)

theorem discard_faults (remaining : ℕ) :
    Faults (· ∈ [.recvFailed, .noMemory]) (discard remaining : Act ω Unit) :=
  Faults.outcome_bind (Faults.session.bind fun _ => .check (by simp)
    ((drain_faults _ _).mono (by simp))) fun _ hresult =>
      (Faults.change _).bind fun _ => .ofResult hresult

/-! ## Handling packets -/

/-- What handling a packet may fail with. -/
def dispatchFaults : List Fault := [.noMemory, .badResponse, .sendFailed, .illegalState]

theorem openIncoming_faults (id : UInt16) (qos : QoS) :
    Faults (· = .noMemory) (openIncoming id qos : Act ω (ExchangeState × Bool)) := by
  rw [openIncoming]
  split
  · exact .pure _
  rename_i hqos
  refine Faults.track_bind (P := (· ∈ [.stateCollision, .noMemory])) ?_ fun result hresult => ?_
  · intro t fault h
    rw [ExchangeTable.onPublish_received _ id hqos, ExchangeTable.onPublishReceived_eq] at h
    split_ifs at h <;> cases h <;> simp
  · -- A collision is taken for a message that comes again.
    split
    · exact .pure _
    · exact .pure _
    · rename_i fault hcollision
      have hfault := hresult fault rfl
      simp only [List.mem_cons, List.not_mem_nil, or_false] at hfault
      exact .throw (hfault.resolve_left fun h => hcollision (h ▸ rfl))

theorem handlePublish_faults (packet : Packet) :
    Faults (· ∈ dispatchFaults) (handlePublish packet : Act ω Unit) := by
  refine Faults.session.bind fun s => .ofResult_bind
    (fun fault h => by simp [Message.decode_error h, dispatchFaults]) fun (id, m) hdecode => ?_
  dsimp only
  by_cases hqos : m.qos = .atMostOnce
  · -- An untracked message has no identifier, and is not acknowledged.
    rw [openIncoming, if_pos hqos, pure_bind, sendAck_of_none rfl]
    exact .ite ((Faults.hostDo _).bind fun _ => .pure _) (.pure _)
  · have hack : ∀ state, Faults (· ∈ dispatchFaults) (sendAck id state : Act ω Unit) :=
      fun state => (sendAck_faults (Message.id_ne_zero_of_decode hdecode
        (QoS.isTracked_of_ne_atMostOnce hqos)) state).mono
          (by simp +contextual [ackFaults, dispatchFaults])
    exact ((openIncoming_faults _ _).mono (by simp [dispatchFaults])).bind fun opened =>
      .ite ((Faults.hostDo _).bind fun _ => hack _) (hack _)

theorem settleAck_faults (id : UInt16) (ack : AckKind) (verdict : Verdict) :
    Faults (· = .illegalState) (settleAck id ack verdict : Act ω ExchangeState) :=
  .ite (Faults.track_bind (fun _ _ h => by cases h) fun _ hresult => .ofResult hresult)
    (Faults.track_bind (fun _ _ h => ExchangeTable.onAck_error h) fun _ hresult =>
      .ofResult hresult)

theorem handleAck_faults (packet : Packet) (kind : AckKind) :
    Faults (· ∈ dispatchFaults) (handleAck packet kind : Act ω Unit) := by
  refine Faults.session.bind fun s => .ofResult_bind
    (fun fault h => by simp [Ack.decode_error h, dispatchFaults]) fun ack hdecode => ?_
  split
  · exact .throw (by simp [dispatchFaults])
  · exact ((settleAck_faults _ _ _).mono (by simp [dispatchFaults])).bind fun _ =>
      (Faults.hostDo _).bind fun _ => (sendAck_faults (Ack.id_ne_zero_of_decode hdecode) _).mono
        (by simp +contextual [ackFaults, dispatchFaults])

theorem handlePingresp_faults (managed : Bool) {packet : Packet}
    (hkind : PacketType.ofFirstByte? packet.firstByte = some .pingresp) :
    Faults (· ∈ dispatchFaults) (handlePingresp managed packet : Act ω Unit) := by
  refine (Faults.ofResult fun fault h => ?_).bind fun _ => .ite (.change _) (.hostDo _)
  rw [Ping.checkResponse,
    if_neg (not_not.mpr (PacketType.ofFirstByte?_eq_pingresp_iff.mp hkind))] at h
  split_ifs at h
  cases h
  simp [dispatchFaults]

theorem handleSuback_faults (packet : Packet) :
    Faults (· ∈ dispatchFaults) (handleSuback packet : Act ω Unit) := by
  refine Faults.session.bind fun s => (Faults.ofResult fun fault h => ?_).bind fun suback => ?_
  · simp [Suback.decode_error h, dispatchFaults]
  split
  · exact .throw (by simp [dispatchFaults])
  · exact .hostDo _

theorem handleDisconnect_faults (packet : Packet) :
    Faults (· ∈ dispatchFaults) (handleDisconnect packet : Act ω Unit) := by
  refine (Faults.ofResult fun fault h => ?_).bind fun _ =>
    (Faults.hostDo _).bind fun _ => .change _
  simp [Disconnect.decode_error h, dispatchFaults]

theorem dispatch_faults (managed : Bool) (packet : Packet) :
    Faults (· ∈ dispatchFaults) (dispatch managed packet : Act ω Unit) := by
  have hbad : Faults (· ∈ dispatchFaults) (throw .badResponse : Act ω Unit) :=
    .throw (by simp [dispatchFaults])
  rw [dispatch]
  split
  · exact handlePublish_faults packet
  · exact handleAck_faults packet _
  · exact handleAck_faults packet _
  · exact handleAck_faults packet _
  · exact handleAck_faults packet _
  · exact handlePingresp_faults managed ‹_›
  · exact handleSuback_faults packet
  · exact handleSuback_faults packet
  · exact Faults.session.bind fun _ => .ite (handleDisconnect_faults packet) hbad
  · exact hbad

/-- What a look at the network buffer may fail with. -/
def bufferedFaults : List Fault := .recvFailed :: dispatchFaults

theorem handleFront_faults (managed : Bool) (header : Header) :
    Faults (· ∈ bufferedFaults) (handleFront managed header : Act ω Progress) :=
  Faults.session.bind fun _ => Faults.outcome_bind
    ((dispatch_faults managed _).mono fun _ h => List.mem_cons_of_mem _ h)
    fun _ hresult => (Faults.change _).bind fun _ => (Faults.ofResult hresult).bind fun _ =>
      (Faults.host _).bind fun _ => (Faults.change _).bind fun _ => .pure _

/-- A header is only missing where the network buffer does not hold what it is said to hold. -/
theorem handleBuffered_error {managed : Bool} {σ τ : Scene ω} {fault : Fault}
    (h : (handleBuffered managed).runOn σ = some (.error fault, τ)) :
    fault ∈ bufferedFaults ∨
      fault = .noDataAvailable ∧ σ.session.capacity < σ.session.filled := by
  rw [handleBuffered, Act.runOn_bind_of_ok (Act.runOn_session _)] at h
  split at h
  · cases h
  rename_i hfilled
  split at h
  · cases h
  · rename_i fault hpart hdecode
    cases h
    rcases Header.decode_error hdecode with ⟨rfl, hnone⟩ | rfl | rfl
    · have hempty : σ.session.buffer = [] := (List.take_eq_nil_iff.mp hnone).resolve_left hfilled
      refine .inr ⟨rfl, ?_⟩
      rw [capacity, hempty]
      exact Nat.pos_of_ne_zero hfilled
    · exact absurd rfl hpart
    · simp [bufferedFaults, dispatchFaults]
  · left
    refine Faults.ite ((discard_faults _).mono ?_ |>.bind fun _ => .pure _)
      (.ite (.pure _) (handleFront_faults _ _)) σ fault τ h
    simp [bufferedFaults, dispatchFaults]

end Session

end MqttClient
