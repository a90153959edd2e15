import MqttClient.Proofs.Faults
import MqttClient.Proofs.Logs
import MqttClient.Proofs.Untouched
import MqttClient.Proofs.Wire.Bodies

/-!
# How connecting begins

What is asked for is checked before anything is done: a request that cannot be sent is refused with
`badParameter`, and nothing has changed and no call of the host has been made. From there on comes
the approach, which writes the CONNECT and waits for its answer (`Session.handshake_inv`), and it
never fails in that way.
-/
namespace MqttClient

/-! ## Requests that are refused -/

theorem PacketSize.checked_error {remaining : ℕ} {max : UInt32} {fault : Fault}
    (h : checked remaining max = .error fault) : fault = .badParameter := by
  simp only [checked] at h
  split_ifs at h <;> cases h <;> rfl

theorem Connect.size_error {version : Version} {c : Connect} {fault : Fault}
    (h : c.size version = .error fault) : fault = .badParameter := by
  rw [size] at h
  split_ifs at h
  · exact PacketSize.checked_error h
  · cases h
    rfl

namespace Negotiated
variable {step : Negotiated → Property → Except Fault Negotiated} {malformed : Fault}

/-- If every property that is refused is refused with one fault, so is the region. -/
theorem applyRegion_error (hstep : ∀ n p fault, step n p = .error fault → fault = malformed)
    {n n' : Negotiated} {region : Bytes} {fault : Fault}
    (h : applyRegion step malformed n region = (.error fault, n')) : fault = malformed := by
  have hall : ∀ properties n fault, (applyAll step n properties).1 = some fault →
      fault = malformed := by
    intro properties
    induction properties with
    | nil => intro n fault hfault; cases hfault
    | cons p rest ih =>
      intro n fault hfault
      rw [applyAll] at hfault
      split at hfault
      · exact ih _ _ hfault
      · cases hfault
        exact hstep _ _ _ ‹_›
  simp only [applyRegion] at h
  split at h
  · rename_i happly
    cases h
    exact hall _ _ _ (congrArg Prod.fst happly)
  · rw [Prod.mk.injEq] at h
    split_ifs at h
    · cases h.1
      rfl
    · cases h.1

theorem applyConnectProperty_error {n : Negotiated} {p : Property} {fault : Fault}
    (h : n.applyConnectProperty p = .error fault) : fault = .badParameter := by
  unfold applyConnectProperty at h
  split at h <;> (try split_ifs at h) <;> cases h <;> rfl

theorem applyConnackProperty_error {n : Negotiated} {p : Property} {fault : Fault}
    (h : n.applyConnackProperty p = .error fault) : fault = .badResponse := by
  have hflag : ∀ (v : UInt8) (f : Bool → Negotiated),
      (do let b ← brokerFlag v; return f b) = .error fault → fault = .badResponse := by
    intro v f h
    simp only [brokerFlag] at h
    split_ifs at h <;> cases h
    rfl
  unfold applyConnackProperty at h
  split at h
  all_goals first
    | exact hflag _ _ h
    | split_ifs at h <;> cases h <;> rfl
    | cases h <;> rfl

end Negotiated

theorem Connack.read_strict (version : Version) : Reader.Strict (read version) := by
  have hregion : Reader.Strict (readRegion version) := by
    cases version with
    | v311 => exact .pure _
    | v5 => exact Reader.Strict.region.bind fun _ => Reader.Strict.done.bind fun _ => .pure _
  exact Reader.Strict.byte.bind fun _ => .check <| Reader.Strict.byte.bind fun _ => .check <|
    hregion.bind fun _ => .pure _

/-- A CONNACK is malformed or says no. -/
theorem Connack.decode_error {version : Version} {packet : Packet} {n : Negotiated} {fault : Fault}
    (h : (Connack.decode version packet n).1 = .error fault) :
    fault = .badResponse ∨ fault = .serverRefused := by
  rw [decode] at h
  split_ifs at h
  · cases h
    exact .inl rfl
  split at h
  · rename_i hdata
    cases h
    exact .inl ((read_strict version).run' hdata)
  split at h
  · rename_i happly
    cases h
    exact .inl (Negotiated.applyRegion_error
      (fun _ _ _ => Negotiated.applyConnackProperty_error) happly)
  · simp only [judge] at h
    split at h <;> cases h
    · exact .inr rfl
    · exact .inl rfl

theorem Connack.checkSession_error {clean present : Bool} {fault : Fault}
    (h : checkSession clean present = .error fault) : fault = .badResponse := by
  rw [checkSession] at h
  split_ifs at h
  cases h
  rfl

/-! ## Waiting for the answer -/

namespace Host
variable {ω : Type} [Host ω]

theorem readVarIntFrom_error {n : ℕ} {p : VarInt.Pending} {host host' : ω} {fault : Fault}
    (h : readVarIntFrom n p host = (.error fault, host')) : fault = .badResponse := by
  induction n generalizing p host with
  | zero =>
    cases h
    rfl
  | succ n ih =>
    rw [readVarIntFrom] at h
    split at h
    · split_ifs at h
      · split at h
        · cases h
          exact VarInt.Pending.push_error ‹_›
        · cases h
        · exact ih h
      · cases h
        rfl
    · cases h
      rfl

theorem readHeader_error {version : Version} {host : ω} {fault : Fault}
    (h : (readHeader version host).1 = .error fault) :
    fault ∈ [Fault.noDataAvailable, .recvFailed, .badResponse] := by
  rw [readHeader] at h
  split at h
  · cases h
    simp
  split_ifs at h
  · cases h
    simp
  · split at h
    · rename_i hremaining
      cases h
      simp [readVarIntFrom_error hremaining]
    · cases h
  · cases h
    simp

end Host

namespace Session
variable {ω : Type} [Host ω]

open Act (Faults)

theorem connackOverdue_faults (P : Fault → Prop) (start timeout : UInt32) (attempts : ℕ) :
    Faults P (connackOverdue start timeout attempts : Act ω Bool) :=
  .ite ((Faults.host _).bind fun _ => .pure _) (Faults.session.bind fun _ => .pure _)

theorem awaitHeader_faults (n : ℕ) (start timeout : UInt32) (attempts : ℕ) :
    Faults (· ∈ [.recvFailed, .badResponse])
      (awaitHeader n start timeout attempts : Act ω Header) := by
  induction n generalizing attempts with
  | zero => exact .stall
  | succ n ih =>
    rw [awaitHeader]
    refine Faults.session.bind fun s => .host_bind fun host => ?_
    split
    · exact .pure _
    · exact (connackOverdue_faults _ _ _ _).bind fun _ => .check (by simp) (ih _)
    · rename_i fault hwaits hfound
      -- That there is nothing yet is not passed on.
      have hfault := Host.readHeader_error hfound
      simp only [List.mem_cons, List.not_mem_nil, or_false] at hfault
      exact .throw (by simpa using hfault.resolve_left fun h => hwaits (h ▸ rfl))

/-- What waiting for CONNACK may fail with. -/
def connackFaults : List Fault := [.noMemory, .recvFailed, .badResponse, .serverRefused]

theorem receiveConnack_faults (timeout : UInt32) :
    Faults (· ∈ connackFaults) (receiveConnack timeout : Act ω Bool) := by
  have haccept : ∀ header, Faults (· ∈ connackFaults) (acceptConnack header : Act ω Bool) := by
    refine fun header => Faults.session.bind fun s => ?_
    refine (Faults.change _).bind fun _ => (Faults.ofResult fun fault h => ?_).bind fun _ =>
      (Faults.change _).bind fun _ => .pure _
    rcases Connack.decode_error h with rfl | rfl <;> simp [connackFaults]
  refine (Faults.host _).bind fun _ => Faults.get.bind fun _ =>
    ((awaitHeader_faults _ _ _ _).mono (by simp +contextual [connackFaults])).bind fun header =>
      .check (by simp [connackFaults]) <| .ite ?_ ?_
  · exact ((discard_faults _).mono (by simp +contextual [connackFaults])).bind fun _ =>
      .throw_bind (by simp [connackFaults]) _
  · exact ((fill_faults _).mono (by simp [connackFaults])).bind fun _ =>
      .check (by simp [connackFaults]) (haccept header)

/-! ## The approach -/

/-- What is asked for is sent, and the answer waited for. -/
def approach (c : Connect) (timeout : UInt32) (negotiated : Negotiated) (spans : List Bytes) :
    Act ω Bool := do
  Act.change fun s => { s.resetBuffer with negotiated }
  send spans
  let present ← receiveConnack timeout
  Act.ofResult (Connack.checkSession c.cleanSession present)
  return present

/-- What the approach may fail with. -/
def approachFaults : List Fault := .sendFailed :: connackFaults

theorem approach_faults (c : Connect) (timeout : UInt32) (negotiated : Negotiated)
    (spans : List Bytes) :
    Faults (· ∈ approachFaults) (approach c timeout negotiated spans : Act ω Bool) := by
  refine (Faults.change _).bind fun _ => ((send_faults _).mono (by simp [approachFaults])).bind
    fun _ => ((receiveConnack_faults _).mono fun _ h => List.mem_cons_of_mem _ h).bind
      fun _ => (Faults.ofResult fun fault h => ?_).bind fun _ => .pure _
  simp [Connack.checkSession_error h, connackFaults]

theorem requested_error {version : Version} {c : Connect} {fault : Fault}
    (h : requested version c = .error fault) : fault = .badParameter := by
  rw [requested] at h
  split_ifs at h
  split at h
  · cases h
  · rename_i happly
    cases h
    exact Negotiated.applyRegion_error (fun _ _ _ => Negotiated.applyConnectProperty_error) happly

variable {c : Connect} {timeout : UInt32}

/-- A request is refused before anything is done, or there is the approach with all of it. -/
theorem handshake_inv {σ τ : Scene ω} {r : Except Fault Bool}
    (h : (handshake c timeout).runOn σ = some (r, τ)) :
    r = .error .badParameter ∧ τ = σ ∨
      ∃ negotiated size spans, requested σ.session.version c = .ok negotiated ∧
        c.size σ.session.version = .ok size ∧ c.spans σ.session.version size = .ok spans ∧
        (approach c timeout negotiated spans).runOn σ = some (r, τ) := by
  rw [handshake, Act.runOn_bind_of_ok (Act.runOn_session _)] at h
  dsimp only at h
  cases hrequest : requested σ.session.version c with
  | error fault =>
    rw [hrequest] at h
    cases h
    exact .inl ⟨by rw [requested_error hrequest], rfl⟩
  | ok negotiated =>
  cases hsize : c.size σ.session.version with
  | error fault =>
    rw [hrequest, hsize] at h
    cases h
    exact .inl ⟨by rw [Connect.size_error hsize], rfl⟩
  | ok size =>
  obtain ⟨spans, hspans, -⟩ := Connect.spans_eq hsize
  simp only [hrequest, hsize, hspans, Act.ofResult, pure_bind] at h
  exact .inr ⟨negotiated, size, spans, rfl, rfl, hspans, h⟩

end Session

end MqttClient
