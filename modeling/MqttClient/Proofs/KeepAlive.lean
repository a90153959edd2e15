import MqttClient.Proofs.Faults
import MqttClient.Proofs.Inward
import MqttClient.Proofs.Untouched
import MqttClient.Proofs.Waiting

/-!
# Pings without an answer

A client that waits for a PINGRESP handles none: handling one ends the wait, and as long as the
wait lasts every PINGRESP that is read stays in the network buffer (`Step.KeepsAlive`). Whether a
call gives up depends on that buffer in no way. It gives up when it reads nothing and the answer
is overdue, and then the answer may be waiting in the buffer behind another packet
(`run_times_out`).
-/
namespace MqttClient
variable {ω : Type} {σ τ : Scene (Watched ω)}

/-! ## What calls leave alone -/

/-- The protocol stays, and the network buffer holds no more than it can. -/
structure Sound (σ τ : Scene (Watched ω)) : Prop where
  version_eq : τ.session.version = σ.session.version
  filled_le : σ.session.filled ≤ σ.session.capacity → τ.session.filled ≤ τ.session.capacity

/-- Besides, no PINGREQ is sent. One that was sent before may have been answered. -/
structure Settles (σ τ : Scene (Watched ω)) : Prop extends Sound σ τ where
  calm : τ.session.awaitsPingresp = true → σ.session.awaitsPingresp = true

/-- Besides, the received bytes stay as they are while a PINGREQ is unanswered. -/
structure Leaves (σ τ : Scene (Watched ω)) : Prop extends Settles σ τ where
  pending_eq : τ.session.awaitsPingresp = true → τ.session.pending = σ.session.pending

instance : IsPreorder (Scene (Watched ω)) Sound where
  refl _ := ⟨rfl, id⟩
  trans _ _ _ h h' := ⟨h'.version_eq.trans h.version_eq, h'.filled_le ∘ h.filled_le⟩

instance : IsPreorder (Scene (Watched ω)) Settles where
  refl σ := ⟨refl_of Sound σ, id⟩
  trans _ _ _ h h' := ⟨trans_of Sound h.toSound h'.toSound, h.calm ∘ h'.calm⟩

instance : IsPreorder (Scene (Watched ω)) Leaves where
  refl σ := ⟨refl_of Settles σ, fun _ => rfl⟩
  trans _ _ _ h h' := ⟨trans_of Settles h.toSettles h'.toSettles, fun hawaits =>
    (h'.pending_eq hawaits).trans (h.pending_eq (h'.calm hawaits))⟩

/-- A change that has nothing to do with what has been received. -/
theorem Leaves.of_eq (hversion : τ.session.version = σ.session.version)
    (hbuffer : τ.session.buffer = σ.session.buffer) (hfilled : τ.session.filled = σ.session.filled)
    (hcalm : τ.session.awaitsPingresp = true → σ.session.awaitsPingresp = true) : Leaves σ τ where
  version_eq := hversion
  filled_le := by
    rw [Session.capacity, Session.capacity, hbuffer, hfilled]
    exact id
  calm := hcalm
  pending_eq _ := by rw [Session.pending, Session.pending, hbuffer, hfilled]

/-- A change of the network buffer alone, which does not cut it. -/
theorem Settles.of_buffer (hversion : τ.session.version = σ.session.version)
    (hfilled : τ.session.filled = σ.session.filled)
    (hcapacity : σ.session.capacity ≤ τ.session.capacity)
    (hcalm : τ.session.awaitsPingresp = true → σ.session.awaitsPingresp = true) :
    Settles σ τ where
  version_eq := hversion
  filled_le h := hfilled ▸ h.trans hcapacity
  calm := hcalm

/-- A call of the host. -/
theorem Settles.of_host (σ : Scene (Watched ω)) (h : Watched ω) :
    Settles σ { σ with host := h } := .of_buffer rfl rfl (Nat.le_refl _) id

/-- Ending a session ends the wait for a PINGRESP. -/
theorem Session.close_leaves : Act.Keeps (@Leaves ω) (Act.change Session.close) :=
  .change fun _ => ⟨⟨⟨rfl, fun _ => Nat.zero_le _⟩, nofun⟩, nofun⟩

variable [Host ω]

namespace Session

theorem outward_leaves : Outward (@Leaves ω) where
  send spans σ r τ hrun := by
    obtain ⟨-, -, -, -, -, ⟨-, -, t, hsession⟩ | ⟨-, hsession⟩⟩ := send_inv hrun <;>
      exact .of_eq (by rw [hsession]) (by rw [hsession]) (by rw [hsession]) (by simp [hsession])
  track _ := .track (fun _ _ _ _ => .of_eq rfl rfl rfl id) fun _ => .of_eq rfl rfl rfl id
  report _ := .hostDo fun _ => .of_eq rfl rfl rfl id

/-- Handling a packet leaves the others alone. -/
theorem dispatch_leaves (managed : Bool) (packet : Packet) :
    Act.Keeps (@Leaves ω) (dispatch managed packet) :=
  outward_leaves.answering.dispatch managed packet (.change fun _ => .of_eq rfl rfl rfl nofun)
    fun _ => .change fun _ => .of_eq rfl rfl rfl id

/-! ## Taking bytes in -/

theorem inward_settles : Inward (@Settles ω) where
  read offset n := by
    refine .readInto (.host fun σ => .of_host σ _) fun _ =>
      .change fun σ => .of_buffer rfl rfl ?_ id
    simp only [capacity, List.length_append, List.length_take, List.length_drop]
    omega
  now := .host fun σ => .of_host σ _
  header _ := .host fun σ => .of_host σ _
  reset := .change fun _ => ⟨⟨rfl, fun _ => Nat.zero_le _⟩, id⟩
  blank n := .change fun σ => .of_buffer rfl rfl (by
    simp only [capacity, List.length_append, List.length_replicate, List.length_drop]
    omega) id
  negotiate _ := .change fun _ => ⟨⟨rfl, id⟩, id⟩

theorem connect_settles (c : Connect) (timeout : UInt32) :
    Act.Keeps (@Settles ω) (connect c timeout) := by
  rw [connect_eq]
  have hsend : ∀ spans, Act.Keeps (@Settles ω) (send spans) := fun spans =>
    (outward_leaves.send spans).mono fun _ _ h => h.toSettles
  refine (inward_settles.handshake hsend c timeout).bind fun present =>
    ((outward_leaves.resume present).mono fun _ _ h => h.toSettles).bind fun _ =>
      Act.Keeps.bind ?_ fun _ => .pure _
  exact (Act.Keeps.change fun _ => ⟨⟨rfl, id⟩, nofun⟩).bind fun _ =>
    (Act.Keeps.host fun σ => .of_host σ _).bind fun _ => .change fun _ => ⟨⟨rfl, id⟩, id⟩

/-- A new connection has no ping unanswered. -/
theorem awaitsPingresp_of_connect {c : Connect} {timeout : UInt32} {present : Bool}
    (h : (connect c timeout).runOn σ = some (.ok present, τ)) :
    τ.session.awaitsPingresp = false := by
  rw [connect_eq] at h
  rcases Act.runOn_bind_inv h with ⟨_, -, hr⟩ | ⟨present', υ, -, h⟩
  · cases hr
  rcases Act.runOn_bind_inv h with ⟨_, -, hr⟩ | ⟨_, υ, -, h⟩
  · cases hr
  cases h
  rfl

/-! ## Looking at the network buffer -/

theorem capacity_consume (s : Session) (n : ℕ) : (s.consume n).capacity = s.capacity := by
  simp only [capacity, consume, List.length_append, List.length_drop, List.length_take]
  omega

omit [Host ω] in
theorem consume_settles (n : ℕ) : Act.Keeps (@Settles ω) (Act.change (consume n)) :=
  .change fun σ => ⟨⟨rfl, fun h => by
    rw [capacity_consume]
    exact (Nat.sub_le _ _).trans h⟩, id⟩

theorem handleBuffered_settles (managed : Bool) :
    Act.Keeps (@Settles ω) (handleBuffered managed) :=
  handleBuffered_keeps
    (fun packet => (dispatch_leaves managed packet).mono fun _ _ h => h.toSettles)
    consume_settles (fun _ => .change fun _ => ⟨⟨rfl, id⟩, id⟩) inward_settles

end Session

/-! ## PINGRESPs that wait -/

/-- Whether a packet is a well-formed PINGRESP. -/
def Packet.IsPingresp (p : Packet) : Prop := Ping.checkResponse p = .ok ()

instance : DecidablePred Packet.IsPingresp := fun p =>
  inferInstanceAs (Decidable (Ping.checkResponse p = .ok ()))

/-- The PINGRESPs in the network buffer that are still to handle. -/
def Session.pingresps (s : Session) : List Packet := s.waiting.filter (·.IsPingresp)

theorem Packet.IsPingresp.ofFirstByte? {p : Packet} (h : p.IsPingresp) :
    PacketType.ofFirstByte? p.firstByte = some .pingresp := by
  rw [IsPingresp, Ping.checkResponse] at h
  split at h
  · cases h
  · exact PacketType.ofFirstByte?_eq_pingresp_iff.mpr (not_not.mp ‹_›)

namespace Session
variable {r : Except Fault Progress}

/-- A PINGRESP that is handled under managed keep-alive ends the wait for it. -/
theorem awaitsPingresp_of_dispatch {packet : Packet} {r : Except Fault Unit}
    (hpacket : packet.IsPingresp) (h : (dispatch true packet).runOn σ = some (r, τ)) :
    τ.session.awaitsPingresp = false := by
  rw [dispatch, hpacket.ofFirstByte?] at h
  simp only [handlePingresp] at h
  rw [show Ping.checkResponse packet = .ok () from hpacket] at h
  cases h
  rfl

theorem filled_of_discard {n : ℕ} {r : Except Fault Unit}
    (h : (discard n).runOn σ = some (r, τ)) : τ.session.filled = 0 := by
  rcases Act.runOn_bind_inv h with ⟨_, houtcome, -⟩ | ⟨result, υ, -, h⟩
  · rw [Act.runOn_outcome] at houtcome
    obtain ⟨_, -, heq⟩ := Option.map_eq_some_iff.mp houtcome
    cases heq
  · rw [Act.runOn_bind_of_ok (Act.runOn_change _ _), Act.runOn_ofResult] at h
    cases h
    rfl

/-- Handling the packet at the front leaves those behind it. -/
theorem waiting_of_dispatch {managed : Bool} {header : Header} {r : Except Fault Unit}
    (hfilled : σ.session.filled ≤ σ.session.capacity)
    (hdecode : Header.decode σ.session.version σ.session.pending = .ok header)
    (hwhole : header.total ≤ σ.session.filled)
    (h : (dispatch managed (σ.session.frontPacket header)).runOn σ = some (r, τ))
    (hawaits : τ.session.awaitsPingresp = true) :
    σ.session.waiting =
      σ.session.frontPacket header :: (τ.session.consume header.total).waiting := by
  have hleaves := dispatch_leaves managed _ σ r τ h
  have hpending := hleaves.pending_eq hawaits
  have hfilled' := hleaves.filled_le hfilled
  have hlength := length_pending hfilled'
  rw [hpending, length_pending hfilled] at hlength
  rw [waiting_consume hfilled hdecode hwhole, waiting, waiting,
    (pending_consume hfilled hwhole).1, (pending_consume hfilled' (hlength ▸ hwhole)).1, hpending]
  change _ :: packetsIn σ.session.version _ = _ :: packetsIn τ.session.version _
  rw [hleaves.version_eq]

/-- A look at the network buffer handles no PINGRESP without ending the wait for it. -/
theorem pingresps_of_handleBuffered (hfilled : σ.session.filled ≤ σ.session.capacity)
    (h : (handleBuffered true).runOn σ = some (r, τ)) (hawaits : τ.session.awaitsPingresp = true) :
    τ.session.pingresps = σ.session.pingresps := by
  cases handleBuffered_inv h with
  | waits same part => rw [same]
  | @drops header _ decodes large discards =>
    -- A packet too large has no whole packet behind it.
    have hnone : σ.session.pingresps = [] := by
      rw [pingresps, waiting, packetsIn_part, List.filter_nil]
      intro header' hdecode'
      cases decodes.symm.trans hdecode'
      rw [length_pending hfilled]
      omega
    rw [hnone, pingresps, waiting, pending, filled_of_discard discards]
    rfl
  | @handles header decodes fits whole handled =>
    obtain ⟨r', υ, hdispatch, t, hsession⟩ := session_of_handleFront handled
    have hwaiting : τ.session.waiting = (υ.session.consume header.total).waiting := by
      rw [hsession]
      rfl
    rw [hsession] at hawaits
    have hother : ¬(σ.session.frontPacket header).IsPingresp := fun hpingresp => by
      cases hawaits.symm.trans (awaitsPingresp_of_dispatch hpingresp hdispatch)
    rw [pingresps, pingresps, hwaiting, waiting_of_dispatch hfilled decodes whole hdispatch hawaits,
      List.filter_cons_of_neg (by simpa using hother)]

/-! ## Giving up -/

/-- From one scene to the other a PINGREQ has been sent and nothing else written. -/
def HasPinged (σ τ : Scene (Watched ω)) : Prop :=
  ∃ calls, τ.host.calls = calls ++ σ.host.calls ∧ written calls = Ping.request

omit [Host ω] in
theorem WritesPing.hasPinged (h : WritesPing Ping.request.length σ τ) : HasPinged σ τ := by
  obtain ⟨calls, hcalls, -, hwritten⟩ := h
  exact ⟨calls, hcalls, by rw [hwritten, List.take_length]⟩

/-- Keep-alive is what times out. Whatever waits in the network buffer has no say in it. -/
theorem receive_times_out_iff (h : (receive true).runOn σ = some (r, τ)) :
    r = .error .keepAliveTimeout ↔ GivesUp σ := by
  rw [receive_eq] at h
  rcases Act.runOn_bind_inv h with ⟨fault, harrive, rfl⟩ | ⟨_, υ, harrive, hbuffered⟩
  · obtain ⟨hgives, -⟩ := arrive_inv harrive
    simpa using hgives
  · obtain ⟨hgives, -⟩ := arrive_inv harrive
    refine iff_of_false ?_ fun hgivesUp => ?_
    · rintro rfl
      rcases handleBuffered_error hbuffered with hfault | ⟨⟨⟩, -⟩
      simp [bufferedFaults, dispatchFaults] at hfault
    · cases hgives.mpr ⟨rfl, hgivesUp⟩

/-- A read leaves the protocol, and what it brings fits. -/
theorem fetch_settles (σ : Scene (Watched ω)) : Settles σ (fetch σ) where
  version_eq := version_afterRead ..
  filled_le hfilled := (capacity_afterRead hfilled _).2
  calm h := (awaitsPingresp_afterRead ..).symm.trans h

/-- What a call does to the wait for a PINGRESP and to the PINGRESPs that wait. -/
theorem receive_inv (h : (receive true).runOn σ = some (r, τ)) :
    Sound σ τ ∧
      (τ.session.awaitsPingresp = true → σ.session.awaitsPingresp = true ∨
        ∃ υ, (arrive true).runOn σ = some (.ok (), υ) ∧ HasPinged σ υ) ∧
      (σ.session.filled ≤ σ.session.capacity → τ.session.awaitsPingresp = true →
        τ.session.pingresps = (fetch σ).session.pingresps) := by
  have hfetch := fetch_settles σ
  rw [receive_eq] at h
  rcases Act.runOn_bind_inv h with ⟨fault, harrive, -⟩ | ⟨_, υ, harrive, hbuffered⟩
  · obtain ⟨-, k, -, hsession | ⟨-, hr, -⟩⟩ := arrive_inv harrive
    · refine ⟨⟨?_, ?_⟩, ?_, ?_⟩ <;> rw [hsession]
      · exact hfetch.version_eq
      · exact hfetch.filled_le
      · exact fun hawaits => .inl (hfetch.calm hawaits)
      · exact fun _ _ => rfl
    · cases hr
  have hlater := handleBuffered_settles true υ _ τ hbuffered
  have harrived : Sound σ υ ∧ (υ.session.awaitsPingresp = true →
      σ.session.awaitsPingresp = true ∨ HasPinged σ υ) ∧
        υ.session.pingresps = (fetch σ).session.pingresps := by
    obtain ⟨-, k, hwrites, hsession | ⟨-, -, rfl, t, hsession⟩⟩ := arrive_inv harrive
    · refine ⟨⟨?_, ?_⟩, ?_, ?_⟩ <;> rw [hsession]
      · exact hfetch.version_eq
      · exact hfetch.filled_le
      · exact fun hawaits => .inl (hfetch.calm hawaits)
    · refine ⟨⟨?_, ?_⟩, fun _ => .inr hwrites.hasPinged, ?_⟩ <;> rw [hsession]
      · exact hfetch.version_eq
      · exact hfetch.filled_le
      · rfl
  obtain ⟨hsound, hpings, hwaiting⟩ := harrived
  refine ⟨trans_of Sound hsound hlater.toSound, fun hawaits => ?_, fun hfilled hawaits => ?_⟩
  · exact (hpings (hlater.calm hawaits)).imp_right fun hpinged => ⟨υ, harrive, hpinged⟩
  · rw [← hwaiting]
    exact pingresps_of_handleBuffered (hsound.filled_le hfilled) hbuffered hawaits

end Session

/-! ## Runs -/

/-- Every call but one to connect, to ping or to receive. -/
theorem Call.perform_leaves (call : Call) (hconnect : ∀ c timeout, call ≠ .connect c timeout)
    (hping : call ≠ .ping) (hreceive : ∀ managed, call ≠ .receive managed) :
    Act.Keeps (@Leaves ω) call.perform :=
  call.perform_keeps Session.outward_leaves
    (fun c timeout hcall => absurd hcall (hconnect c timeout)) (fun _ => Session.close_leaves)
    (fun hcall => absurd hcall hping)
    (.change fun _ => .of_eq rfl rfl rfl id) fun managed hcall => absurd hcall (hreceive managed)

namespace Step

/-- A step sends a PINGREQ and waits for the answer. -/
inductive Pings (s : Step ω) : Prop where
  /-- The program asks for it. -/
  | asked (call : s.call = .ping) (done : s.result = .ok .done)
      (sent : Session.HasPinged s.before s.after)
  /-- Keep-alive asks for it. -/
  | due {υ : Scene (Watched ω)} (call : s.call = .receive true)
      (arrives : (Session.arrive true).runOn s.before = some (.ok (), υ))
      (sent : Session.HasPinged s.before υ)

/-- A connection that does not come about. -/
def FailsToConnect (s : Step ω) : Prop :=
  ∃ c timeout fault, s.call = .connect c timeout ∧ s.result = .error fault

/-- The packets of which a step that receives reads the last byte. -/
def taken (s : Step ω) : List Packet :=
  match s.call with
  | .receive _ => (Session.fetch s.before).session.waiting.drop s.before.session.waiting.length
  | _ => []

/-- A step that receives ends as receiving ends. -/
theorem receives {s : Step ω} {managed : Bool} (h : s.call = .receive managed) :
    ∃ r, (Session.receive managed).runOn s.before = some (r, s.after) ∧
      ∀ fault, s.result = .error fault ↔ r = .error fault := by
  obtain ⟨call, σ, r, τ, hrun⟩ := s
  cases h
  rcases Act.runOn_bind_inv hrun with ⟨fault, hreceive, rfl⟩ | ⟨p, υ, hreceive, hrest⟩
  · exact ⟨_, hreceive, fun fault' => by simp⟩
  · cases hrest
    exact ⟨_, hreceive, fun fault' => by simp⟩

/-- What a step does to the wait for a PINGRESP and to the PINGRESPs that wait. -/
structure KeepsAlive (s : Step ω) : Prop extends Sound s.before s.after where
  pings : s.after.session.awaitsPingresp = true →
    s.before.session.awaitsPingresp = true ∨ s.Pings
  /-- While a ping is unanswered every PINGRESP that is read stays. -/
  pingresps_eq : s.before.session.filled ≤ s.before.session.capacity →
    s.after.session.awaitsPingresp = true → ¬s.FailsToConnect →
    s.after.session.pingresps = s.before.session.pingresps ++ s.taken.filter (·.IsPingresp)

theorem keepsAlive_of_leaves {s : Step ω} (h : Leaves s.before s.after) (htaken : s.taken = []) :
    s.KeepsAlive where
  toSound := h.toSound
  pings hawaits := .inl (h.calm hawaits)
  pingresps_eq _ hawaits _ := by
    rw [htaken, List.filter_nil, List.append_nil, Session.pingresps, Session.waiting,
      h.pending_eq hawaits, h.version_eq]
    rfl

/-- The program leaves keep-alive to its client. -/
theorem keepsAlive (s : Step ω) (hmanaged : s.call ≠ .receive false) : s.KeepsAlive := by
  obtain ⟨call, σ, r, τ, hrun⟩ := s
  cases call with
  | connect c timeout =>
    have hconnect : ∃ r', (Session.connect c timeout).runOn σ = some (r', τ) ∧
        (∀ fault, r' = .error fault → r = .error fault) := by
      rcases Act.runOn_bind_inv hrun with ⟨fault, hconnect, rfl⟩ | ⟨present, υ, hconnect, hrest⟩
      · exact ⟨_, hconnect, by rintro _ ⟨⟩; rfl⟩
      · cases hrest
        exact ⟨_, hconnect, by rintro _ ⟨⟩⟩
    obtain ⟨r', hconnect, hr⟩ := hconnect
    have hsettles := Session.connect_settles c timeout σ r' τ hconnect
    refine ⟨hsettles.toSound, fun hawaits => .inl (hsettles.calm hawaits), ?_⟩
    intro _ hawaits hconnects
    cases r' with
    | error fault => exact absurd ⟨c, timeout, fault, rfl, hr fault rfl⟩ hconnects
    | ok present =>
      rw [Session.awaitsPingresp_of_connect hconnect] at hawaits
      cases hawaits
  | ping =>
    rcases Act.runOn_bind_inv hrun with ⟨fault, hping, rfl⟩ | ⟨_, υ, hping, hrest⟩
    · obtain ⟨k, -, ⟨hr, -⟩ | ⟨-, hsession⟩⟩ := Session.ping_inv hping
      · cases hr
      · exact keepsAlive_of_leaves (.of_eq (by rw [hsession]) (by rw [hsession])
          (by rw [hsession]) (by simp [hsession])) rfl
    · cases hrest
      obtain ⟨k, hwrites, ⟨-, rfl, t, hsession⟩ | ⟨hr, -⟩⟩ := Session.ping_inv hping
      · refine ⟨⟨?_, ?_⟩, fun _ => .inr (.asked rfl rfl hwrites.hasPinged), fun _ _ _ => ?_⟩ <;>
          rw [hsession]
        · rfl
        · exact id
        · exact (List.append_nil _).symm
      · cases hr
  | receive managed =>
    cases managed with
    | false => exact absurd rfl hmanaged
    | true =>
      obtain ⟨r', hreceive, -⟩ := receives (s := ⟨.receive true, σ, r, τ, hrun⟩) rfl
      obtain ⟨hsound, hpings, hwaiting⟩ := Session.receive_inv hreceive
      refine ⟨hsound, fun hawaits => ?_, fun hfilled hawaits _ => ?_⟩
      · refine (hpings hawaits).imp_right ?_
        rintro ⟨υ, harrives, hsent⟩
        exact .due rfl harrives hsent
      · obtain ⟨more, hmore⟩ := Session.waiting_afterRead hfilled (Session.firstAnswer σ).1
        change _ = _ ++ ((Session.fetch σ).session.waiting.drop σ.session.waiting.length).filter _
        have hfetched : (Session.fetch σ).session.waiting = σ.session.waiting ++ more := hmore.symm
        rw [hwaiting hfilled hawaits, Session.pingresps, hfetched, List.filter_append,
          List.drop_left]
        rfl
  | _ =>
    refine keepsAlive_of_leaves (Call.perform_leaves _ ?_ ?_ ?_ σ r τ hrun) rfl <;> simp

end Step

/-- The steps after a PINGREQ: no other one is sent in them, and the PINGRESPs that wait in the
end are those that waited in the beginning and those that were read since. -/
structure Unanswered (start : Session) (steps : List (Step ω)) (last : Session) : Prop where
  silent : ∀ s ∈ steps, ¬s.Pings
  pingresps_eq : (∀ s ∈ steps, ¬s.FailsToConnect) →
    last.pingresps = start.pingresps ++ (steps.flatMap Step.taken).filter (·.IsPingresp)

/-- A client that waits for a PINGRESP has sent a PINGREQ, or has been waiting from the start. -/
theorem unanswered_of_isRun {steps : List (Step ω)} {last : Step ω}
    (hrun : IsRun (steps ++ [last])) (hmanaged : ∀ s ∈ steps, s.call ≠ .receive false)
    (hfilled : ∀ s ∈ (steps ++ [last]).head?,
      s.before.session.filled ≤ s.before.session.capacity)
    (hawaits : last.before.session.awaitsPingresp = true) :
    (∃ earlier pinging between, steps = earlier ++ pinging :: between ∧ pinging.Pings ∧
        Unanswered pinging.after.session between last.before.session) ∨
      ∀ s ∈ (steps ++ [last]).head?, s.before.session.awaitsPingresp = true ∧
        Unanswered s.before.session steps last.before.session := by
  -- From the front: either the rest of the run holds the last PINGREQ, or it waits from its start,
  -- and then the first step is the one that sent it or has waited already.
  induction steps with
  | nil =>
    right
    rintro s ⟨⟩
    exact ⟨hawaits, by simp, fun _ => by simp⟩
  | cons first rest ih =>
    have hkeeps := first.keepsAlive (hmanaged first (by simp))
    have hbound : first.before.session.filled ≤ first.before.session.capacity :=
      hfilled first (by simp)
    obtain ⟨next, hnext⟩ : ∃ next, (rest ++ [last]).head? = some next := by
      cases rest <;> exact ⟨_, rfl⟩
    have hchain : Step.Follows first next ∧ IsRun (rest ++ [last]) := by
      have hhead := List.isChain_cons.mp hrun
      exact ⟨hhead.1 next hnext, hhead.2⟩
    obtain ⟨hfollows, hrest⟩ := hchain
    have hbound' : ∀ s ∈ (rest ++ [last]).head?,
        s.before.session.filled ≤ s.before.session.capacity := by
      intro s hs
      rw [hnext] at hs
      cases hs
      rw [hfollows]
      exact hkeeps.filled_le hbound
    rcases ih hrest (fun s hs => hmanaged s (List.mem_cons_of_mem _ hs)) hbound' with
      ⟨earlier, pinging, between, rfl, hpings, hunanswered⟩ | hwaits
    · exact .inl ⟨first :: earlier, pinging, between, rfl, hpings, hunanswered⟩
    · obtain ⟨hnextAwaits, hunanswered⟩ := hwaits next (by simp [hnext])
      rw [hfollows] at hnextAwaits hunanswered
      by_cases hpings : first.Pings
      · exact .inl ⟨[], first, rest, rfl, hpings, hunanswered⟩
      · right
        rintro s ⟨⟩
        refine ⟨(hkeeps.pings hnextAwaits).resolve_right hpings, ?_, fun hconnects => ?_⟩
        · exact List.forall_mem_cons.mpr ⟨hpings, hunanswered.silent⟩
        · obtain ⟨hfirst, hothers⟩ := List.forall_mem_cons.mp hconnects
          rw [hunanswered.pingresps_eq hothers, hkeeps.pingresps_eq hbound hnextAwaits hfirst,
            List.flatMap_cons, List.filter_append, List.append_assoc]

/-- **When keep-alive gives up.** A new client that sees to keep-alive times out in a call just when
the call finds nothing to read and the answer to a ping is overdue. Then it has sent a PINGREQ
before, and since the last one it has handled no PINGRESP: unless it failed to connect in between,
every PINGRESP that it has read since then still waits in the network buffer. But such a PINGRESP
does not keep it from giving up. -/
theorem run_times_out {steps earlier later : List (Step ω)} {last : Step ω} (hrun : IsRun steps)
    (hnew : ∀ s ∈ steps.head?, ∃ capacity exchanges version settings,
      s.before.session = .create capacity exchanges version settings)
    (hmanaged : ∀ s ∈ steps, s.call ≠ .receive false)
    (hsteps : steps = earlier ++ last :: later) (hcall : last.call = .receive true) :
    (last.result = .error .keepAliveTimeout ↔ Session.GivesUp last.before) ∧
      (last.result = .error .keepAliveTimeout →
        ∃ before pinging since, earlier = before ++ pinging :: since ∧ pinging.Pings ∧
          Unanswered pinging.after.session since last.before.session) := by
  obtain ⟨r, hreceive, hresult⟩ := last.receives hcall
  have hgives := (hresult _).trans (Session.receive_times_out_iff hreceive)
  refine ⟨hgives, fun htimeout => ?_⟩
  have hpart : IsRun (earlier ++ [last]) := hrun.infix ⟨[], later, by simp [hsteps]⟩
  have hstart : ∀ s ∈ (earlier ++ [last]).head?, ∃ capacity exchanges version settings,
      s.before.session = .create capacity exchanges version settings := by
    intro s hs
    refine hnew s ?_
    rw [hsteps]
    cases earlier <;> exact hs
  have hfilled : ∀ s ∈ (earlier ++ [last]).head?,
      s.before.session.filled ≤ s.before.session.capacity := by
    intro s hs
    obtain ⟨capacity, exchanges, version, settings, hcreate⟩ := hstart s hs
    rw [hcreate]
    exact Nat.zero_le _
  refine (unanswered_of_isRun hpart (fun s hs => hmanaged s (hsteps ▸ List.mem_append_left _ hs))
    hfilled (hgives.mp htimeout).overdue.1).resolve_right fun hwaits => ?_
  -- A new client does not wait for a PINGRESP.
  obtain ⟨first, hfirst⟩ : ∃ first, (earlier ++ [last]).head? = some first := by
    cases earlier <;> exact ⟨_, rfl⟩
  obtain ⟨capacity, exchanges, version, settings, hcreate⟩ := hstart first hfirst
  have hawaits := (hwaits first hfirst).1
  rw [hcreate] at hawaits
  cases hawaits

/-- A ping whose answer is read together with a message before it, and a call that comes late. -/
def answeredBehind : List (Step Scripted) :=
  stepsFrom
    { session := .create 8 (.empty 0 0) .v311 {}
      host := { host := { incoming := [0x30, 3, 0, 1, 97, 0xD0, 0], ticks := [1, 1, 1, 6000] } } }
    [.ping, .receive true, .receive true]

/-- The answer waits in the network buffer, and the late call gives up all the same. -/
theorem run_times_out_answeredBehind :
    ∃ asked message late, answeredBehind = [asked, message, late] ∧
      message.taken.filter (·.IsPingresp) = [⟨⟨0xD0, 0, 2⟩, []⟩] ∧
      late.before.session.pingresps = [⟨⟨0xD0, 0, 2⟩, []⟩] ∧
      late.result = .error .keepAliveTimeout ∧ Session.GivesUp late.before ∧
      ∃ before pinging since, [asked, message] = before ++ pinging :: since ∧ pinging.Pings ∧
        Unanswered pinging.after.session since late.before.session := by
  have hcalls : answeredBehind.map (fun s => (s.call, s.result)) =
      [(.ping, .ok .done), (.receive true, .ok (.progress (.packet 0x30))),
        (.receive true, .error .keepAliveTimeout)] := by decide +kernel
  have hpackets : answeredBehind.map (fun s => (s.taken.filter (·.IsPingresp),
      s.before.session.pingresps)) =
      [([], []), ([⟨⟨0xD0, 0, 2⟩, []⟩], []), ([], [⟨⟨0xD0, 0, 2⟩, []⟩])] := by decide +kernel
  have hcreate : ∀ s ∈ answeredBehind.head?,
      s.before.session = .create 8 (.empty 0 0) .v311 {} := by
    rintro s ⟨⟩
    rfl
  obtain ⟨asked, _, hsteps, hasked, hcalls⟩ := List.map_eq_cons_iff.mp hcalls
  obtain ⟨message, _, rfl, hmessage, hcalls⟩ := List.map_eq_cons_iff.mp hcalls
  obtain ⟨late, _, rfl, hlate, hcalls⟩ := List.map_eq_cons_iff.mp hcalls
  cases List.map_eq_nil_iff.mp hcalls
  simp only [Prod.mk.injEq] at hasked hmessage hlate
  have hrun : IsRun answeredBehind := isRun_stepsFrom _ _
  have hmanaged : ∀ s ∈ answeredBehind, s.call ≠ .receive false := by
    rw [hsteps]
    simp [hasked.1, hmessage.1, hlate.1]
  have htimes := run_times_out hrun (fun s hs => ⟨8, .empty 0 0, .v311, {}, hcreate s hs⟩)
    hmanaged (show answeredBehind = [asked, message] ++ late :: [] from hsteps) hlate.1
  simp only [hsteps, List.map_cons, List.map_nil, List.cons.injEq, Prod.mk.injEq] at hpackets
  exact ⟨asked, message, late, hsteps, hpackets.2.1.1, hpackets.2.2.1.2, hlate.2,
    htimes.1.mp hlate.2, htimes.2 hlate.2⟩

end MqttClient
