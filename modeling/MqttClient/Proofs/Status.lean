import MqttClient.Proofs.Delivery
import MqttClient.Proofs.KeepAlive
import MqttClient.Proofs.Untouched

/-!
# The status of a client

A client changes its status in three places only: when it has connected, when it has disconnected,
and when a DISCONNECT of the server is handled. So the status tells whether the last session that
was opened has been ended since (`run_connected_iff`). An attempt to connect that fails is none of
the three. It leaves the status as it was, also where that is the status of an earlier session.
-/
namespace MqttClient
variable {ω : Type} [Host ω] {σ τ : Scene (Watched ω)}

/-- Whether a packet is a well-formed DISCONNECT. -/
def Packet.EndsSession (p : Packet) : Prop :=
  PacketType.ofFirstByte? p.firstByte = some .disconnect ∧ ∃ d, Disconnect.decode p = .ok d

namespace Session

theorem listens_status : Listens (Same (ω := Watched ω) Session.status) :=
  listens_same fun _ _ _ _ _ _ _ _ _ => rfl

/-! ## Receiving -/

/-- Only an MQTT 5 server sends DISCONNECT. -/
theorem hasProperties_of_decode {version : Version} {b : Bytes} {header : Header}
    (hdecode : Header.decode version b = .ok header)
    (hdisconnect : PacketType.ofFirstByte? header.firstByte = some .disconnect) :
    version.hasProperties = true := by
  cases b with
  | nil => cases hdecode
  | cons first rest =>
    rw [Header.decode] at hdecode
    split at hdecode
    · rename_i harrives
      have hfirst : header.firstByte = first := by
        split at hdecode <;> cases hdecode
        rfl
      rw [mayArrive, ← hfirst, hdisconnect] at harrives
      cases version with
      | v311 => cases harrives
      | v5 => rfl
    · cases hdecode

/-- Handling a DISCONNECT that is well-formed ends the session, and one that is not leaves it. -/
theorem status_of_dispatch {managed : Bool} {packet : Packet} {r : Except Fault Unit}
    (hversion : PacketType.ofFirstByte? packet.firstByte = some .disconnect →
      σ.session.version.hasProperties = true)
    (h : (dispatch managed packet).runOn σ = some (r, τ)) :
    packet.EndsSession ∧ τ.session.status = .notConnected ∨
      ¬packet.EndsSession ∧ τ.session.status = σ.session.status := by
  by_cases hdisconnect : PacketType.ofFirstByte? packet.firstByte = some .disconnect
  · rw [dispatch, hdisconnect] at h
    simp only at h
    rw [Act.runOn_bind_of_ok (Act.runOn_session _), if_pos (hversion hdisconnect),
      handleDisconnect] at h
    cases hdecode : Disconnect.decode packet with
    | error fault =>
      rw [hdecode] at h
      cases h
      refine .inr ⟨?_, rfl⟩
      rintro ⟨-, d, hd⟩
      cases hdecode.symm.trans hd
    | ok d =>
      rw [hdecode] at h
      cases h
      exact .inl ⟨⟨hdisconnect, d, hdecode⟩, rfl⟩
  · exact .inr ⟨fun hends => hdisconnect hends.1, listens_status.answering.dispatch
      managed packet listens_status.answer (fun hends => absurd hends hdisconnect) σ r τ h⟩

/-- A call hears that the server ends the session. -/
def HearsDisconnect (managed : Bool) (σ : Scene (Watched ω)) : Prop :=
  ∃ packet υ, Dispatches managed packet σ υ ∧ packet.EndsSession

theorem status_of_receive {managed : Bool} {r : Except Fault Progress}
    (h : (receive managed).runOn σ = some (r, τ)) :
    HearsDisconnect managed σ ∧ τ.session.status = .notConnected ∨
      ¬HearsDisconnect managed σ ∧ τ.session.status = σ.session.status := by
  rw [receive_eq] at h
  rcases Act.runOn_bind_inv h with ⟨fault, harrive, -⟩ | ⟨_, υ, harrive, hbuffered⟩
  · refine .inr ⟨?_, listens_status.arrive managed σ _ τ harrive⟩
    rintro ⟨packet, υ, hdispatches, -⟩
    cases harrive.symm.trans hdispatches.arrives
  have harrived : υ.session.status = σ.session.status :=
    listens_status.arrive managed σ _ υ harrive
  have hheard : ∀ {packet}, υ.session.wholePacket? = some packet →
      (HearsDisconnect managed σ ↔ packet.EndsSession) := by
    intro packet hwhole
    refine ⟨?_, fun hends => ⟨packet, υ, ⟨harrive, hwhole⟩, hends⟩⟩
    rintro ⟨packet', υ', hdispatches, hends⟩
    cases harrive.symm.trans hdispatches.arrives
    cases hwhole.symm.trans hdispatches.whole
    exact hends
  have hunheard : υ.session.wholePacket? = none → ¬HearsDisconnect managed σ := by
    rintro hnone ⟨packet, υ', hdispatches, -⟩
    cases harrive.symm.trans hdispatches.arrives
    cases hnone.symm.trans hdispatches.whole
  cases handleBuffered_inv hbuffered with
  | waits same part =>
    cases same
    exact .inr ⟨hunheard (wholePacket?_eq_none part), harrived⟩
  | drops decodes large discards result =>
    refine .inr ⟨hunheard ?_, ?_⟩
    · rw [wholePacket?, decodes]
      exact if_neg fun hfits => Nat.not_le.mpr large hfits.1
    · exact (listens_status.discard _ υ _ τ discards).trans harrived
  | handles decodes fits whole handled =>
    obtain ⟨r', ρ, hdispatch, t, hsession⟩ := session_of_handleFront handled
    have hstatus : τ.session.status = ρ.session.status := by
      rw [hsession]
      rfl
    rw [hheard (wholePacket?_eq decodes fits whole), hstatus, ← harrived]
    exact status_of_dispatch (hasProperties_of_decode decodes) hdispatch

/-! ## Connecting -/

/-- Connecting changes the status in the end or not at all. -/
theorem status_of_connect {c : Connect} {timeout : UInt32} {r : Except Fault Bool}
    (h : (connect c timeout).runOn σ = some (r, τ)) :
    (∃ present, r = .ok present) ∧ τ.session.status = .connected ∨
      (∃ fault, r = .error fault) ∧ τ.session.status = σ.session.status := by
  rw [connect_eq] at h
  have hbegun : Act.Keeps (Same (ω := Watched ω) Session.status) (handshake c timeout) :=
    listens_status.handshake listens_status.send c timeout
  rcases Act.runOn_bind_inv h with ⟨fault, hhandshake, rfl⟩ | ⟨present, υ, hhandshake, h⟩
  · exact .inr ⟨⟨fault, rfl⟩, hbegun σ _ τ hhandshake⟩
  rcases Act.runOn_bind_inv h with ⟨fault, hresume, rfl⟩ | ⟨_, ρ, -, h⟩
  · exact .inr ⟨⟨fault, rfl⟩, (listens_status.resume present υ _ τ hresume).trans
      (hbegun σ _ υ hhandshake)⟩
  · cases h
    exact .inl ⟨⟨present, rfl⟩, rfl⟩

end Session

/-! ## Runs -/

namespace Step
variable {s : Step ω}

/-- A step opens a session. -/
def Connects (s : Step ω) : Prop :=
  ∃ c timeout present, s.call = .connect c timeout ∧ s.result = .ok (.session present)

/-- A step ends the session, whoever asks for it. -/
def Disconnects (s : Step ω) : Prop :=
  s.HangsUp ∨ ∃ managed, s.call = .receive managed ∧ Session.HearsDisconnect managed s.before

/-- What a step does to the status: it opens a session, ends one, or leaves it as it was. -/
theorem status_cases (s : Step ω) :
    s.Connects ∧ ¬s.Disconnects ∧ s.after.session.status = .connected ∨
      ¬s.Connects ∧ s.Disconnects ∧ s.after.session.status = .notConnected ∨
      ¬s.Connects ∧ ¬s.Disconnects ∧ s.after.session.status = s.before.session.status := by
  have hlistens := @Session.listens_status ω _
  by_cases hconnect : ∃ c timeout, s.call = .connect c timeout
  · obtain ⟨call, σ, r, τ, hrun⟩ := s
    obtain ⟨c, timeout, rfl⟩ := hconnect
    obtain ⟨r', hrun', rfl⟩ := Act.runOn_bind_pure_inv hrun
    rcases Session.status_of_connect hrun' with ⟨⟨present, rfl⟩, hstatus⟩ |
      ⟨⟨fault, rfl⟩, hstatus⟩ <;>
      simp [Connects, Disconnects, HangsUp, Except.map, hstatus]
  have hopens : ¬s.Connects := fun ⟨c, timeout, _, hcall, _⟩ => hconnect ⟨c, timeout, hcall⟩
  by_cases hreceive : ∃ managed, s.call = .receive managed
  · obtain ⟨managed, hcall⟩ := hreceive
    obtain ⟨r, hrun, -⟩ := s.receives hcall
    rcases Session.status_of_receive hrun with ⟨hhears, hstatus⟩ | ⟨hhears, hstatus⟩ <;>
      simp [hopens, Disconnects, HangsUp, hcall, hhears, hstatus]
  have hsilent : s.Disconnects ↔ s.HangsUp :=
    or_iff_left fun ⟨managed, hcall, _⟩ => hreceive ⟨managed, hcall⟩
  rw [hsilent]
  by_cases hends : s.HangsUp
  · rcases hangsUp_or_keeps hlistens.toOutward hends.1 with ⟨-, t, hclose⟩ | ⟨hstays, -⟩
    · exact .inr (.inl ⟨hopens, hends, by rw [hclose]; rfl⟩)
    · exact absurd hends hstays
  · exact .inr (.inr ⟨hopens, hends, keeps hlistens.toOutward hlistens.ping
      (.change fun _ => rfl) (fun c timeout hcall => hconnect ⟨c, timeout, hcall⟩)
      (fun managed hcall => hreceive ⟨managed, hcall⟩) hends⟩)

theorem connected_iff (s : Step ω) : s.after.session.status = .connected ↔
    s.Connects ∨ s.before.session.status = .connected ∧ ¬s.Disconnects := by
  rcases s.status_cases with ⟨hopens, hends, hstatus⟩ | ⟨hopens, hends, hstatus⟩ |
    ⟨hopens, hends, hstatus⟩ <;> simp [hopens, hends, hstatus]

/-- An attempt to connect that fails leaves the status. -/
theorem FailsToConnect.status_eq (h : s.FailsToConnect) :
    s.after.session.status = s.before.session.status := by
  obtain ⟨c, timeout, fault, hcall, hresult⟩ := h
  rcases s.status_cases with ⟨⟨_, _, _, _, hopens⟩, -⟩ | ⟨-, hends, -⟩ | ⟨-, -, hstatus⟩
  · cases hresult.symm.trans hopens
  · simp [Disconnects, HangsUp, hcall] at hends
  · exact hstatus

end Step

/-- The last session that was opened in these steps has not been ended in them. -/
def HoldsSession (steps : List (Step ω)) : Prop :=
  ∃ before opening since, steps = before ++ opening :: since ∧ opening.Connects ∧
    ∀ s ∈ since, ¬s.Disconnects

theorem not_holdsSession_nil : ¬HoldsSession ([] : List (Step ω)) := by
  rintro ⟨before, opening, since, hsteps, -⟩
  simp at hsteps

theorem holdsSession_append {steps : List (Step ω)} {last : Step ω} :
    HoldsSession (steps ++ [last]) ↔ last.Connects ∨ HoldsSession steps ∧ ¬last.Disconnects := by
  constructor
  · rintro ⟨before, opening, since, hsteps, hopens, hsince⟩
    rcases List.eq_nil_or_concat since with rfl | ⟨since, other, rfl⟩
    · obtain ⟨rfl, hopening⟩ := List.append_inj' hsteps rfl
      cases hopening
      exact .inl hopens
    · have hlast : steps ++ [last] = (before ++ opening :: since) ++ [other] := by
        simpa using hsteps
      obtain ⟨rfl, hother⟩ := List.append_inj' hlast rfl
      cases hother
      rw [List.concat_eq_append] at hsince
      obtain ⟨hsince, hother⟩ := List.forall_mem_append.mp hsince
      exact .inr ⟨⟨before, opening, since, rfl, hopens, hsince⟩, by simpa using hother⟩
  · rintro (hopens | ⟨⟨before, opening, since, rfl, hopens, hsince⟩, hlast⟩)
    · exact ⟨steps, last, [], rfl, hopens, by simp⟩
    · exact ⟨before, opening, since ++ [last], by simp, hopens,
        List.forall_mem_append.mpr ⟨hsince, by simpa using hlast⟩⟩

theorem connected_iff_holdsSession {earlier : List (Step ω)} {last : Step ω}
    (hrun : IsRun (earlier ++ [last]))
    (hnew : ∀ s ∈ (earlier ++ [last]).head?, s.before.session.status = .notConnected) :
    last.before.session.status = .connected ↔ HoldsSession earlier := by
  induction earlier using List.reverseRecOn generalizing last with
  | nil =>
    have hstart : last.before.session.status = .notConnected := hnew last rfl
    simp [hstart, not_holdsSession_nil]
  | append_singleton earlier previous ih =>
    obtain ⟨hearlier, -, hfollows⟩ := List.isChain_append.mp hrun
    have hbefore : last.before.session = previous.after.session :=
      hfollows previous (by simp) last rfl
    have hnew' : ∀ s ∈ (earlier ++ [previous]).head?, s.before.session.status = .notConnected := by
      intro s hs
      refine hnew s ?_
      cases earlier <;> exact hs
    rw [hbefore, previous.connected_iff, ih hearlier hnew', holdsSession_append]

/-- **What the status tells.** After any calls of a new client the status is that of a connection
just when some session has been opened by a successful attempt to connect and none of the calls
since then, of which some may be attempts that failed, has ended it: neither a disconnection by the
program nor a DISCONNECT of the server. An attempt to connect that fails leaves the status as it
was. -/
theorem run_connected_iff {earlier : List (Step ω)} {last : Step ω}
    (hrun : IsRun (earlier ++ [last]))
    (hnew : ∀ s ∈ (earlier ++ [last]).head?, ∃ capacity exchanges version settings,
      s.before.session = .create capacity exchanges version settings) :
    (last.after.session.status = .connected ↔ HoldsSession (earlier ++ [last])) ∧
      ∀ s ∈ earlier ++ [last], s.FailsToConnect →
        s.after.session.status = s.before.session.status := by
  have hstart : ∀ s ∈ (earlier ++ [last]).head?, s.before.session.status = .notConnected := by
    intro s hs
    obtain ⟨capacity, exchanges, version, settings, hcreate⟩ := hnew s hs
    rw [hcreate]
    rfl
  refine ⟨?_, fun s _ hfails => hfails.status_eq⟩
  rw [last.connected_iff, connected_iff_holdsSession hrun hstart, holdsSession_append]

/-- A connection, and an attempt to connect again that the broker refuses. -/
def refusedAnew : List (Step Scripted) :=
  stepsFrom
    { session := .create 8 (.empty 0 0) .v311 {}
      host := { host := { incoming := [0x20, 2, 0, 0, 0x20, 2, 0, 5] } } }
    [.connect { clientId := "c" } 1000, .connect { clientId := "c" } 1000]

/-- After the refusal the client still reports a connection, the one of the first attempt. -/
theorem run_connected_iff_refusedAnew :
    ∃ opened refused, refusedAnew = [opened, refused] ∧ opened.Connects ∧ refused.FailsToConnect ∧
      refused.result = .error .serverRefused ∧ refused.after.session.status = .connected ∧
      HoldsSession ([opened] ++ [refused]) := by
  have hcalls : refusedAnew.map (fun s => (s.call, s.result)) =
      [(.connect { clientId := "c" } 1000, .ok (.session false)),
        (.connect { clientId := "c" } 1000, .error .serverRefused)] := by decide +kernel
  have hstatus : refusedAnew.map (fun s => s.after.session.status) =
      [.connected, .connected] := by decide +kernel
  obtain ⟨opened, _, hsteps, hopened, hcalls⟩ := List.map_eq_cons_iff.mp hcalls
  obtain ⟨refused, _, rfl, hrefused, hcalls⟩ := List.map_eq_cons_iff.mp hcalls
  cases List.map_eq_nil_iff.mp hcalls
  simp only [Prod.mk.injEq] at hopened hrefused
  simp only [hsteps, List.map_cons, List.map_nil, List.cons.injEq] at hstatus
  have hrun : IsRun refusedAnew := isRun_stepsFrom _ _
  rw [hsteps] at hrun
  have hcreate : opened.before.session = .create 8 (.empty 0 0) .v311 {} := by
    rw [before_stepsFrom hsteps]
  have hnew : ∀ s ∈ ([opened] ++ [refused]).head?, ∃ capacity exchanges version settings,
      s.before.session = .create capacity exchanges version settings := by
    rintro s ⟨⟩
    exact ⟨8, .empty 0 0, .v311, {}, hcreate⟩
  have htells := run_connected_iff (show IsRun ([opened] ++ [refused]) from hrun) hnew
  exact ⟨opened, refused, hsteps, ⟨_, _, _, hopened⟩, ⟨_, _, _, hrefused⟩, hrefused.2,
    hstatus.2.1, htells.1.mp hstatus.2.1⟩

end MqttClient
