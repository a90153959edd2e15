import MqttClient.Proofs.Exchange.Records
import MqttClient.Proofs.Sending
import MqttClient.Session.Publishing
import MqttClient.Session.Receiving

/-!
# What publishing does

A tracked message is laid out, its exchange is opened (`ExchangeTable.openFor`), its packet is
sent, and then the table is told. Only a repeated attempt can reach the last step with a table
that refuses it, because the exchange under its identifier has moved on or is one of another
guarantee (`ExchangeTable.Refuses`); its packet has gone out by then.
-/
namespace MqttClient

/-- A packet is never empty. -/
theorem Message.flatten_ne_nil {version : Version} {m : Message} {id : UInt16} {size : PacketSize}
    {spans : List Bytes} (h : m.spans version id size = .ok spans) : spans.flatten ≠ [] := by
  rw [Message.spans] at h
  split at h
  · cases h
  · obtain ⟨count, -, h⟩ := bind_eq_ok.mp h
    dsimp only at h
    split at h
    all_goals
      obtain ⟨regionLength, -, h⟩ := bind_eq_ok.mp h
      cases h
      exact List.cons_ne_nil _ _

namespace ExchangeTable
variable {t t' : ExchangeTable} {m : Message} {id : UInt16}

/-- The table with which a message is sent. A repeated attempt may find its exchange open. -/
def openFor (t : ExchangeTable) (m : Message) (id : UInt16) : Except Fault ExchangeTable :=
  match t.reserve id m.qos with
  | .ok t' => .ok t'
  | .error fault => if fault = .stateCollision ∧ m.dup then .ok t else .error fault

/-- The exchange under an identifier is not one in which a message with this guarantee may be
sent. -/
def Refuses (t : ExchangeTable) (id : UInt16) (qos : QoS) : Prop :=
  ∃ r, Record.find? id t.outgoing = some r ∧ ¬(r.qos = qos ∧ r.state.canPublish = true)

/-- An exchange is opened where there is none. A repeated attempt goes on with the one there is. -/
theorem openFor_inv (h : t.openFor m id = .ok t') :
    t.reserve id m.qos = .ok t' ∨
      m.dup = true ∧ t' = t ∧ ∃ r, Record.find? id t.outgoing = some r := by
  rw [openFor] at h
  split at h
  · rename_i hreserve
    cases h
    exact .inl hreserve
  · rename_i fault hreserve
    split_ifs at h with hdup
    cases h
    obtain ⟨rfl, hdup⟩ := hdup
    exact .inr ⟨hdup, rfl, reserve_collision hreserve⟩

/-- A repeated attempt always goes on with the exchange there is. -/
theorem openFor_of_refuses (hid : id ≠ 0) (hm : m.qos.isTracked = true) (hdup : m.dup = true)
    (h : t.Refuses id m.qos) : t.openFor m id = .ok t := by
  obtain ⟨r, hfound, -⟩ := h
  have hreserve : t.reserve id m.qos = .error .stateCollision := by
    simp [reserve_eq, hid, QoS.ne_atMostOnce_of_isTracked hm, hfound]
  simp [openFor, hreserve, hdup]

/-- After a message has been sent, the table refuses to be told so only in a repeated attempt. -/
theorem onPublish_of_openFor (h : t.openFor m id = .ok t') (hm : m.qos.isTracked = true) :
    ¬t.Refuses id m.qos ∧ (∃ state t'', t'.onPublish id .sent m.qos = .ok (state, t'')) ∨
      t.Refuses id m.qos ∧ m.dup = true ∧ t' = t ∧
        t'.onPublish id .sent m.qos = .error .illegalState := by
  rw [onPublish_sent t' id (QoS.ne_atMostOnce_of_isTracked hm)]
  rcases openFor_inv h with hreserve | ⟨hdup, rfl, r, hfound⟩
  · obtain ⟨-, -, hnone, -, rfl⟩ := reserve_inv hreserve
    left
    refine ⟨?_, _, _, onPublishSent_eq (Record.find?_append_self hnone rfl) rfl rfl⟩
    rintro ⟨r, hfound, -⟩
    rw [hnone] at hfound
    cases hfound
  · by_cases hallowed : r.qos = m.qos ∧ r.state.canPublish = true
    · left
      refine ⟨?_, _, _, onPublishSent_eq hfound hallowed.1 hallowed.2⟩
      rintro ⟨r', hfound', hrefused⟩
      cases hfound.symm.trans hfound'
      exact hrefused hallowed
    · right
      refine ⟨⟨r, hfound, hallowed⟩, hdup, rfl, ?_⟩
      simp only [onPublishSent, hfound, if_neg hallowed]

end ExchangeTable

namespace Session
variable {ω : Type} [Host ω] {m : Message} {id : UInt16}

/-- The packet of a message that passes all checks but those of its exchange. -/
def layOut (s : Session) (m : Message) (id : UInt16) : Except Fault (List Bytes) := do
  if !s.mayPublish m id then throw .badParameter
  let size ← m.size s.version s.negotiated.serverMaxPacketSize
  m.spans s.version id size

theorem flatten_ne_nil_of_layOut {s : Session} {spans : List Bytes}
    (h : s.layOut m id = .ok spans) : spans.flatten ≠ [] := by
  rw [layOut] at h
  split at h
  · cases h
  · obtain ⟨size, -, h⟩ := bind_eq_ok.mp h
    exact Message.flatten_ne_nil h

theorem id_ne_zero_of_layOut {s : Session} {spans : List Bytes} (hm : m.qos.isTracked = true)
    (h : s.layOut m id = .ok spans) : id ≠ 0 := by
  rintro rfl
  have hmay : s.mayPublish m 0 = false := by simp [mayPublish, hm]
  rw [layOut, hmay] at h
  cases h

/-- Publishing a tracked message from the point on where its packet is laid out. -/
def transmit (m : Message) (id : UInt16) (spans : List Bytes) : Act ω Unit := do
  openOutgoing m id
  send spans
  let _ ← Act.ofResult (← Act.track fun t => t.onPublish id .sent m.qos)

/-- Publishing lays out the packet and sends it, between two updates of the exchanges where the
message is tracked. -/
theorem runOn_publish (m : Message) (id : UInt16) (σ : Scene ω) :
    (publish m id).runOn σ =
      match σ.session.layOut m id with
      | .error fault => some (.error fault, σ)
      | .ok spans => (if m.qos.isTracked then transmit m id spans else send spans).runOn σ := by
  rw [publish, Act.runOn_bind_of_ok (Act.runOn_session _)]
  by_cases hmay : σ.session.mayPublish m id = true
  · have hlayOut : σ.session.layOut m id =
        (m.size σ.session.version σ.session.negotiated.serverMaxPacketSize >>= fun size =>
          m.spans σ.session.version id size) := by
      simp [layOut, hmay]
    simp only [hmay, Bool.not_true, Bool.false_eq_true, if_false]
    rw [hlayOut]
    cases hsize : m.size σ.session.version σ.session.negotiated.serverMaxPacketSize with
    | error fault => rw [Act.runOn_bind_of_error (Act.runOn_ofResult _ _)]; rfl
    | ok size =>
      have hspansFor : (Except.ok size >>= fun size => m.spans σ.session.version id size) =
          m.spans σ.session.version id size := rfl
      rw [hspansFor, Act.runOn_bind_of_ok (Act.runOn_ofResult _ _)]
      cases hspans : m.spans σ.session.version id size with
      | error fault => rw [Act.runOn_bind_of_error (Act.runOn_ofResult _ _)]
      | ok spans =>
        rw [Act.runOn_bind_of_ok (Act.runOn_ofResult _ _)]
        by_cases hm : m.qos.isTracked = true
        · simp only [if_pos hm, transmit]
        · simp only [if_neg hm, bind_pure_unit]
  · have hlayOut : σ.session.layOut m id = .error .badParameter := by
      simp [layOut, hmay]
      rfl
    simp only [hmay, Bool.not_false, if_true]
    rw [hlayOut, Act.runOn_bind_of_error (Act.runOn_throw _ _)]

theorem publish_inv {σ τ : Scene ω} {r : Except Fault Unit} (hm : m.qos.isTracked = true)
    (h : (publish m id).runOn σ = some (r, τ)) :
    (∃ fault, σ.session.layOut m id = .error fault ∧ r = .error fault ∧ τ = σ) ∨
      ∃ spans, σ.session.layOut m id = .ok spans ∧
        (transmit m id spans).runOn σ = some (r, τ) := by
  rw [runOn_publish] at h
  cases hlayOut : σ.session.layOut m id with
  | error fault =>
    simp only [hlayOut, Option.some.injEq, Prod.mk.injEq] at h
    exact .inl ⟨fault, rfl, h.1.symm, h.2.symm⟩
  | ok spans =>
    simp only [hlayOut, if_pos hm] at h
    exact .inr ⟨spans, rfl, h⟩

theorem runOn_openOutgoing (m : Message) (id : UInt16) (σ : Scene ω) :
    (openOutgoing m id).runOn σ =
      match σ.session.exchanges.openFor m id with
      | .ok exchanges =>
        some (.ok (), ⟨{ σ.session with exchanges }, Act.trackedHost σ.host⟩)
      | .error fault => some (.error fault, { σ with host := Act.trackedHost σ.host }) := by
  rw [openOutgoing, ExchangeTable.openFor]
  cases hreserve : σ.session.exchanges.reserve id m.qos with
  | ok exchanges =>
    rw [Act.runOn_bind_of_ok (Act.runOn_track_ok (by rw [hreserve]; rfl))]
    rfl
  | error fault =>
    rw [Act.runOn_bind_of_ok (Act.runOn_track_error (by rw [hreserve]; rfl))]
    by_cases hdup : fault = .stateCollision ∧ m.dup = true
    · simp only [if_pos hdup, Act.runOn_pure]
    · simp only [if_neg hdup, Act.runOn_throw]

/-- The exchange is opened, the packet is sent, and the table is told; each of the three may be
the last. -/
theorem transmit_inv {spans : List Bytes} {σ τ : Scene (Watched ω)} {r : Except Fault Unit}
    (h : (transmit m id spans).runOn σ = some (r, τ)) :
    (∃ fault, σ.session.exchanges.openFor m id = .error fault ∧ r = .error fault ∧
      τ.session = σ.session ∧ τ.host.calls = trackCalls ++ σ.host.calls) ∨
    ∃ exchanges k calls, σ.session.exchanges.openFor m id = .ok exchanges ∧
      SendCalls spans.flatten k calls ∧ (spans.flatten ≠ [] → ∃ c ∈ calls, c.IsWrite) ∧
      (r = .error .sendFailed ∧ τ.session = { σ.session with exchanges } ∧
          τ.host.calls = calls ++ trackCalls ++ σ.host.calls ∨
        k = spans.flatten.length ∧
          τ.host.calls = trackCalls ++ calls ++ trackCalls ++ σ.host.calls ∧
          ((∃ state t, exchanges.onPublish id .sent m.qos = .ok (state, t) ∧ r = .ok () ∧
              τ.session.exchanges = t) ∨
            ∃ fault, exchanges.onPublish id .sent m.qos = .error fault ∧ r = .error fault ∧
              τ.session.exchanges = exchanges)) := by
  have hopen := runOn_openOutgoing m id σ
  cases hfor : σ.session.exchanges.openFor m id with
  | error fault =>
    rw [hfor] at hopen
    rw [transmit, Act.runOn_bind_of_error hopen] at h
    cases h
    exact .inl ⟨fault, rfl, rfl, rfl, rfl⟩
  | ok exchanges =>
    right
    rw [hfor] at hopen
    rw [transmit, Act.runOn_bind_of_ok hopen] at h
    rcases Act.runOn_bind_inv h with ⟨fault, hsend, rfl⟩ | ⟨_, υ, hsend, h⟩
    · obtain ⟨k, calls, hcalls, hsent, hwrite, ⟨hr, -⟩ | ⟨hr, hsession⟩⟩ := send_inv hsend
      · cases hr
      · refine ⟨exchanges, k, calls, rfl, hsent, hwrite, .inl ⟨hr, hsession, ?_⟩⟩
        rw [hcalls, Watched.calls_trackedHost, List.append_assoc]
    · obtain ⟨k, calls, hcalls, hsent, hwrite, ⟨-, hk, t, hsession⟩ | ⟨hr, -⟩⟩ := send_inv hsend
      · refine ⟨exchanges, k, calls, rfl, hsent, hwrite, .inr ⟨hk, ?_⟩⟩
        have hexchanges : υ.session.exchanges = exchanges := by rw [hsession]
        have hcalls' : trackCalls ++ υ.host.calls =
            trackCalls ++ calls ++ trackCalls ++ σ.host.calls := by
          rw [hcalls, Watched.calls_trackedHost]
          simp only [List.append_assoc]
        cases hpublish : exchanges.onPublish id .sent m.qos with
        | error fault =>
          rw [Act.runOn_bind_of_ok (Act.runOn_track_error (hexchanges ▸ hpublish))] at h
          cases h
          exact ⟨hcalls', .inr ⟨fault, rfl, rfl, hexchanges⟩⟩
        | ok found =>
          obtain ⟨state, t'⟩ := found
          rw [Act.runOn_bind_of_ok (Act.runOn_track_ok (hexchanges ▸ hpublish))] at h
          cases h
          exact ⟨hcalls', .inl ⟨state, t', rfl, rfl, rfl⟩⟩
      · cases hr

/-- **What is published under an exchange that refuses it.** A call that fails otherwise than by
sending leaves the exchanges as they were, and it has written just when it is a repeated attempt
that passes all checks under an exchange that refuses it. In that case the failure is
`illegalState`, and the whole packet has been written, or sending has failed. -/
theorem publish_against_exchange {σ τ : Scene (Watched ω)} {r : Except Fault Unit}
    (hm : m.qos.isTracked = true) (h : (publish m id).runOn σ = some (r, τ)) :
    ∃ calls, τ.host.calls = calls ++ σ.host.calls ∧
      (∀ fault, r = .error fault → fault ≠ .sendFailed →
        τ.session.exchanges = σ.session.exchanges ∧
        ((∃ c ∈ calls, c.IsWrite) ↔ (∃ spans, σ.session.layOut m id = .ok spans) ∧
          m.dup = true ∧ σ.session.exchanges.Refuses id m.qos)) ∧
      (σ.session.exchanges.Refuses id m.qos →
        ((∃ c ∈ calls, c.IsWrite) ↔
          (∃ spans, σ.session.layOut m id = .ok spans) ∧ m.dup = true) ∧
        ∀ spans, σ.session.layOut m id = .ok spans → m.dup = true →
          r = .error .sendFailed ∨ r = .error .illegalState ∧ written calls = spans.flatten) := by
  rcases publish_inv hm h with ⟨fault, hlayOut, rfl, rfl⟩ | ⟨spans, hlayOut, htransmit⟩
  · refine ⟨[], rfl, fun _ _ _ => ⟨rfl, ?_⟩, fun _ => ⟨?_, ?_⟩⟩ <;> simp [hlayOut]
  have hne := flatten_ne_nil_of_layOut hlayOut
  have hopens : m.dup = true → σ.session.exchanges.Refuses id m.qos →
      σ.session.exchanges.openFor m id = .ok σ.session.exchanges :=
    ExchangeTable.openFor_of_refuses (id_ne_zero_of_layOut hm hlayOut) hm
  rcases transmit_inv htransmit with ⟨fault, hopen, rfl, hsession, hcalls⟩ |
    ⟨exchanges, k, calls, hopen, hsent, hwrite, hend⟩
  · have hquiet : ¬∃ c ∈ trackCalls, c.IsWrite := by
      rintro ⟨c, hc, hcwrite⟩
      exact not_isWrite_of_mem_trackCalls hc hcwrite
    have hnever : m.dup = true → ¬σ.session.exchanges.Refuses id m.qos := by
      intro hdup hrefuses
      cases hopen.symm.trans (hopens hdup hrefuses)
    refine ⟨trackCalls, hcalls, fun _ _ _ => ⟨by rw [hsession], ?_⟩, fun hrefuses => ⟨?_, ?_⟩⟩
    · exact iff_of_false hquiet fun hall => hnever hall.2.1 hall.2.2
    · exact iff_of_false hquiet fun hall => hnever hall.2 hrefuses
    · exact fun _ _ hdup => (hnever hdup hrefuses).elim
  obtain ⟨c, hc, hcwrite⟩ := hwrite hne
  have hpublish := ExchangeTable.onPublish_of_openFor hopen hm
  rcases hend with ⟨rfl, -, hcalls⟩ | ⟨hk, hcalls, hend⟩
  · refine ⟨calls ++ trackCalls, hcalls, ?_, fun hrefuses => ⟨?_, fun _ _ _ => .inl rfl⟩⟩
    · rintro _ ⟨⟩ hfault
      exact (hfault rfl).elim
    · refine iff_of_true ⟨c, by simp [hc], hcwrite⟩ ⟨⟨spans, hlayOut⟩, ?_⟩
      rcases hpublish with ⟨hno, -⟩ | ⟨-, hdup, -⟩
      · exact (hno hrefuses).elim
      · exact hdup
  · refine ⟨trackCalls ++ calls ++ trackCalls, hcalls, ?_⟩
    have hwritten : written (trackCalls ++ calls ++ trackCalls) = spans.flatten := by
      rw [written_append, written_append, hsent.taken, hk, List.take_length]
      simp
    have hmade : ∃ c ∈ trackCalls ++ calls ++ trackCalls, c.IsWrite :=
      ⟨c, by simp [hc], hcwrite⟩
    rcases hpublish with ⟨hno, state, t, hok⟩ | ⟨hrefuses, hdup, rfl, herror⟩
    · rcases hend with ⟨_, _, -, rfl, -⟩ | ⟨_, herror, -⟩
      · refine ⟨?_, fun hrefuses => (hno hrefuses).elim⟩
        rintro _ ⟨⟩
      · cases hok.symm.trans herror
    · rcases hend with ⟨_, _, hok, -⟩ | ⟨fault, herror', rfl, hsame⟩
      · cases herror.symm.trans hok
      · cases herror.symm.trans herror'
        refine ⟨fun _ _ _ => ⟨hsame, ?_⟩, fun _ => ⟨?_, ?_⟩⟩
        · exact iff_of_true hmade ⟨⟨spans, hlayOut⟩, hdup, hrefuses⟩
        · exact iff_of_true hmade ⟨⟨spans, hlayOut⟩, hdup⟩
        · intro spans' hlayOut' _
          cases hlayOut.symm.trans hlayOut'
          exact .inr ⟨rfl, hwritten⟩

/-- A message to be delivered exactly once. -/
def greeting : Message := { topic := "a", payload := [120], qos := .exactlyOnce }

/-- A new session publishes it, and the broker answers PUBREC. -/
def untilPubrec : Option (Except Fault Progress × Scene (Watched Scripted)) :=
  (do publish greeting 3; receiveOnly : Act (Watched Scripted) Progress).runOn
    { session := create 8 (.empty 1 0) .v311 {}
      host := { host := { incoming := [0x50, 2, 0, 3] } } }

/-- A message whose PUBREC has arrived is written a second time when it is published as a repeated
attempt, and only then is the attempt refused. -/
theorem publish_after_pubrec :
    ∃ σ τ calls, untilPubrec = some (.ok (.packet 0x50), σ) ∧
      (publish { greeting with dup := true } 3).runOn σ = some (.error .illegalState, τ) ∧
      τ.host.calls = calls ++ σ.host.calls ∧ written calls = [0x3C, 6, 0, 1, 97, 0, 3, 120] := by
  have hfirst : untilPubrec.map (fun p => (p.1, p.2.session.exchanges.outgoing)) =
      some (.ok (.packet 0x50), [⟨3, .exactlyOnce, .awaits .pubcomp⟩]) := by decide +kernel
  have hlayOut : untilPubrec.map (fun p => p.2.session.layOut { greeting with dup := true } 3) =
      some (.ok [[0x3C, 6, 0, 1], [97], [0, 3], [], [120]]) := by decide +kernel
  have hsecond : untilPubrec.map
      (fun p => ((publish { greeting with dup := true } 3).runOn p.2).map (·.1)) =
      some (some (.error .illegalState)) := by decide +kernel
  obtain ⟨⟨r, σ⟩, hrun, hr⟩ := Option.map_eq_some_iff.mp hfirst
  rw [hrun] at hlayOut hsecond
  obtain ⟨rfl, hrecords⟩ := Prod.mk.inj hr
  obtain ⟨⟨_, τ⟩, hagain, rfl⟩ := Option.map_eq_some_iff.mp (Option.some.inj hsecond)
  obtain ⟨calls, hcalls, -, hwhole⟩ := publish_against_exchange rfl hagain
  have hrefuses : σ.session.exchanges.Refuses 3 .exactlyOnce :=
    ⟨⟨3, .exactlyOnce, .awaits .pubcomp⟩, by rw [hrecords]; rfl, by decide⟩
  rcases (hwhole hrefuses).2 _ (Option.some.inj hlayOut) rfl with hr | ⟨-, hwritten⟩
  · cases hr
  · exact ⟨σ, τ, calls, hrun, hagain, hcalls, hwritten⟩

end Session

end MqttClient
