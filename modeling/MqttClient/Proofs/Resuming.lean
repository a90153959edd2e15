import MqttClient.Proofs.Connecting
import MqttClient.Proofs.Requested

/-!
# Sessions that go on

When the broker has kept the session, every exchange in which the client owes a PUBREL has it sent
again, whether it was sent before or not. The client walks its table with a cursor while each
PUBREL that it sends changes the record under the cursor: none is passed over, none is sent twice,
and no other record changes (`Session.resendPubrels_inv`). When the broker has not kept the
session, all exchanges are forgotten.
-/
namespace MqttClient

namespace Record

/-- The client is to send a PUBREL, or has sent one and waits for its answer. -/
def OwesPubrel (r : Record) : Prop := r.state = .owes .pubrel ∨ r.state = .awaits .pubcomp

instance : DecidablePred OwesPubrel := fun r =>
  inferInstanceAs (Decidable (r.state = .owes .pubrel ∨ r.state = .awaits .pubcomp))

theorem resumesWithPubrel_iff {r : Record} :
    r.state.resumesWithPubrel = true ↔ r.OwesPubrel := by
  obtain ⟨id, qos, state⟩ := r
  rcases state with _ | ack | ack | _
  · simp [OwesPubrel, ExchangeState.resumesWithPubrel]
  · cases ack <;> simp [OwesPubrel, ExchangeState.resumesWithPubrel]
  · cases ack <;> simp [OwesPubrel, ExchangeState.resumesWithPubrel]
  · simp [OwesPubrel, ExchangeState.resumesWithPubrel]

/-- A record once its PUBREL, if the client owes one, has been sent again. -/
def resumed (r : Record) : Record :=
  if r.OwesPubrel then { r with state := .awaits .pubcomp } else r

@[simp] theorem id_resumed (r : Record) : r.resumed.id = r.id := by
  rw [resumed]
  split_ifs <;> rfl

/-- The PUBRELs that the client owes in the exchanges of a list, in the order of the list. -/
def pubrels (records : List Record) : Bytes :=
  (records.filter (·.OwesPubrel)).flatMap fun r => Ack.wire .pubrel r.id

variable {records before after : List Record} {r : Record}

theorem map_resumed_eq_self (h : ∀ r ∈ records, ¬r.OwesPubrel) :
    records.map resumed = records := by
  refine (List.map_congr_left fun r hr => ?_).trans (List.map_id records)
  exact if_neg (h r hr)

theorem pubrels_eq_nil (h : ∀ r ∈ records, ¬r.OwesPubrel) : pubrels records = [] := by
  have hfilter : records.filter (·.OwesPubrel) = [] := by simpa using h
  rw [pubrels, hfilter, List.flatMap_nil]

@[simp] theorem pubrels_append (records others : List Record) :
    pubrels (records ++ others) = pubrels records ++ pubrels others := by
  simp [pubrels]

/-- Where identifiers are distinct, settling a record leaves those before and after it. -/
theorem settle_append_cons {next : ExchangeState} (hnext : next ≠ .complete)
    (hnodup : ((before ++ r :: after).map (·.id)).Nodup) :
    settle r.id next (before ++ r :: after) = before ++ { r with state := next } :: after := by
  have hothers : ∀ rs : List Record, r.id ∉ rs.map (·.id) →
      rs.map (fun r' => if r'.id = r.id then { r' with state := next } else r') = rs := by
    intro rs hrs
    refine (List.map_congr_left fun r' hr' => ?_).trans (List.map_id rs)
    exact if_neg fun heq => hrs (List.mem_map.mpr ⟨r', hr', heq⟩)
  rw [List.map_append, List.map_cons, List.nodup_append, List.nodup_cons] at hnodup
  obtain ⟨-, ⟨hafter, -⟩, hdisjoint⟩ := hnodup
  rw [settle_of_ne hnext, List.map_append, List.map_cons, if_pos rfl, hothers after hafter,
    hothers before fun hbefore => hdisjoint _ hbefore _ (List.mem_cons_self ..) rfl]

end Record

namespace ExchangeTable

/-- The table with which a session goes on, given whether the broker has kept it. -/
def resumed (t : ExchangeTable) (present : Bool) : ExchangeTable :=
  if present then { t with outgoing := t.outgoing.map Record.resumed } else t.clear

/-- Looking for the next PUBREL passes over the records without one. -/
theorem scanPubrels_cases (cursor : ℕ) (records : List Record) :
    (∀ r ∈ records, ¬r.OwesPubrel) ∧ (scanPubrels cursor records).1 = none ∨
      ∃ skipped r rest, records = skipped ++ r :: rest ∧ (∀ r' ∈ skipped, ¬r'.OwesPubrel) ∧
        r.OwesPubrel ∧
        scanPubrels cursor records = (some r.id, cursor + skipped.length + 1) := by
  induction records generalizing cursor with
  | nil => exact .inl ⟨by simp, rfl⟩
  | cons first rest ih =>
    by_cases howes : first.OwesPubrel
    · refine .inr ⟨[], first, rest, rfl, by simp, howes, ?_⟩
      rw [scanPubrels, if_pos (Record.resumesWithPubrel_iff.mpr howes)]
      rfl
    · rw [scanPubrels, if_neg fun h => howes (Record.resumesWithPubrel_iff.mp h)]
      rcases ih (cursor + 1) with ⟨hnone, hscan⟩ | ⟨skipped, r, rest, rfl, hskipped, hr, hscan⟩
      · exact .inl ⟨List.forall_mem_cons.mpr ⟨howes, hnone⟩, hscan⟩
      · refine .inr ⟨first :: skipped, r, rest, rfl, List.forall_mem_cons.mpr ⟨howes, hskipped⟩,
          hr, ?_⟩
        rw [hscan, List.length_cons]
        congr 1
        omega

end ExchangeTable

/-- A CONNECT on the wire. -/
def Connect.wire (version : Version) (c : Connect) : Bytes :=
  PacketType.connect.firstByte :: VarInt.bytes (c.body version).length ++ c.body version

theorem Connect.flatten_spans {version : Version} {c : Connect} {size : PacketSize}
    {spans : List Bytes} (hsize : c.size version = .ok size)
    (h : c.spans version size = .ok spans) : spans.flatten = c.wire version := by
  obtain ⟨spans', hspans', hflatten⟩ := Connect.spans_eq hsize
  cases h.symm.trans hspans'
  rw [hflatten, wire, (Connect.counts hsize).length_body]

variable {ω : Type} [Host ω]

namespace Session
variable {σ τ : Scene (Watched ω)}

/-- An acknowledgement that the table grants is sent and noted, unless sending fails. -/
theorem sendAck_granted {id : UInt16} {state next : ExchangeState} {ack : AckKind}
    {exchanges : ExchangeTable} {r : Except Fault Unit} (hack : state.ackToSend = some ack)
    (hid : id ≠ 0) (hnote : σ.session.exchanges.onAck id ack .sent = .ok (next, exchanges))
    (h : (sendAck id state).runOn σ = some (r, τ)) :
    (r = .ok () ∧ τ.session.exchanges = exchanges ∧
        ∃ calls, τ.host.calls = calls ++ σ.host.calls ∧ written calls = Ack.wire ack id) ∨
      r = .error .sendFailed := by
  rw [sendAck_of_some hack hid] at h
  rcases Act.runOn_bind_inv h with ⟨fault, hsend, rfl⟩ | ⟨_, υ, hsend, h⟩
  · cases send_faults _ σ fault τ hsend
    exact .inr rfl
  left
  obtain ⟨k, calls, hcalls, hsent, -, ⟨-, rfl, t, hsession⟩ | ⟨⟨⟩, -⟩⟩ := send_inv hsend
  have hnote' : υ.session.exchanges.onAck id ack .sent = .ok (next, exchanges) := by
    rw [hsession]
    exact hnote
  rw [Act.runOn_bind_of_ok (Act.runOn_track_ok hnote')] at h
  cases h
  refine ⟨rfl, rfl, trackCalls ++ calls, ?_, ?_⟩
  · rw [Watched.calls_trackedHost, hcalls, List.append_assoc]
  · rw [written_append, written_trackCalls, hsent.taken, List.take_length, List.append_nil,
      List.flatten_singleton]

/-- Sending a PUBREL again settles its record where it stands. -/
theorem resendPubrel_inv {record : Record} {before after : List Record} {r : Except Fault Unit}
    (hout : σ.session.exchanges.outgoing = before ++ record :: after)
    (hnodup : ((before ++ record :: after).map (·.id)).Nodup) (hid : record.id ≠ 0)
    (howes : record.OwesPubrel) (h : (sendAck record.id (.owes .pubrel)).runOn σ = some (r, τ)) :
    (r = .ok () ∧
        τ.session.exchanges =
          { σ.session.exchanges with outgoing := before ++ record.resumed :: after } ∧
        ∃ calls, τ.host.calls = calls ++ σ.host.calls ∧
          written calls = Ack.wire .pubrel record.id) ∨
      r = .error .sendFailed := by
  have hfound : Record.find? record.id
      (σ.session.exchanges.records (AckKind.side .pubrel .sent)) = some record := by
    change Record.find? record.id σ.session.exchanges.outgoing = some record
    rw [hout]
    exact Record.find?_of_mem hnodup (by simp)
  have hnext : record.state.onAck .pubrel .sent = some (.awaits .pubcomp) := by
    rcases howes with howes | howes <;> rw [howes] <;> rfl
  have hsettle : Record.settle record.id (.awaits .pubcomp) σ.session.exchanges.outgoing =
      before ++ record.resumed :: after := by
    rw [hout, Record.settle_append_cons (by simp) hnodup, Record.resumed, if_pos howes]
  rcases sendAck_granted rfl hid (ExchangeTable.onAck_eq hfound hnext) h with
    ⟨hr, hτ, hcalls⟩ | hfails
  · refine .inl ⟨hr, ?_, hcalls⟩
    rw [hτ, ← hsettle]
    rfl
  · exact .inr hfails

/-- **The walk over the table.** With the records in front of the cursor done, the PUBRELs owed in
the others are sent in their order, each once. -/
theorem resendPubrels_inv {n cursor : ℕ} {done rest : List Record} {r : Except Fault Unit}
    (hn : rest.length ≤ n) (hcursor : cursor = done.length)
    (hout : σ.session.exchanges.outgoing = done ++ rest)
    (hnodup : ((done ++ rest).map (·.id)).Nodup) (hid : ∀ r ∈ rest, r.id ≠ 0)
    (h : (resendPubrels n cursor).runOn σ = some (r, τ)) :
    (r = .ok () ∧
        τ.session.exchanges =
          { σ.session.exchanges with outgoing := done ++ rest.map Record.resumed } ∧
        ∃ calls, τ.host.calls = calls ++ σ.host.calls ∧ written calls = Record.pubrels rest) ∨
      r = .error .sendFailed := by
  induction n generalizing cursor done rest σ with
  | zero =>
    cases h
    obtain rfl : rest = [] := List.length_eq_zero_iff.mp (Nat.le_zero.mp hn)
    exact .inl ⟨rfl, by rw [List.map_nil, ← hout], [], rfl, rfl⟩
  | succ n ih =>
    rw [resendPubrels, Act.runOn_bind_of_ok (Act.runOn_session _), ExchangeTable.nextPubrel, hout,
      hcursor, List.drop_left] at h
    rcases ExchangeTable.scanPubrels_cases done.length rest with
      ⟨hnone, hscan⟩ | ⟨skipped, record, rest', rfl, hskipped, howes, hscan⟩
    · split at h
      · cases h
        refine .inl ⟨rfl, ?_, [], rfl, (Record.pubrels_eq_nil hnone).symm⟩
        rw [Record.map_resumed_eq_self hnone, ← hout]
      · rename_i hfound
        rw [hfound] at hscan
        cases hscan
    rw [hscan] at h
    dsimp only at h
    rw [← List.append_assoc] at hout hnodup
    have hrecord : record.id ≠ 0 := hid _ (by simp)
    rcases Act.runOn_bind_inv h with ⟨fault, hsend, rfl⟩ | ⟨_, υ, hsend, h⟩
    · rcases resendPubrel_inv hout hnodup hrecord howes hsend with ⟨⟨⟩, -⟩ | hfails
      cases hfails
      exact .inr rfl
    obtain ⟨-, hυ, calls, hcalls, hwritten⟩ :=
      (resendPubrel_inv hout hnodup hrecord howes hsend).resolve_right (by simp)
    -- The record has been settled in its place, so what is done ends behind it.
    have hout' : υ.session.exchanges.outgoing =
        done ++ skipped ++ [record.resumed] ++ rest' := by
      rw [hυ, List.append_assoc _ [_]]
      rfl
    have hlength : rest'.length ≤ n := by
      rw [List.length_append, List.length_cons] at hn
      omega
    rcases ih hlength (by simp [Nat.add_assoc]) hout' (by simpa using hnodup)
      (fun r hr => hid r (by simp [hr])) h with ⟨hr, hτ, later, hlater, hwritten'⟩ | hfails
    · refine .inl ⟨hr, ?_, later ++ calls, by rw [hlater, hcalls, List.append_assoc], ?_⟩
      · rw [hτ, hυ, List.map_append, Record.map_resumed_eq_self hskipped]
        simp
      · rw [written_append, hwritten, hwritten', Record.pubrels_append,
          Record.pubrels_eq_nil hskipped]
        simp [Record.pubrels, howes]
    · exact .inr hfails

/-- Going on with a table as it should be succeeds, unless sending fails. -/
theorem resume_inv {present : Bool} {r : Except Fault Unit}
    (hvalid : σ.session.exchanges.Valid) (h : (resume present).runOn σ = some (r, τ)) :
    (r = .ok () ∧ τ.session.exchanges = σ.session.exchanges.resumed present ∧
        ∃ calls, τ.host.calls = calls ++ σ.host.calls ∧
          written calls = if present then Record.pubrels σ.session.exchanges.outgoing else []) ∨
      r = .error .sendFailed := by
  cases present with
  | true =>
    rw [resume, if_pos rfl, Act.runOn_bind_of_ok (Act.runOn_session _)] at h
    have hcursor : 0 = ([] : List Record).length := rfl
    exact resendPubrels_inv (Nat.le_refl _) hcursor rfl
      (hvalid.records .outgoing).nodup hvalid.id_ne_zero h
  | false =>
    rw [resume, if_neg Bool.false_ne_true, Act.runOn_bind_of_ok (Act.runOn_track_ok rfl)] at h
    cases h
    exact .inl ⟨rfl, rfl, trackCalls, Watched.calls_trackedHost _, written_trackCalls⟩

/-! ## Connecting -/

theorem approach_written {c : Connect} {timeout : UInt32} {negotiated : Negotiated}
    {spans : List Bytes} {present : Bool}
    (h : (approach c timeout negotiated spans).runOn σ = some (.ok present, τ)) :
    ∃ calls, τ.host.calls = calls ++ σ.host.calls ∧ written calls = spans.flatten := by
  rw [approach, Act.runOn_bind_of_ok (Act.runOn_change _ _)] at h
  rcases Act.runOn_bind_inv h with ⟨_, _, ⟨⟩⟩ | ⟨_, υ, hsend, h⟩
  obtain ⟨k, calls, hcalls, hsent, -, ⟨-, rfl, -⟩ | ⟨⟨⟩, -⟩⟩ := send_inv hsend
  have hwait : Act.Keeps Mute (do
      let present ← receiveConnack timeout
      Act.ofResult (Connack.checkSession c.cleanSession present)
      return present : Act (Watched ω) Bool) :=
    (inward_mute.receiveConnack timeout).bind fun _ => (Act.Keeps.ofResult _).bind fun _ => .pure _
  obtain ⟨later, hlater, hmute⟩ := hwait υ _ τ h
  refine ⟨later ++ calls, by rw [hlater, hcalls, List.append_assoc], ?_⟩
  rw [written_append, written_eq_nil hmute, hsent.taken, List.take_length, List.append_nil]

/-- A connection that is taken up. -/
theorem connect_resumes {c : Connect} {timeout : UInt32} {present : Bool}
    (hvalid : σ.session.exchanges.Valid)
    (h : (connect c timeout).runOn σ = some (.ok present, τ)) :
    τ.session.exchanges = σ.session.exchanges.resumed present ∧
      ∃ calls, τ.host.calls = calls ++ σ.host.calls ∧
        written calls = c.wire σ.session.version ++
          if present then Record.pubrels σ.session.exchanges.outgoing else [] := by
  rw [connect_eq] at h
  rcases Act.runOn_bind_inv h with ⟨_, _, ⟨⟩⟩ | ⟨present', υ, hshake, h⟩
  rcases Act.runOn_bind_inv h with ⟨_, _, ⟨⟩⟩ | ⟨_, ρ, hresume, h⟩
  obtain ⟨_, π, hestablish, ⟨⟩⟩ := (Act.runOn_bind_inv h).resolve_left nofun
  have hunchanged := (handshake_silent c timeout σ _ υ hshake).exchanges
  rcases handshake_inv hshake with ⟨⟨⟩, -⟩ | ⟨negotiated, size, spans, -, hsize, hspans, happroach⟩
  obtain ⟨calls, hcalls, hwritten⟩ := approach_written happroach
  obtain ⟨-, hρ, resent, hresent, hwritten'⟩ :=
    (resume_inv (hunchanged ▸ hvalid) hresume).resolve_right nofun
  obtain ⟨later, hlater, hmute⟩ := establish_mute c ρ _ τ hestablish
  refine ⟨?_, later ++ (resent ++ calls), ?_, ?_⟩
  · rw [(establish_silent c ρ _ τ hestablish).exchanges, hρ, hunchanged]
  · rw [hlater, hresent, hcalls, List.append_assoc, List.append_assoc]
  · rw [written_append, written_append, written_eq_nil hmute, hwritten, hwritten', hunchanged,
      Connect.flatten_spans hsize hspans, List.append_nil]

/-- Connecting fails before anything is done, or it fails on the way. -/
theorem connect_error {c : Connect} {timeout : UInt32} {fault : Fault}
    (hvalid : σ.session.exchanges.Valid)
    (h : (connect c timeout).runOn σ = some (.error fault, τ)) :
    fault = .badParameter ∧ τ = σ ∨ fault ∈ approachFaults := by
  rw [connect_eq] at h
  rcases Act.runOn_bind_inv h with ⟨_, hshake, ⟨⟩⟩ | ⟨present, υ, hshake, h⟩
  · rcases handshake_inv hshake with ⟨⟨⟩, rfl⟩ | ⟨negotiated, size, spans, -, -, -, happroach⟩
    · exact .inl ⟨rfl, rfl⟩
    · exact .inr (approach_faults _ _ _ _ σ fault τ happroach)
  have hunchanged := (handshake_silent c timeout σ _ υ hshake).exchanges
  rcases Act.runOn_bind_inv h with ⟨_, hresume, ⟨⟩⟩ | ⟨_, ρ, -, h⟩
  · rcases resume_inv (hunchanged ▸ hvalid) hresume with ⟨⟨⟩, -⟩ | ⟨⟨⟩⟩
    exact .inr (by simp [approachFaults])
  · obtain ⟨π, hestablish⟩ := runOn_establish c ρ
    rw [Act.runOn_bind_of_ok hestablish] at h
    cases h

end Session

/-- **Going on with a session.** Whatever a new client and its broker have done so far, when it
connects and the broker has kept the session, what it writes is the CONNECT and then one PUBREL for
each exchange in which it owes one, in the order of the table. From then on it waits for a PUBCOMP
in each of these, and no other exchange on either side has changed. When the broker has not kept the
session, the CONNECT is all that is written, and no exchange is left. -/
theorem run_resumes {steps : List (Step ω)} {s : Step ω} {c : Connect} {timeout : UInt32}
    {present : Bool} (hrun : IsRun steps)
    (hnew : ∀ s ∈ steps.head?, ∃ capacity m n version settings,
      s.before.session = .create capacity (.empty m n) version settings)
    (hs : s ∈ steps) (hcall : s.call = .connect c timeout)
    (hresult : s.result = .ok (.session present)) :
    (present = true →
      written s.calls = c.wire s.before.session.version ++
          (s.before.session.exchanges.outgoing.filter (·.OwesPubrel)).flatMap
            (fun r => Ack.wire .pubrel r.id) ∧
        s.after.session.exchanges.outgoing =
          s.before.session.exchanges.outgoing.map (fun r =>
            if r.OwesPubrel then { r with state := .awaits .pubcomp } else r) ∧
        s.after.session.exchanges.incoming = s.before.session.exchanges.incoming) ∧
      (present = false →
        written s.calls = c.wire s.before.session.version ∧
          s.after.session.exchanges.outgoing = [] ∧ s.after.session.exchanges.incoming = []) := by
  obtain ⟨hexchanges, calls, hcalls, hwritten⟩ :=
    Session.connect_resumes (valid_of_isRun hrun hnew s hs) (s.connects_ok hcall hresult)
  rw [Step.calls_eq hcalls, hwritten, hexchanges]
  constructor
  · rintro rfl
    exact ⟨rfl, rfl, rfl⟩
  · rintro rfl
    exact ⟨List.append_nil _, rfl, rfl⟩

/-- A client with three messages under way, of which one waits for a PUBCOMP and for another the
PUBREL could not be written, connects anew to a broker that has kept the session. -/
def brokenOff : List (Step Scripted) :=
  stepsFrom
    { session := .create 8 (.empty 3 0) .v311 {}
      host := { host := {
        incoming := [0x20, 2, 0, 0, 0x50, 2, 0, 9, 0x50, 2, 0, 7, 0x20, 2, 1, 0]
        reads := [.move 1, .move 1, .move 2, .move 4, .move 4]
        writes := [.move 99, .move 99, .move 99, .move 99, .move 99, .fail]
        gathers := true } } }
    [.connect { clientId := "c", cleanSession := false } 1000,
      .publish { topic := "a", qos := .exactlyOnce } 9,
      .publish { topic := "a", qos := .atLeastOnce } 8,
      .publish { topic := "a", qos := .exactlyOnce } 7,
      .receive false, .receive false,
      .connect { clientId := "c", cleanSession := false } 1000]

/-- Both PUBRELs are sent again, and the third message goes on waiting. -/
theorem run_resumes_brokenOff :
    ∃ s ∈ brokenOff, s.result = .ok (.session true) ∧
      s.before.session.exchanges.outgoing =
        [⟨9, .exactlyOnce, .awaits .pubcomp⟩, ⟨8, .atLeastOnce, .awaits .puback⟩,
          ⟨7, .exactlyOnce, .owes .pubrel⟩] ∧
      written s.calls =
        Connect.wire .v311 { clientId := "c", cleanSession := false } ++
          [0x62, 2, 0, 9, 0x62, 2, 0, 7] ∧
      s.after.session.exchanges.outgoing =
        [⟨9, .exactlyOnce, .awaits .pubcomp⟩, ⟨8, .atLeastOnce, .awaits .puback⟩,
          ⟨7, .exactlyOnce, .awaits .pubcomp⟩] := by
  obtain ⟨s, hs, hcall, hresult, hversion, hout⟩ : ∃ s ∈ brokenOff,
      s.call = .connect { clientId := "c", cleanSession := false } 1000 ∧
        s.result = .ok (.session true) ∧ s.before.session.version = .v311 ∧
        s.before.session.exchanges.outgoing =
          [⟨9, .exactlyOnce, .awaits .pubcomp⟩, ⟨8, .atLeastOnce, .awaits .puback⟩,
            ⟨7, .exactlyOnce, .owes .pubrel⟩] := by decide +kernel
  have hnew : ∀ s ∈ brokenOff.head?, ∃ capacity m n version settings,
      s.before.session = .create capacity (.empty m n) version settings := fun s hs =>
    ⟨8, 3, 0, .v311, {}, by rw [before_of_mem_head?_stepsFrom hs]⟩
  obtain ⟨hwritten, hafter, -⟩ := (run_resumes (isRun_stepsFrom _ _) hnew hs hcall hresult).1 rfl
  rw [hout] at hwritten hafter
  rw [hversion] at hwritten
  exact ⟨s, hs, hresult, hout, hwritten, hafter⟩

end MqttClient
