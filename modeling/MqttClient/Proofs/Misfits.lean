import MqttClient.Proofs.Acknowledgements
import MqttClient.Proofs.Framing
import MqttClient.Proofs.Requested

/-!
# Acknowledgements that the table refuses

The table is told of an acknowledgement when it has been written, and can only refuse it then. It
never does so for one that opens, continues or ends its exchange. But a message under a tracked
identifier is acknowledged as its own guarantee asks for, and its exchange may be one of another
guarantee, or one whose PUBREL has come and whose PUBCOMP is owed (`Session.Misfits`). Then the
whole acknowledgement goes out, and the call fails with `illegalState` after that. In no other case
does a call that fails so write an acknowledgement (`run_notes_acks`).
-/
namespace MqttClient

/-! ## What the table takes -/

/-- An exchange takes the first acknowledgement of a message, unless it is one of another guarantee
or owes a PUBCOMP. -/
theorem ExchangeState.onAck_first {s : ExchangeState} {qos qos' : QoS}
    (hflow : s ∈ flow .incoming qos) (hqos : qos'.isTracked = true) :
    onAck qos'.firstAck .sent s = none ↔ qos ≠ qos' ∨ s = .owes .pubcomp := by
  cases qos <;> cases qos' <;> cases hqos <;>
    simp only [flow, List.mem_cons, List.not_mem_nil, or_false] at hflow
  case atLeastOnce.atLeastOnce => subst hflow; decide
  case atLeastOnce.exactlyOnce => subst hflow; decide
  case exactlyOnce.atLeastOnce => rcases hflow with rfl | rfl | rfl <;> decide
  case exactlyOnce.exactlyOnce => rcases hflow with rfl | rfl | rfl <;> decide

namespace ExchangeTable
variable {t : ExchangeTable} {id : UInt16} {qos : QoS}

theorem Valid.onAck_first {r : Record} (hvalid : t.Valid)
    (hfound : Record.find? id t.incoming = some r) (hqos : qos.isTracked = true) :
    (t.onAck id qos.firstAck .sent = .error .illegalState ∧
        (r.qos ≠ qos ∨ r.state = .owes .pubcomp)) ∨
      (∃ next t', t.onAck id qos.firstAck .sent = .ok (next, t')) ∧
        ¬(r.qos ≠ qos ∨ r.state = .owes .pubcomp) := by
  have hflow := (hvalid.records .incoming).inFlow r (Record.mem_of_find? hfound).1
  have hside : qos.firstAck.side .sent = .incoming := by cases qos <;> rfl
  have hrecord : Record.find? id (t.records (qos.firstAck.side .sent)) = some r := by
    rw [hside]
    exact hfound
  rw [← ExchangeState.onAck_first hflow hqos]
  cases hnext : ExchangeState.onAck qos.firstAck .sent r.state with
  | none =>
    refine .inl ⟨?_, rfl⟩
    rw [ExchangeTable.onAck]
    simp only [hrecord, hnext]
  | some next => exact .inr ⟨⟨next, _, onAck_eq hrecord hnext⟩, by simp⟩

/-- The exchange that a message opens takes its acknowledgement. -/
theorem onAck_opened (hnew : Record.find? id t.incoming = none) (hqos : qos.isTracked = true) :
    ∃ next t', onAck { t with incoming := t.incoming ++ [⟨id, qos, .owes qos.firstAck⟩] } id
      qos.firstAck .sent = .ok (next, t') := by
  have hside : qos.firstAck.side .sent = .incoming := by cases qos <;> rfl
  obtain ⟨next, hnext⟩ : ∃ next, ExchangeState.onAck qos.firstAck .sent (.owes qos.firstAck) =
      some next := by
    cases qos <;> exact ⟨_, rfl⟩
  refine ⟨next, _, onAck_eq (r := ⟨id, qos, .owes qos.firstAck⟩) ?_ hnext⟩
  rw [hside]
  exact Record.find?_append_self hnew rfl

/-- After a PUBREC its exchange takes the PUBREL, and after a PUBREL the PUBCOMP. -/
theorem onAck_answer {kind ack : AckKind} (hawaits : t.Awaits kind id)
    (hack : kind.leadsTo.ackToSend = some ack) :
    ∃ next t', (t.acked kind id).onAck id ack .sent = .ok (next, t') := by
  cases kind with
  | puback => cases hack
  | pubcomp => cases hack
  | pubrel =>
    cases hack
    exact ⟨_, _, onAck_pubcomp hawaits⟩
  | pubrec =>
    cases hack
    obtain ⟨r, hfound, -⟩ := hawaits
    have hopen : AckKind.pubrec.leadsTo ≠ .complete := by decide
    exact ⟨_, _, onAck_eq (Record.find?_settle_self hopen hfound) rfl⟩

/-- What a table is told when a packet arrives under an identifier. -/
inductive Request.Arrival (id : UInt16) : Request → Prop where
  | message (qos : QoS) : Arrival id (.publish id .received qos)
  | ack (kind : AckKind) : Arrival id (.ack id kind .received)

theorem after_again (hfound : (Record.find? id t.incoming).isSome) (hqos : qos.isTracked = true) :
    t.after (.publish id .received qos) = t := by
  have hrefused := onPublishReceived_eq t id qos
  rw [if_pos hfound] at hrefused
  simp only [after, onPublish_received t id (QoS.ne_atMostOnce_of_isTracked hqos), hrefused]

theorem after_opened (hnew : Record.find? id t.incoming = none)
    (hroom : t.incoming.length < t.incomingCapacity) (hqos : qos.isTracked = true) :
    t.after (.publish id .received qos) =
      { t with incoming := t.incoming ++ [⟨id, qos, .owes qos.firstAck⟩] } := by
  have hopens := onPublishReceived_eq t id qos
  rw [if_neg (by simp [hnew]), if_pos hroom, ExchangeState.opening_received hqos] at hopens
  simp only [after, onPublish_received t id (QoS.ne_atMostOnce_of_isTracked hqos), hopens]

theorem after_acked {kind : AckKind} (hawaits : t.Awaits kind id) :
    t.after (.ack id kind .received) = t.acked kind id := by
  simp only [after, onAck_awaited hawaits]

end ExchangeTable

/-! ## Handling a packet -/

/-- How handling a packet ends as far as an acknowledgement goes. The table is `t` before and `t'`
afterwards, and refuses the acknowledgements that `refused` tells. -/
inductive Acks {α : Type} (refused : AckKind → UInt16 → Prop) (t t' : ExchangeTable)
    (r : Except Fault α) (calls : List HostCall) : Prop where
  /-- None is written. -/
  | unwritten (quiet : written calls = []) (same : ∀ fault, r = .error fault → t' = t)
  /-- It could not be sent. -/
  | cut (fails : r = .error .sendFailed)
  /-- It is written, and the table takes it once it knows of the packet. -/
  | noted {ack : AckKind} {id : UInt16} {next : ExchangeState} {request : ExchangeTable.Request}
    (arrival : request.Arrival id) (succeeds : ∃ a, r = .ok a)
    (wrote : written calls = Ack.wire ack id)
    (takes : (t.after request).onAck id ack .sent = .ok (next, t'))
  /-- It is written, and the table refuses it. -/
  | refused {ack : AckKind} {id : UInt16} (misfits : refused ack id)
    (fails : r = .error .illegalState) (wrote : written calls = Ack.wire ack id) (same : t' = t)

/-- Further calls that write nothing make no difference. -/
theorem Acks.append {α β : Type} {refused : AckKind → UInt16 → Prop} {t t' : ExchangeTable}
    {r : Except Fault α} {calls later : List HostCall} (h : Acks refused t t' r calls) (f : α → β)
    (hlater : written later = []) : Acks refused t t' (r.map f) (later ++ calls) := by
  have hwritten : written (later ++ calls) = written calls := by
    rw [written_append, hlater, List.append_nil]
  cases h with
  | unwritten quiet same =>
    refine .unwritten (hwritten.trans quiet) fun fault hr => ?_
    cases r with
    | error fault' => exact same fault' rfl
    | ok a => cases hr
  | cut fails => exact .cut (map_of_error f fails)
  | noted arrival succeeds wrote takes =>
    obtain ⟨a, hr⟩ := succeeds
    exact .noted arrival ⟨f a, by rw [hr]; rfl⟩ (hwritten.trans wrote) takes
  | refused misfits fails wrote same =>
    exact .refused misfits (map_of_error f fails) (hwritten.trans wrote) same

namespace Session
variable {ω : Type} [Host ω] {σ τ : Scene (Watched ω)} {r : Except Fault Unit} {packet : Packet}

/-- A packet is a message that comes under the identifier of an exchange which does not take its
acknowledgement. -/
def Misfits (s : Session) (packet : Packet) (ack : AckKind) (id : UInt16) : Prop :=
  PacketType.ofFirstByte? packet.firstByte = some .publish ∧
    ∃ m record, Message.decode s.version s.negotiated packet = .ok (id, m) ∧
      m.qos.isTracked = true ∧ ack = m.qos.firstAck ∧
      Record.find? id s.exchanges.incoming = some record ∧
      (record.qos ≠ m.qos ∨ record.state = .owes .pubcomp)

/-- An acknowledgement that is sent once the table knows of the packet, when nothing has been
written yet. -/
theorem sendAck_acks {ρ : Scene (Watched ω)} {earlier : List HostCall}
    {refused : AckKind → UInt16 → Prop} {ack : AckKind} {id : UInt16}
    {request : ExchangeTable.Request} (harrival : request.Arrival id)
    (h : (sendAck id (.owes ack)).runOn ρ = some (r, τ))
    (hexchanges : ρ.session.exchanges = σ.session.exchanges.after request)
    (hcalls : ρ.host.calls = earlier ++ σ.host.calls) (hquiet : written earlier = [])
    (hid : id ≠ 0) (htakes : (∃ next t', ρ.session.exchanges.onAck id ack .sent = .ok (next, t')) ∨
      ρ.session.exchanges.onAck id ack .sent = .error .illegalState ∧ refused ack id ∧
        ρ.session.exchanges = σ.session.exchanges) :
    ∃ calls, τ.host.calls = calls ++ σ.host.calls ∧
      Acks refused σ.session.exchanges τ.session.exchanges r calls := by
  obtain ⟨calls, hlater, -, hends⟩ := sendAck_ends rfl hid h
  refine ⟨calls ++ earlier, by rw [hlater, hcalls, List.append_assoc], ?_⟩
  rcases hends with ⟨hr, -⟩ | ⟨hwritten, hnoted⟩
  · exact .cut hr
  have hwrote : written (calls ++ earlier) = Ack.wire ack id := by
    rw [written_append, hquiet, hwritten, List.nil_append]
  rcases hnoted with ⟨next, hnote, hr⟩ | ⟨fault, hnote, hr, hsame⟩
  · rw [hexchanges] at hnote
    exact .noted harrival ⟨(), hr⟩ hwrote hnote
  · rcases htakes with ⟨next, t', htakes⟩ | ⟨hillegal, hmisfits, hunchanged⟩
    · cases htakes.symm.trans hnote
    · cases hillegal.symm.trans hnote
      exact .refused hmisfits hr hwrote (hsame.trans hunchanged)

/-- An untracked message is reported, and that is all. -/
theorem runOn_handlePublish_untracked {ρ : Scene ω} {id : UInt16} {m : Message}
    (hdecode : Message.decode ρ.session.version ρ.session.negotiated packet = .ok (id, m))
    (hm : m.qos = .atMostOnce) : (handlePublish packet).runOn ρ =
      some (.ok (), { ρ with host := Host.notify (m.event packet id) ρ.host }) := by
  rw [handlePublish, Act.runOn_bind_of_ok (Act.runOn_session _), hdecode,
    Act.runOn_bind_of_ok (Act.runOn_ofResult _ _)]
  simp only [openIncoming, hm, if_true, pure_bind, sendAck_of_none (show
    ExchangeState.complete.ackToSend = none from rfl)]
  rfl

theorem handlePublish_acks (hvalid : σ.session.exchanges.Valid)
    (htype : PacketType.ofFirstByte? packet.firstByte = some .publish)
    (h : (handlePublish packet).runOn σ = some (r, τ)) :
    ∃ calls, τ.host.calls = calls ++ σ.host.calls ∧
      Acks (σ.session.Misfits packet) σ.session.exchanges τ.session.exchanges r calls := by
  cases hdecode : Message.decode σ.session.version σ.session.negotiated packet with
  | error fault =>
    rw [handlePublish, Act.runOn_bind_of_ok (Act.runOn_session _), hdecode,
      Act.runOn_bind_of_error (Act.runOn_ofResult _ _)] at h
    cases h
    exact ⟨[], rfl, .unwritten rfl fun _ _ => rfl⟩
  | ok found =>
    obtain ⟨id, m⟩ := found
    by_cases hm : m.qos.isTracked = true
    · have hid := Message.id_ne_zero_of_decode hdecode hm
      rw [runOn_handlePublish hdecode hm] at h
      by_cases hfound : (Record.find? id σ.session.exchanges.incoming).isSome
      · rw [if_pos hfound] at h
        obtain ⟨record, hrecord⟩ := Option.isSome_iff_exists.mp hfound
        refine sendAck_acks (.message m.qos) h (ExchangeTable.after_again hfound hm).symm
          (Watched.calls_trackedHost _) written_trackCalls hid ?_
        rcases hvalid.onAck_first hrecord hm with ⟨hillegal, hmisfits⟩ | ⟨htakes, -⟩
        · exact .inr ⟨hillegal, ⟨htype, m, record, hdecode, hm, rfl, hrecord, hmisfits⟩, rfl⟩
        · exact .inl htakes
      · have hnew : Record.find? id σ.session.exchanges.incoming = none := by simpa using hfound
        rw [if_neg hfound] at h
        by_cases hroom :
            σ.session.exchanges.incoming.length < σ.session.exchanges.incomingCapacity
        · rw [if_pos hroom] at h
          exact sendAck_acks (.message m.qos) h (ExchangeTable.after_opened hnew hroom hm).symm
            (Watched.calls_notify_trackedHost _ _) rfl hid
            (.inl (ExchangeTable.onAck_opened hnew hm))
        · rw [if_neg hroom] at h
          cases h
          exact ⟨trackCalls, rfl, .unwritten rfl fun _ _ => rfl⟩
    · have hqos : m.qos = .atMostOnce := by
        by_contra hqos
        exact hm (QoS.isTracked_of_ne_atMostOnce hqos)
      rw [runOn_handlePublish_untracked hdecode hqos] at h
      cases h
      exact ⟨[.notify (m.event packet id)], rfl, .unwritten rfl fun _ _ => rfl⟩

theorem handleAck_acks {kind : AckKind} {refused : AckKind → UInt16 → Prop}
    (h : (handleAck packet kind).runOn σ = some (r, τ)) :
    ∃ calls, τ.host.calls = calls ++ σ.host.calls ∧
      Acks refused σ.session.exchanges τ.session.exchanges r calls := by
  cases hdecode : Ack.decode σ.session.version σ.session.negotiated.requestProblemInfo packet with
  | error fault =>
    rw [handleAck, Act.runOn_bind_of_ok (Act.runOn_session _), hdecode,
      Act.runOn_bind_of_error (Act.runOn_ofResult _ _)] at h
    cases h
    exact ⟨[], rfl, .unwritten rfl fun _ _ => rfl⟩
  | ok ack =>
    cases hverdict : ack.verdict (kindBits packet.firstByte) with
    | none =>
      rw [handleAck, Act.runOn_bind_of_ok (Act.runOn_session _), hdecode,
        Act.runOn_bind_of_ok (Act.runOn_ofResult _ _)] at h
      simp only [hverdict] at h
      cases h
      exact ⟨[], rfl, .unwritten rfl fun _ _ => rfl⟩
    | some verdict =>
      by_cases hrefused : verdict = .refused ∧ kind = .pubrec
      · obtain ⟨hverdict', rfl⟩ := hrefused
        obtain ⟨ρ, hhandle, -, hhost⟩ := handleAck_refused hdecode hverdict hverdict'
        cases hhandle.symm.trans h
        rw [hhost]
        exact ⟨_, Watched.calls_notify_trackedHost _ _, .unwritten rfl (by rintro _ ⟨⟩)⟩
      · by_cases hawaits : σ.session.exchanges.Awaits kind ack.packetId
        · obtain ⟨ρ, hhandle, hacked, hhost⟩ := handleAck_awaited hdecode hverdict hrefused hawaits
          have hnotified := Watched.calls_notify_trackedHost
            (ack.event σ.session.version packet verdict) σ.host
          rw [← hhost] at hnotified
          rw [hhandle] at h
          cases hanswer : kind.leadsTo.ackToSend with
          | none =>
            rw [sendAck_of_none hanswer] at h
            cases h
            exact ⟨_, hnotified, .unwritten rfl (by rintro _ ⟨⟩)⟩
          | some answer =>
            have howes : kind.leadsTo = .owes answer := by
              cases kind <;> cases hanswer <;> rfl
            rw [howes] at h
            exact sendAck_acks (.ack kind) h
              (hacked.trans (ExchangeTable.after_acked hawaits).symm) hnotified rfl
              (Ack.id_ne_zero_of_decode hdecode)
              (.inl (hacked ▸ ExchangeTable.onAck_answer hawaits hanswer))
        · have hunsettled := handleAck_of_unsettled hdecode hverdict
            (runOn_settleAck_unawaited hrefused hawaits)
          cases hunsettled.symm.trans h
          exact ⟨trackCalls, rfl, .unwritten rfl fun _ _ => rfl⟩

/-- No other packet is answered, and the exchanges do not change. -/
theorem dispatch_unanswered {R : Scene (Watched ω) → Scene (Watched ω) → Prop}
    [IsPreorder (Scene (Watched ω)) R] (hreport : ∀ event, Act.Keeps R (report event))
    (hanswer : Act.Keeps R (Act.change fun s => { s with awaitsPingresp := false }))
    (hend : Act.Keeps R (Act.change fun s => { s with status := .notConnected })) (managed : Bool)
    (htype : PacketType.ofFirstByte? packet.firstByte ≠ some .publish)
    (hkind : AckKind.ofFirstByte? packet.firstByte = none) :
    Act.Keeps R (dispatch managed packet) := by
  have hsuback : Act.Keeps R (handleSuback packet) := by
    refine Act.Keeps.session.bind fun _ => (Act.Keeps.ofResult _).bind fun suback => ?_
    split
    · exact .throw _
    · exact hreport _
  rw [AckKind.ofFirstByte?] at hkind
  rw [dispatch]
  cases hfound : PacketType.ofFirstByte? packet.firstByte with
  | none => exact .throw _
  | some type =>
    rw [hfound] at hkind
    cases type with
    | publish => exact absurd hfound htype
    | puback | pubrec | pubrel | pubcomp => cases hkind
    | pingresp => exact (Act.Keeps.ofResult _).bind fun _ => .ite hanswer (hreport _)
    | suback | unsuback => exact hsuback
    | disconnect =>
      exact Act.Keeps.session.bind fun _ =>
        .ite ((Act.Keeps.ofResult _).bind fun _ => (hreport _).bind fun _ => hend) (.throw _)
    | _ => exact .throw _

/-- Handling a packet writes one acknowledgement at most, and the table refuses it only where the
packet is a message that misfits. -/
theorem dispatch_acks {managed : Bool} (hvalid : σ.session.exchanges.Valid)
    (h : (dispatch managed packet).runOn σ = some (r, τ)) :
    ∃ calls, τ.host.calls = calls ++ σ.host.calls ∧
      Acks (σ.session.Misfits packet) σ.session.exchanges τ.session.exchanges r calls := by
  by_cases htype : PacketType.ofFirstByte? packet.firstByte = some .publish
  · have hpublish : (dispatch managed packet : Act (Watched ω) Unit) = handlePublish packet := by
      rw [dispatch, htype]
    rw [hpublish] at h
    exact handlePublish_acks hvalid htype h
  · cases hkind : AckKind.ofFirstByte? packet.firstByte with
    | some kind =>
      rw [dispatch_ack managed hkind] at h
      exact handleAck_acks h
    | none =>
      obtain ⟨calls, hcalls, hmute⟩ : Mute σ τ := dispatch_unanswered report_mute .makes_change
        .makes_change managed htype hkind σ r τ h
      have hsame : Same (·.exchanges) σ τ := dispatch_unanswered (R := Same (·.exchanges))
        (fun _ => .hostDo fun _ => rfl) (.change fun _ => rfl) (.change fun _ => rfl) managed htype
        hkind σ r τ h
      exact ⟨calls, hcalls, .unwritten (written_eq_nil hmute) fun _ _ => hsame⟩

/-- The acknowledgement of a message that misfits goes out, and is refused then. -/
theorem dispatch_misfit {managed : Bool} {ack : AckKind} {id : UInt16}
    (hvalid : σ.session.exchanges.Valid) (hmisfits : σ.session.Misfits packet ack id)
    (h : (dispatch managed packet).runOn σ = some (r, τ)) :
    ∃ calls, τ.host.calls = calls ++ σ.host.calls ∧ reported calls = [] ∧
      τ.session.exchanges = σ.session.exchanges ∧
      (r = .error .illegalState ∧ written calls = Ack.wire ack id ∨
        r = .error .sendFailed ∧ written calls <+: Ack.wire ack id) := by
  obtain ⟨htype, m, record, hdecode, hm, rfl, hfound, hrecord⟩ := hmisfits
  have hpublish : (dispatch managed packet : Act (Watched ω) Unit) = handlePublish packet := by
    rw [dispatch, htype]
  have hillegal : σ.session.exchanges.onAck id m.qos.firstAck .sent = .error .illegalState := by
    rcases hvalid.onAck_first hfound hm with ⟨hillegal, -⟩ | ⟨-, hfits⟩
    · exact hillegal
    · exact absurd hrecord hfits
  rw [hpublish, runOn_handlePublish hdecode hm, if_pos (Option.isSome_of_eq_some hfound)] at h
  obtain ⟨calls, hcalls, hreported, hends⟩ :=
    sendAck_ends rfl (Message.id_ne_zero_of_decode hdecode hm) h
  refine ⟨calls ++ trackCalls, ?_, ?_, ?_⟩
  · rw [hcalls, Watched.calls_trackedHost, List.append_assoc]
  · rw [reported_append, hreported, reported_trackCalls]
    rfl
  · rw [written_append, written_trackCalls, List.nil_append]
    rcases hends with ⟨hr, hsession, hfront⟩ | ⟨hwritten, hnoted⟩
    · exact ⟨by rw [hsession], .inr ⟨hr, hfront⟩⟩
    rcases hnoted with ⟨next, hnote, -⟩ | ⟨fault, hnote, hr, hsame⟩
    · cases hillegal.symm.trans hnote
    · cases hillegal.symm.trans hnote
      exact ⟨hsame, .inl ⟨hr, hwritten⟩⟩

end Session

/-! ## Runs -/

variable {ω : Type} [Host ω]

/-- **Acknowledgements that are refused.** If a message misfits, its acknowledgement goes out, and
then the call fails with `illegalState`: the message is not reported and no exchange changes. A call
that fails so for any other packet has written nothing for it, and all acknowledgements that are
sent are ones that the table takes once it knows of the packet. -/
theorem run_notes_acks {steps : List (Step ω)} {s : Step ω} {managed : Bool} {packet : Packet}
    {υ : Scene (Watched ω)} (hrun : IsRun steps)
    (hnew : ∀ s ∈ steps.head?, ∃ capacity m n version settings,
      s.before.session = .create capacity (.empty m n) version settings)
    (hs : s ∈ steps) (hcall : s.call = .receive managed)
    (hdispatches : Session.Dispatches managed packet s.before υ) :
    ∃ before after k, s.calls = after ++ before ∧ written before = Ping.request.take k ∧
      (∀ ack id, s.before.session.Misfits packet ack id →
        reported after = [] ∧ s.after.session.exchanges = s.before.session.exchanges ∧
          (s.result = .error .illegalState ∧ written after = Ack.wire ack id ∨
            s.result = .error .sendFailed ∧ written after <+: Ack.wire ack id)) ∧
      ((∀ ack id, ¬s.before.session.Misfits packet ack id) →
        (s.result = .error .illegalState →
          written after = [] ∧ s.after.session.exchanges = s.before.session.exchanges) ∧
        (s.result ≠ .error .sendFailed → written after ≠ [] →
          ∃ ack id request next, request.Arrival id ∧ (∃ a, s.result = .ok a) ∧
            written after = Ack.wire ack id ∧
            (s.before.session.exchanges.after request).onAck id ack .sent =
              .ok (next, s.after.session.exchanges))) := by
  have hvalid := valid_of_isRun hrun hnew s hs
  obtain ⟨call, σ, result, τ, hperform⟩ := s
  cases hcall
  obtain ⟨r, hreceive, rfl⟩ := Act.runOn_bind_pure_inv hperform
  obtain ⟨hversion, hnegotiated, hexchanges, k, before, hbefore, -, hping⟩ :=
    Session.arrive_keeps hdispatches.arrives
  obtain ⟨r', τ', later, hdispatch, rfl, hsame, hlater, hwritten, hreported⟩ :=
    hdispatches.receive_inv hreceive
  have hmisfits : ∀ ack id, υ.session.Misfits packet ack id ↔ σ.session.Misfits packet ack id := by
    intro ack id
    rw [Session.Misfits, Session.Misfits, hversion, hnegotiated, hexchanges]
  have hυ : υ.session.exchanges.Valid := hexchanges ▸ hvalid
  obtain ⟨calls, hcalls, hacks⟩ := Session.dispatch_acks hυ hdispatch
  have hall : τ.host.calls = ((later ++ calls) ++ before) ++ σ.host.calls := by
    rw [hlater, hcalls, hbefore]
    simp only [List.append_assoc]
  refine ⟨before, later ++ calls, k, Step.calls_eq hall, hping, ?_, ?_⟩
  · intro ack id hmisfit
    obtain ⟨calls', hcalls', hsilent, hunchanged, hends⟩ :=
      Session.dispatch_misfit hυ ((hmisfits ack id).mpr hmisfit) hdispatch
    cases List.append_cancel_right (hcalls'.symm.trans hcalls)
    refine ⟨?_, hsame.trans (hunchanged.trans hexchanges), ?_⟩
    · rw [reported_append, hsilent, hreported]
      rfl
    · rw [written_append, hwritten, List.append_nil]
      rcases hends with ⟨rfl, hwrote⟩ | ⟨rfl, hfront⟩
      · exact .inl ⟨rfl, hwrote⟩
      · exact .inr ⟨rfl, hfront⟩
  · intro hfits
    have hnone : ∀ ack id, ¬υ.session.Misfits packet ack id := by
      intro ack id hmisfit
      exact hfits ack id ((hmisfits ack id).mp hmisfit)
    have hends := (hacks.append (fun _ => Progress.packet packet.firstByte) hwritten).append
      Answer.progress written_nil
    rw [hexchanges, ← hsame] at hends
    constructor
    · intro hillegal
      cases hends with
      | unwritten quiet same => exact ⟨quiet, same _ hillegal⟩
      | cut fails => cases fails.symm.trans hillegal
      | noted _ succeeds _ _ =>
        obtain ⟨a, ha⟩ := succeeds
        cases ha.symm.trans hillegal
      | refused misfits _ _ _ => exact absurd misfits (hnone _ _)
    · intro hsent hwrote
      cases hends with
      | unwritten quiet _ => exact absurd quiet hwrote
      | cut fails => exact absurd fails hsent
      | noted arrival succeeds wrote takes => exact ⟨_, _, _, _, arrival, succeeds, wrote, takes⟩
      | refused misfits _ _ _ => exact absurd misfits (hnone _ _)

/-- A message under identifier 9 to be delivered exactly once, and another one under the same
identifier to be delivered at least once. -/
def misfitting : List (Step Scripted) :=
  stepsFrom
    { session := .create 8 (.empty 1 1) .v311 {}
      host := { host := { incoming :=
        [0x20, 2, 0, 0, 0x34, 6, 0, 1, 97, 0, 9, 55, 0x32, 6, 0, 1, 97, 0, 9, 55] } } }
    [.connect { clientId := "c" } 1000, .receive false, .receive false]

/-- The second one. -/
def nineAtLeastOnce : Packet :=
  { firstByte := 0x32, remaining := 6, length := 2, data := [0, 1, 97, 0, 9, 55] }

/-- It is answered with a PUBACK, which the table refuses then. -/
theorem run_notes_acks_misfitting :
    ∃ s ∈ misfitting, s.before.session.status = .connected ∧ s.call = .receive false ∧
      s.before.session.exchanges.incoming = [⟨9, .exactlyOnce, .awaits .pubrel⟩] ∧
      s.before.session.Misfits nineAtLeastOnce .puback 9 ∧
      s.result = .error .illegalState ∧
      ∃ before after k, s.calls = after ++ before ∧ written before = Ping.request.take k ∧
        written after = Ack.wire .puback 9 ∧ reported after = [] ∧
        s.after.session.exchanges = s.before.session.exchanges := by
  obtain ⟨s, hs, hstatus, hcall, hrecords, hdecode, hfinds, hresult⟩ : ∃ s ∈ misfitting,
      s.before.session.status = .connected ∧ s.call = .receive false ∧
        s.before.session.exchanges.incoming = [⟨9, .exactlyOnce, .awaits .pubrel⟩] ∧
        Message.decode s.before.session.version s.before.session.negotiated nineAtLeastOnce =
          .ok (9, { topic := "a", payload := [55], qos := .atLeastOnce }) ∧
        Session.finds s = some (.ok (), some nineAtLeastOnce, true) ∧
        s.result = .error .illegalState := by decide +kernel
  have hnew : ∀ s ∈ misfitting.head?, ∃ capacity m n version settings,
      s.before.session = .create capacity (.empty m n) version settings := fun s hs =>
    ⟨8, 1, 1, .v311, {}, by rw [before_of_mem_head?_stepsFrom hs]⟩
  have hmisfits : s.before.session.Misfits nineAtLeastOnce .puback 9 :=
    ⟨by decide, _, ⟨9, .exactlyOnce, .awaits .pubrel⟩, hdecode, rfl, rfl, by rw [hrecords]; rfl,
      .inl (by decide)⟩
  obtain ⟨υ, hdispatches, -⟩ := Session.dispatches_of_finds hfinds
  obtain ⟨before, after, k, hcalls, hping, hmisfit, -⟩ :=
    run_notes_acks (isRun_stepsFrom _ _) hnew hs hcall hdispatches
  obtain ⟨hreported, hsame, ⟨-, hwritten⟩ | ⟨hfailed, -⟩⟩ := hmisfit .puback 9 hmisfits
  · exact ⟨s, hs, hstatus, hcall, hrecords, hmisfits, hresult, before, after, k, hcalls, hping,
      hwritten, hreported, hsame⟩
  · cases hresult.symm.trans hfailed

end MqttClient
