import MqttClient.Proofs.Delivery
import MqttClient.Proofs.Outward
import MqttClient.Proofs.Runs
import MqttClient.Proofs.Silence

/-!
# No message twice in one exchange

A tracked message is reported only when its identifier is not tracked, and it is tracked from
then on until its exchange ends: until its last acknowledgement has been written and noted, or a
session is opened that the broker did not keep. So between two reports of one identifier an
exchange has ended, whatever else the program and the broker do, and whatever fails.
-/
namespace MqttClient
variable {ω : Type} {id id' : UInt16}

/-- The identifier under which a tracked message is reported. -/
def Event.trackedId? (event : Event) : Option UInt16 :=
  if event.message.any (·.qos.isTracked) then some event.packetId else none

/-- The identifiers of the tracked messages that calls report. -/
def told (calls : List HostCall) : List UInt16 := (reported calls).filterMap Event.trackedId?

theorem told_cons (c : HostCall) (calls : List HostCall) :
    told (c :: calls) = told calls ++ (c.event?.bind Event.trackedId?).toList := by
  rw [told, reported_cons, List.filterMap_append]
  cases c.event? with
  | none => rfl
  | some event => cases h : event.trackedId? <;> simp [told, h]

theorem told_append (later earlier : List HostCall) :
    told (later ++ earlier) = told earlier ++ told later := by
  rw [told, reported_append, List.filterMap_append]
  rfl

theorem told_eq_nil {calls : List HostCall} (h : reported calls = []) : told calls = [] := by
  rw [told, h]
  rfl

/-- Only sending an acknowledgement ends the exchange of an incoming message, and only one that
comes last in it. -/
theorem ExchangeState.onAck_complete {s : ExchangeState} {kind : AckKind} {direction : Direction}
    (h : onAck kind direction s = some .complete) (hside : kind.side direction = .incoming) :
    direction = .sent ∧ (kind = .puback ∨ kind = .pubcomp) := by
  cases kind <;> cases direction <;> cases hside
  case puback => exact ⟨rfl, .inl rfl⟩
  case pubcomp => exact ⟨rfl, .inr rfl⟩
  all_goals
    rw [onAck.eq_def] at h
    split at h <;> simp_all

namespace ExchangeTable
variable {t t' : ExchangeTable} {qos : QoS} {next : ExchangeState}

/-- A message of the broker is open under an identifier. -/
def Tracks (t : ExchangeTable) (id : UInt16) : Prop := (Record.find? id t.incoming).isSome

/-- An acknowledgement leaves all identifiers tracked, but for that of an exchange whose last
acknowledgement is sent. -/
theorem tracks_onAck {kind : AckKind} {direction : Direction}
    (h : t.onAck id kind direction = .ok (next, t')) (htracked : t.Tracks id') :
    t'.Tracks id' ∨
      id' = id ∧ direction = .sent ∧ (kind = .puback ∨ kind = .pubcomp) ∧ ¬t'.Tracks id := by
  obtain ⟨r, hfound, hnext, rfl⟩ := onAck_inv h
  cases hside : kind.side direction with
  | outgoing => exact .inl htracked
  | incoming =>
    rw [hside] at hfound
    by_cases hid : id' = id
    · subst hid
      by_cases hcomplete : next = .complete
      · subst hcomplete
        obtain ⟨hsent, hlast⟩ := ExchangeState.onAck_complete hnext hside
        refine .inr ⟨rfl, hsent, hlast, ?_⟩
        simp [Tracks, withRecords, records]
      · left
        have hsettled := Record.find?_settle_self hcomplete hfound
        exact Option.isSome_of_eq_some hsettled
    · left
      have hsame := Record.find?_settle_of_ne hid next t.incoming
      exact (congrArg Option.isSome hsame).trans htracked

/-- Opening the exchange of an incoming message. -/
theorem tracks_onPublish {state : ExchangeState} (hqos : qos ≠ .atMostOnce)
    (h : t.onPublish id .received qos = .ok (state, t')) :
    ¬t.Tracks id ∧ t'.Tracks id ∧ ∀ id', id' ≠ id → t.Tracks id' → t'.Tracks id' := by
  rw [onPublish_received t id hqos, onPublishReceived_eq] at h
  split_ifs at h with hfound hroom
  cases h
  have hnew : Record.find? id t.incoming = none := by simpa using hfound
  refine ⟨hfound, ?_, fun id' hid htracked => ?_⟩
  · exact Option.isSome_of_eq_some (Record.find?_append_self hnew rfl)
  · have hsame : Record.find? id' (t.incoming ++ [⟨id, qos, .opening .received qos⟩]) =
        Record.find? id' t.incoming := Record.find?_append_of_ne (Ne.symm hid)
    exact (congrArg Option.isSome hsame).trans htracked

/-- Opening one for a message of the client. -/
theorem tracks_reserve (h : t.reserve id' qos = .ok t') (htracked : t.Tracks id) :
    t'.Tracks id := by
  obtain ⟨-, -, -, -, rfl⟩ := reserve_inv h
  exact htracked

theorem tracks_onPublishSent {state : ExchangeState} (hqos : qos ≠ .atMostOnce)
    (h : t.onPublish id' .sent qos = .ok (state, t')) (htracked : t.Tracks id) :
    t'.Tracks id := by
  rw [onPublish_sent t id' hqos, onPublishSent] at h
  split at h
  · cases h
  · split_ifs at h
    cases h
    exact htracked

end ExchangeTable

/-! ## What calls tell -/

/-- Calls lead from one scene to the other, and tell of a message under `id` at most once, and
only where it was not tracked before them. -/
structure Told (id : UInt16) (σ τ : Scene (Watched ω)) (calls : List HostCall) : Prop where
  appended : τ.host.calls = calls ++ σ.host.calls
  once : (told calls).count id ≤ 1
  fresh : id ∈ told calls → ¬σ.session.exchanges.Tracks id

/-- Calls write the last acknowledgement of an open exchange, after all that they tell, and its
record is gone afterwards. -/
inductive Ends (id : UInt16) (σ τ : Scene (Watched ω)) (calls : List HostCall) : Prop where
  | intro {ack : AckKind} {earlier sent later : List HostCall}
    (last : ack = .puback ∨ ack = .pubcomp)
    (parts : calls = later ++ sent ++ earlier)
    (wasOpen : σ.session.exchanges.Tracks id ∨ id ∈ told earlier)
    (wrote : written sent = Ack.wire ack id)
    (untold : told (later ++ sent) = [])
    (dropped : ¬τ.session.exchanges.Tracks id)

/-- From one scene to the other, `id` stays tracked if it was, and is tracked if it was told. -/
def Opens (id : UInt16) (σ τ : Scene (Watched ω)) : Prop :=
  ∃ calls, Told id σ τ calls ∧
    (σ.session.exchanges.Tracks id ∨ id ∈ told calls → τ.session.exchanges.Tracks id)

/-- From one scene to the other, `id` stays tracked if it was, and is tracked if it was told,
unless its exchange ends. -/
def Orderly (id : UInt16) (σ τ : Scene (Watched ω)) : Prop :=
  ∃ calls, Told id σ τ calls ∧
    (σ.session.exchanges.Tracks id ∨ id ∈ told calls →
      τ.session.exchanges.Tracks id ∨ Ends id σ τ calls)

section
variable {σ υ τ : Scene (Watched ω)} {calls : List HostCall}

theorem Told.append {later : List HostCall} (h : Told id σ υ calls)
    (htracks : σ.session.exchanges.Tracks id ∨ id ∈ told calls → υ.session.exchanges.Tracks id)
    (hlater : Told id υ τ later) : Told id σ τ (later ++ calls) where
  appended := by rw [hlater.appended, h.appended, List.append_assoc]
  once := by
    rw [told_append, List.count_append]
    by_cases htold : id ∈ told later
    · -- It was not tracked in between, so it had not been told.
      have hnot : id ∉ told calls := fun hmem => hlater.fresh htold (htracks (.inr hmem))
      rw [List.count_eq_zero_of_not_mem hnot, Nat.zero_add]
      exact hlater.once
    · rw [List.count_eq_zero_of_not_mem htold]
      exact h.once
  fresh := by
    rw [told_append, List.mem_append]
    rintro (hmem | hmem) htracked
    · exact h.fresh hmem htracked
    · exact hlater.fresh hmem (htracks (.inl htracked))

/-- Calls that tell nothing. -/
theorem Told.of_untold (hcalls : τ.host.calls = calls ++ σ.host.calls) (h : told calls = []) :
    Told id σ τ calls where
  appended := hcalls
  once := by simp [h]
  fresh := by simp [h]

theorem Opens.of_untold (hcalls : τ.host.calls = calls ++ σ.host.calls) (h : told calls = [])
    (htracks : σ.session.exchanges.Tracks id → τ.session.exchanges.Tracks id) : Opens id σ τ :=
  ⟨calls, .of_untold hcalls h, by simpa [h] using htracks⟩

theorem Silent.opens (h : Silent σ τ) : Opens id σ τ := by
  obtain ⟨calls, hcalls, hreported⟩ := h.unheard
  refine .of_untold hcalls (told_eq_nil hreported) fun htracked => ?_
  rw [h.exchanges]
  exact htracked

theorem Opens.orderly (h : Opens id σ τ) : Orderly id σ τ := by
  obtain ⟨calls, htold, htracks⟩ := h
  exact ⟨calls, htold, fun hid => .inl (htracks hid)⟩

theorem Opens.trans (h : Opens id σ υ) (h' : Opens id υ τ) : Opens id σ τ := by
  obtain ⟨calls, htold, htracks⟩ := h
  obtain ⟨later, htold', htracks'⟩ := h'
  refine ⟨later ++ calls, htold.append htracks htold', ?_⟩
  rw [told_append, List.mem_append]
  rintro (hid | hid | hid)
  · exact htracks' (.inl (htracks (.inl hid)))
  · exact htracks' (.inl (htracks (.inr hid)))
  · exact htracks' (.inr hid)

/-- An exchange that ends later was open before. -/
theorem Ends.after {later : List HostCall} (h : Ends id υ τ later)
    (hopen : σ.session.exchanges.Tracks id ∨ id ∈ told (later ++ calls)) :
    Ends id σ τ (later ++ calls) := by
  cases h with
  | @intro ack earlier sent noting last parts wasOpen wrote untold dropped =>
    have hsplit : later ++ calls = noting ++ sent ++ (earlier ++ calls) := by
      rw [parts, List.append_assoc]
    refine .intro last hsplit ?_ wrote untold dropped
    rw [hsplit, told_append, untold, List.append_nil] at hopen
    exact hopen

theorem Opens.trans_orderly (h : Opens id σ υ) (h' : Orderly id υ τ) : Orderly id σ τ := by
  obtain ⟨calls, htold, htracks⟩ := h
  obtain ⟨later, htold', htracks'⟩ := h'
  refine ⟨later ++ calls, htold.append htracks htold', fun hid => ?_⟩
  have hυ : υ.session.exchanges.Tracks id ∨ id ∈ told later := by
    rw [told_append, List.mem_append, ← or_assoc] at hid
    exact hid.imp_left htracks
  exact (htracks' hυ).imp_right fun hends => hends.after hid

/-- Calls that tell nothing may follow the end of an exchange. -/
theorem Ends.before {later : List HostCall} (h : Ends id σ υ calls) (hlater : told later = [])
    (hexchanges : τ.session.exchanges = υ.session.exchanges) : Ends id σ τ (later ++ calls) := by
  cases h with
  | @intro ack earlier sent noting last parts wasOpen wrote untold dropped =>
    have hsplit : later ++ calls = later ++ noting ++ sent ++ earlier := by
      rw [parts]
      simp only [List.append_assoc]
    refine .intro last hsplit wasOpen wrote ?_ (hexchanges ▸ dropped)
    rw [List.append_assoc, told_append, untold, hlater]
    rfl

theorem Orderly.trans_silent (h : Orderly id σ υ) (h' : Silent υ τ) : Orderly id σ τ := by
  obtain ⟨calls, htold, htracks⟩ := h
  obtain ⟨later, hlater, hreported⟩ := h'.unheard
  have huntold := told_eq_nil hreported
  have hsame : told (later ++ calls) = told calls := by
    rw [told_append, huntold, List.append_nil]
  refine ⟨later ++ calls, ⟨?_, hsame ▸ htold.once, hsame ▸ htold.fresh⟩, fun hid => ?_⟩
  · rw [hlater, htold.appended, List.append_assoc]
  · rw [hsame] at hid
    rw [h'.exchanges]
    exact (htracks hid).imp_right fun hends => hends.before huntold h'.exchanges

end

instance (id : UInt16) : IsPreorder (Scene (Watched ω)) (Opens id) where
  refl σ := ⟨[], .of_untold rfl rfl, by simp [told]⟩
  trans _ _ _ h h' := h.trans h'

/-- What opens may go on as it ends. -/
theorem Act.Keeps.then_orderly {α β : Type} {act : Act (Watched ω) α} {f : α → Act (Watched ω) β}
    (h : Act.Keeps (Opens id) act) (hf : ∀ a, Act.Keeps (Orderly id) (f a)) :
    Act.Keeps (Orderly id) (act >>= f) :=
  h.seq hf (fun _ _ h => h.orderly) fun _ _ _ h h' => h.trans_orderly h'

/-- What has ended may go on in silence. -/
theorem Act.Keeps.then_silent {α β : Type} {act : Act (Watched ω) α} {f : α → Act (Watched ω) β}
    (h : Act.Keeps (Orderly id) act) (hf : ∀ a, Act.Keeps Silent (f a)) :
    Act.Keeps (Orderly id) (act >>= f) :=
  h.seq hf (fun _ _ h => h) fun _ _ _ h h' => h.trans_silent h'

theorem Act.Keeps.opens {α : Type} {act : Act (Watched ω) α} (h : Act.Keeps Silent act) :
    Act.Keeps (Opens id) act := h.mono fun _ _ h => h.opens

theorem Act.Keeps.orderly {α : Type} {act : Act (Watched ω) α} (h : Act.Keeps (Opens id) act) :
    Act.Keeps (Orderly id) act := h.mono fun _ _ h => h.orderly

variable [Host ω]

theorem silent_track (σ : Scene (Watched ω)) :
    Silent σ { σ with host := Act.trackedHost σ.host } :=
  ⟨rfl, trackCalls, rfl, rfl⟩

/-- An update of the exchanges that drops no message of the broker. -/
theorem Act.Keeps.opens_track {α : Type} {step : ExchangeTable → Except Fault (α × ExchangeTable)}
    (h : ∀ t a t', step t = .ok (a, t') → t.Tracks id → t'.Tracks id) :
    Act.Keeps (@Opens ω id) (Act.track step) :=
  .track (fun σ _ _ hstep => .of_untold (Watched.calls_trackedHost σ.host) rfl (h _ _ _ hstep))
    fun σ => (silent_track σ).opens

namespace Session

/-- Sending an acknowledgement passes in silence, unless all of it is written and noted. -/
theorem sendAck_cases {σ τ : Scene (Watched ω)} {state : ExchangeState} {r : Except Fault Unit}
    (h : (sendAck id' state).runOn σ = some (r, τ)) :
    Silent σ τ ∨ ∃ ack next calls, state.ackToSend = some ack ∧
      σ.session.exchanges.onAck id' ack .sent = .ok (next, τ.session.exchanges) ∧
      τ.host.calls = calls ++ σ.host.calls ∧
      reported calls = [] ∧ written calls = Ack.wire ack id' := by
  cases hack : state.ackToSend with
  | none =>
    rw [sendAck_of_none hack] at h
    cases h
    exact .inl (refl_of Silent σ)
  | some ack =>
    by_cases hid : id' = 0
    · rw [hid, sendAck_zero hack] at h
      cases h
      exact .inl (refl_of Silent σ)
    · obtain ⟨calls, hcalls, hreported, ⟨-, hsession, -⟩ | ⟨hwritten, hnoted⟩⟩ :=
        sendAck_ends hack hid h
      · exact .inl ⟨by rw [hsession], calls, hcalls, hreported⟩
      · rcases hnoted with ⟨next, hnote, -⟩ | ⟨fault, -, -, hsame⟩
        · exact .inr ⟨ack, next, calls, rfl, hnote, hcalls, hreported, hwritten⟩
        · exact .inl ⟨hsame, calls, hcalls, hreported⟩

/-- Sending an acknowledgement tells nothing, and ends no exchange but the one under its
identifier. -/
theorem sendAck_orderly (id id' : UInt16) (state : ExchangeState) :
    Act.Keeps (@Orderly ω id) (sendAck id' state) := by
  intro σ r τ hrun
  rcases sendAck_cases hrun with
    hsilent | ⟨ack, next, calls, -, hnote, hcalls, hreported, hwrote⟩
  · exact hsilent.opens.orderly
  have huntold : told calls = [] := told_eq_nil hreported
  refine ⟨calls, .of_untold hcalls huntold, ?_⟩
  rw [huntold]
  rintro (htracked | hmem)
  · refine (ExchangeTable.tracks_onAck hnote htracked).imp_right ?_
    rintro ⟨rfl, -, hlast, hdropped⟩
    have hparts : calls = [] ++ calls ++ [] := (List.append_nil _).symm
    exact .intro hlast hparts (.inl htracked) hwrote huntold hdropped
  · cases hmem

/-- A PUBREL ends no exchange of an incoming message. -/
theorem sendPubrel_opens (id id' : UInt16) :
    Act.Keeps (@Opens ω id) (sendAck id' (.owes .pubrel)) := by
  intro σ r τ hrun
  rcases sendAck_cases hrun with hsilent | ⟨ack, next, calls, hack, hnote, hcalls, hreported, -⟩
  · exact hsilent.opens
  cases hack
  refine .of_untold hcalls (told_eq_nil hreported) fun htracked => ?_
  rcases ExchangeTable.tracks_onAck hnote htracked with htracks | ⟨-, -, hlast, -⟩
  · exact htracks
  · rcases hlast with hlast | hlast <;> cases hlast

/-! ## Handling packets -/

/-- A packet that is not a tracked message may be reported at any time. -/
theorem report_opens {event : Event} (h : event.trackedId? = none) :
    Act.Keeps (@Opens ω id) (report event) := by
  have huntold : told [.notify event] = [] := by simp [told, HostCall.event?, h]
  refine .hostDo fun σ => .of_untold ?_ huntold fun htracked => htracked
  exact Watched.calls_notify event σ.host

theorem settleAck_opens (id' : UInt16) (ack : AckKind) (verdict : Verdict) :
    Act.Keeps (@Opens ω id) (settleAck id' ack verdict) := by
  rw [settleAck]
  refine .ite ((Act.Keeps.opens_track ?_).bind fun _ => .ofResult _)
    ((Act.Keeps.opens_track ?_).bind fun _ => .ofResult _)
  · rintro t state _ ⟨⟩ htracked
    exact htracked
  · intro t state t' hstep htracked
    rcases ExchangeTable.tracks_onAck hstep htracked with htracks | ⟨-, hdirection, -⟩
    · exact htracks
    · cases hdirection

theorem handleAck_orderly (packet : Packet) (kind : AckKind) :
    Act.Keeps (@Orderly ω id) (handleAck packet kind) := by
  refine Act.Keeps.session.then_orderly fun s => (Act.Keeps.ofResult _).then_orderly fun ack => ?_
  split
  · exact (Act.Keeps.throw _).orderly
  · exact (settleAck_opens _ _ _).then_orderly fun state => (report_opens rfl).then_orderly
      fun _ => sendAck_orderly _ _ _

theorem handlePingresp_opens (managed : Bool) (packet : Packet) :
    Act.Keeps (@Opens ω id) (handlePingresp managed packet) :=
  (Act.Keeps.ofResult _).bind fun _ =>
    .ite (Act.Keeps.silent_change fun _ => by rfl).opens (report_opens rfl)

theorem handleSuback_opens (packet : Packet) :
    Act.Keeps (@Opens ω id) (handleSuback packet) := by
  refine Act.Keeps.session.bind fun s => (Act.Keeps.ofResult _).bind fun suback => ?_
  split
  · exact .throw _
  · exact report_opens rfl

theorem handleDisconnect_opens (packet : Packet) :
    Act.Keeps (@Opens ω id) (handleDisconnect packet) :=
  (Act.Keeps.ofResult _).bind fun _ => (report_opens rfl).bind fun _ =>
    (Act.Keeps.silent_change fun _ => by rfl).opens

/-- A new message is tracked before it is told. -/
theorem opens_new {σ : Scene (Watched ω)} {event : Event} {qos : QoS} {state : ExchangeState}
    {exchanges : ExchangeTable} (hqos : qos ≠ .atMostOnce)
    (hevent : event.trackedId? = some id')
    (h : σ.session.exchanges.onPublish id' .received qos = .ok (state, exchanges)) :
    Opens id σ ⟨{ σ.session with exchanges }, Host.notify event (Act.trackedHost σ.host)⟩ := by
  obtain ⟨hfresh, htracks, hothers⟩ := ExchangeTable.tracks_onPublish hqos h
  have htold : told (.notify event :: trackCalls) = [id'] := by
    rw [told_cons, told_eq_nil reported_trackCalls]
    simp [HostCall.event?, hevent]
  refine ⟨.notify event :: trackCalls, ⟨rfl, ?_, ?_⟩, ?_⟩
  · rw [htold]
    exact List.count_le_length
  · rw [htold, List.mem_singleton]
    rintro rfl
    exact hfresh
  · rw [htold, List.mem_singleton]
    by_cases hid : id = id'
    · rw [hid]
      exact fun _ => htracks
    · exact fun hopen => hothers id hid (hopen.resolve_right hid)

/-- An incoming message is told when it opens an exchange, and not when it finds one open. -/
theorem handlePublish_orderly (packet : Packet) :
    Act.Keeps (@Orderly ω id) (handlePublish packet) := by
  refine Act.Keeps.session.then_orderly fun s => (Act.Keeps.ofResult _).then_orderly fun found => ?_
  obtain ⟨id', m⟩ := found
  by_cases hqos : m.qos = .atMostOnce
  · have hopen : (openIncoming id' m.qos : Act (Watched ω) _) = pure (.complete, true) := by
      rw [openIncoming, if_pos hqos]
    simp only [hopen, pure_bind, if_true]
    exact (report_opens (by simp [Event.trackedId?, hqos, QoS.isTracked])).then_orderly
      fun _ => sendAck_orderly _ _ _
  intro σ r τ hrun
  have hstep := ExchangeTable.onPublishReceived_eq σ.session.exchanges id' m.qos
  rw [← ExchangeTable.onPublish_received _ id' hqos] at hstep
  split_ifs at hstep with hfound hroom
  · rw [Act.runOn_bind_of_ok (openIncoming_again hqos hstep)] at hrun
    exact (silent_track σ).opens.trans_orderly (sendAck_orderly _ _ _ _ _ _ hrun)
  · rw [Act.runOn_bind_of_ok (openIncoming_new hqos hstep)] at hrun
    simp only [if_true] at hrun
    rw [report, Act.runOn_bind_of_ok (Act.runOn_hostDo _ _)] at hrun
    have hm : m.qos.isTracked = true := by
      cases hm : m.qos with
      | atMostOnce => exact absurd hm hqos
      | _ => rfl
    exact (opens_new hqos (by simp [Event.trackedId?, hm]) hstep).trans_orderly
      (sendAck_orderly _ _ _ _ _ _ hrun)
  · rw [Act.runOn_bind_of_error (openIncoming_noRoom hqos hstep)] at hrun
    cases hrun
    exact (silent_track σ).opens.orderly

theorem dispatch_orderly (managed : Bool) (packet : Packet) :
    Act.Keeps (@Orderly ω id) (dispatch managed packet) := by
  rw [dispatch]
  split
  · exact handlePublish_orderly packet
  · exact handleAck_orderly packet _
  · exact handleAck_orderly packet _
  · exact handleAck_orderly packet _
  · exact handleAck_orderly packet _
  · exact (handlePingresp_opens managed packet).orderly
  · exact (handleSuback_opens packet).orderly
  · exact (handleSuback_opens packet).orderly
  · exact (Act.Keeps.session.bind fun _ => .ite (handleDisconnect_opens packet) (.throw _)).orderly
  · exact (Act.Keeps.throw _).orderly

/-! ## Calls -/

theorem handleFront_orderly (managed : Bool) (header : Header) :
    Act.Keeps (@Orderly ω id) (handleFront managed header) :=
  Act.Keeps.session.then_orderly fun _ =>
    (Act.Keeps.outcome (dispatch_orderly managed _)).then_silent fun _ =>
      (Act.Keeps.silent_change fun _ => by rfl).bind fun _ => (Act.Keeps.ofResult _).bind fun _ =>
        Act.Keeps.silent_now.bind fun _ =>
          (Act.Keeps.silent_change fun _ => by rfl).bind fun _ => .pure _

theorem handleBuffered_orderly (managed : Bool) :
    Act.Keeps (@Orderly ω id) (handleBuffered managed) := by
  refine Act.Keeps.session.then_orderly fun s => .ite (Act.Keeps.pure _).orderly ?_
  split
  · exact (Act.Keeps.pure _).orderly
  · exact (Act.Keeps.throw _).orderly
  · exact .ite ((inward_silent.discard _).bind fun _ => .pure _).opens.orderly
      (.ite (Act.Keeps.pure _).orderly (handleFront_orderly managed _))

theorem receive_orderly (managed : Bool) :
    Act.Keeps (@Orderly ω id) (receive managed) := by
  rw [receive_eq]
  exact (arrive_silent managed).opens.then_orderly fun _ => handleBuffered_orderly managed

theorem openOutgoing_opens (m : Message) (id' : UInt16) :
    Act.Keeps (@Opens ω id) (openOutgoing m id') := by
  refine (Act.Keeps.opens_track ?_).bind fun result => ?_
  · intro t _ t' hstep
    cases hreserve : t.reserve id' m.qos with
    | error fault =>
      rw [hreserve] at hstep
      cases hstep
    | ok t'' =>
      rw [hreserve] at hstep
      cases hstep
      exact ExchangeTable.tracks_reserve hreserve
  · split
    · exact .pure _
    · exact .ite (.pure _) (.throw _)

theorem publish_opens (m : Message) (id' : UInt16) :
    Act.Keeps (@Opens ω id) (publish m id') := by
  refine Act.Keeps.session.bind fun s => .check <| (Act.Keeps.ofResult _).bind fun size =>
    (Act.Keeps.ofResult _).bind fun spans => ?_
  by_cases hm : m.qos.isTracked = true
  · simp only [hm, if_true]
    refine (openOutgoing_opens m id').bind fun _ => (send_silent _).opens.bind fun _ =>
      (Act.Keeps.opens_track ?_).bind fun _ => (Act.Keeps.ofResult _).bind fun _ => .pure _
    exact fun _ _ _ => ExchangeTable.tracks_onPublishSent (QoS.ne_atMostOnce_of_isTracked hm)
  · simp only [if_neg hm]
    exact (send_silent _).opens.bind fun _ => .pure _

theorem resendPubrels_opens (n cursor : ℕ) :
    Act.Keeps (@Opens ω id) (resendPubrels n cursor) := by
  induction n generalizing cursor with
  | zero => exact .pure _
  | succ n ih =>
    rw [resendPubrels]
    refine Act.Keeps.session.bind fun s => ?_
    split
    · exact .pure _
    · exact (sendPubrel_opens _ _).bind fun _ => ih _

/-- A connection is taken up without a word, and all goes on as it was unless the broker did not
keep the session, which empties the table. -/
theorem connect_cases (id : UInt16) {c : Connect} {timeout : UInt32} {σ τ : Scene (Watched ω)}
    {r : Except Fault Bool} (h : (connect c timeout).runOn σ = some (r, τ)) :
    Opens id σ τ ∨ r = .ok false ∧ τ.session.exchanges = σ.session.exchanges.clear ∧
      ∃ calls, τ.host.calls = calls ++ σ.host.calls ∧ told calls = [] := by
  rw [connect_eq] at h
  rcases Act.runOn_bind_inv h with ⟨fault, hshake, -⟩ | ⟨present, υ, hshake, h⟩
  · exact .inl (handshake_silent c timeout σ _ τ hshake).opens
  have hsilent := handshake_silent c timeout σ _ υ hshake
  cases present with
  | true =>
    left
    have hopens : Act.Keeps (@Opens ω id) (do resume true; establish c; return true) := by
      refine Act.Keeps.bind ?_ fun _ => (establish_silent c).opens.bind fun _ => .pure _
      exact Act.Keeps.session.bind fun _ => resendPubrels_opens _ _
    exact hsilent.opens.trans (hopens υ r τ h)
  | false =>
    right
    have hclear : (resume false).runOn υ = some (.ok (),
        ⟨{ υ.session with exchanges := υ.session.exchanges.clear }, Act.trackedHost υ.host⟩) := by
      rw [resume]
      exact Act.runOn_bind_of_ok (Act.runOn_track_ok rfl) _
    obtain ⟨ρ, hestablish⟩ := runOn_establish c
      ⟨{ υ.session with exchanges := υ.session.exchanges.clear }, Act.trackedHost υ.host⟩
    rw [Act.runOn_bind_of_ok hclear, Act.runOn_bind_of_ok hestablish] at h
    cases h
    have hsilent' := establish_silent c _ _ τ hestablish
    obtain ⟨calls, hcalls, hreported⟩ := hsilent.unheard
    obtain ⟨later, hlater, hreported'⟩ := hsilent'.unheard
    refine ⟨rfl, ?_, later ++ trackCalls ++ calls, ?_, ?_⟩
    · rw [hsilent'.exchanges, hsilent.exchanges]
    · rw [hlater, Watched.calls_trackedHost, hcalls]
      simp only [List.append_assoc]
    · simp only [told_append, told_eq_nil hreported, told_eq_nil hreported',
        told_eq_nil reported_trackCalls, List.append_nil]

end Session

/-! ## Runs -/

/-- Every call but one to connect. -/
theorem Call.perform_orderly (call : Call) (h : ∀ c timeout, call ≠ .connect c timeout) :
    Act.Keeps (@Orderly ω id) call.perform := by
  cases call with
  | connect c timeout => exact absurd rfl (h c timeout)
  | publish m id' => exact ((Session.publish_opens m id').bind fun _ => .pure _).orderly
  | subscribe subscriptions properties id' =>
    exact ((Session.subscribe_keeps Session.send_silent _ _ _).bind fun _ => .pure _).opens.orderly
  | unsubscribe filters properties id' =>
    exact
      ((Session.unsubscribe_keeps Session.send_silent _ _ _).bind fun _ => .pure _).opens.orderly
  | disconnect => exact (Session.disconnect_silent.bind fun _ => .pure _).opens.orderly
  | disconnectWithReason reason properties =>
    exact ((Session.disconnectWithReason_silent _ _).bind fun _ => .pure _).opens.orderly
  | ping => exact (Session.ping_silent.bind fun _ => .pure _).opens.orderly
  | takePacketId =>
    exact (Act.Keeps.session.bind fun _ =>
      (Act.Keeps.silent_change fun _ => by rfl).bind fun _ => .pure _).opens.orderly
  | receive managed => exact (Session.receive_orderly managed).then_silent fun _ => .pure _

namespace Step

/-- How the exchange of an incoming message comes to its end in a step. -/
inductive Closes (s : Step ω) (id : UInt16) : Prop where
  /-- Its last acknowledgement has been written, and its record is dropped. -/
  | acknowledged (ends : Ends id s.before s.after s.calls)
  /-- The broker did not keep the session, and all exchanges are forgotten. -/
  | cleared {c : Connect} {timeout : UInt32} (connects : s.call = .connect c timeout)
    (accepted : s.result = .ok (.session false))
    (empty : s.after.session.exchanges = s.before.session.exchanges.clear)

theorem closes_of_orderly {s : Step ω} (h : Orderly id s.before s.after) :
    Told id s.before s.after s.calls ∧
      (s.before.session.exchanges.Tracks id ∨ id ∈ told s.calls →
        s.after.session.exchanges.Tracks id ∨ s.Closes id) := by
  obtain ⟨calls, htold, htracks⟩ := h
  rw [calls_eq htold.appended]
  refine ⟨htold, fun hopen => (htracks hopen).imp_right fun hends => .acknowledged ?_⟩
  rw [calls_eq htold.appended]
  exact hends

/-- What a step tells and tracks. -/
theorem closes (s : Step ω) (id : UInt16) :
    Told id s.before s.after s.calls ∧
      (s.before.session.exchanges.Tracks id ∨ id ∈ told s.calls →
        s.after.session.exchanges.Tracks id ∨ s.Closes id) := by
  obtain ⟨call, σ, r, τ, hrun⟩ := s
  by_cases hcall : ∃ c timeout, call = .connect c timeout
  · obtain ⟨c, timeout, rfl⟩ := hcall
    have hconnect : ∃ r', (Session.connect c timeout).runOn σ = some (r', τ) ∧
        (r' = .ok false → r = .ok (.session false)) := by
      rcases Act.runOn_bind_inv hrun with ⟨fault, hconnect, -⟩ | ⟨present, υ, hconnect, hrest⟩
      · exact ⟨_, hconnect, by simp⟩
      · cases hrest
        exact ⟨_, hconnect, by rintro ⟨⟩; rfl⟩
    obtain ⟨r', hconnect, hresult⟩ := hconnect
    rcases Session.connect_cases id hconnect with hopens | ⟨hkept, hclear, calls, hcalls, huntold⟩
    · exact closes_of_orderly hopens.orderly
    · refine ⟨?_, fun _ => .inr (.cleared rfl (hresult hkept) hclear)⟩
      rw [calls_eq hcalls]
      exact .of_untold hcalls huntold
  · have hother : ∀ c timeout, call ≠ .connect c timeout := fun c timeout h =>
      hcall ⟨c, timeout, h⟩
    exact closes_of_orderly (call.perform_orderly hother σ r τ hrun)

end Step

/-- An identifier that is tracked or told in the first step of a run is tracked where the last
begins, unless its exchange has come to its end before. -/
theorem tracks_of_isRun {first second : Step ω} {between : List (Step ω)}
    (hrun : IsRun (first :: (between ++ [second])))
    (hopen : first.before.session.exchanges.Tracks id ∨ id ∈ told first.calls) :
    second.before.session.exchanges.Tracks id ∨ ∃ s ∈ first :: between, s.Closes id := by
  induction between generalizing first with
  | nil =>
    have hfollows : second.before.session = first.after.session :=
      (List.isChain_cons_cons.mp hrun).1
    rw [hfollows]
    exact ((first.closes id).2 hopen).imp_right fun hcloses => ⟨first, by simp, hcloses⟩
  | cons next rest ih =>
    obtain ⟨hfollows, hrest⟩ := List.isChain_cons_cons.mp hrun
    rcases (first.closes id).2 hopen with htracks | hcloses
    · have hnext : next.before.session = first.after.session := hfollows
      rw [← hnext] at htracks
      refine (ih hrest (.inl htracks)).imp_right ?_
      rintro ⟨s, hs, hcloses⟩
      exact ⟨s, List.mem_cons_of_mem _ hs, hcloses⟩
    · exact .inr ⟨first, by simp, hcloses⟩

/-- **No message is told twice in one exchange.** In a run of any calls, with whatever arrives and
whatever fails, a step tells of a message under one identifier at most once; and between two steps
that do so, the exchange under the identifier has come to its end: the client has written all of a
PUBACK or PUBCOMP for it, after telling, and dropped its record, or it has connected to a broker
that did not keep the session, and forgotten all exchanges. -/
theorem run_tells_once {steps : List (Step ω)} (hrun : IsRun steps) (id : UInt16) :
    (∀ s ∈ steps, (told s.calls).count id ≤ 1) ∧
      ∀ earlier first between second later,
        steps = earlier ++ first :: (between ++ second :: later) →
        id ∈ told first.calls → id ∈ told second.calls →
        ∃ s ∈ first :: between, s.Closes id := by
  refine ⟨fun s _ => (s.closes id).1.once, ?_⟩
  rintro earlier first between second later rfl hfirst hsecond
  have hpart : IsRun (first :: (between ++ [second])) := by
    refine hrun.infix ⟨earlier, later, ?_⟩
    simp
  refine (tracks_of_isRun hpart (.inr hfirst)).resolve_left ?_
  exact (second.closes id).1.fresh hsecond

/-- A message under identifier 9 that comes, comes again, is released and comes anew. -/
def nineAnew : List (Step Scripted) :=
  stepsFrom
    { session := .create 8 (.empty 0 1) .v311 {}
      host := { host := { incoming := [0x34, 6, 0, 1, 97, 0, 9, 55, 0x3C, 6, 0, 1, 97, 0, 9, 55,
        0x62, 2, 0, 9, 0x34, 6, 0, 1, 97, 0, 9, 56] } } }
    [.receive false, .receive false, .receive false, .receive false]

theorem run_tells_once_nineAnew :
    ∃ first again released anew, nineAnew = [first, again, released, anew] ∧
      told first.calls = [9] ∧ told again.calls = [] ∧ told anew.calls = [9] ∧
      (first.Closes 9 ∨ again.Closes 9 ∨ released.Closes 9) := by
  have htold : nineAnew.map (fun s => told s.calls) = [[9], [], [], [9]] := by decide +kernel
  obtain ⟨first, _, hrun, hfirst, htold⟩ := List.map_eq_cons_iff.mp htold
  obtain ⟨again, _, rfl, hagain, htold⟩ := List.map_eq_cons_iff.mp htold
  obtain ⟨released, _, rfl, -, htold⟩ := List.map_eq_cons_iff.mp htold
  obtain ⟨anew, _, rfl, hanew, htold⟩ := List.map_eq_cons_iff.mp htold
  cases List.map_eq_nil_iff.mp htold
  obtain ⟨s, hs, hcloses⟩ := (run_tells_once (isRun_stepsFrom _ _) 9).2 [] first
    [again, released] anew [] hrun (by simp [hfirst]) (by simp [hanew])
  refine ⟨first, again, released, anew, hrun, hfirst, hagain, hanew, ?_⟩
  simp only [List.mem_cons, List.not_mem_nil, or_false] at hs
  rcases hs with rfl | rfl | rfl
  · exact .inl hcloses
  · exact .inr (.inl hcloses)
  · exact .inr (.inr hcloses)

end MqttClient
