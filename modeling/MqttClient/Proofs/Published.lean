import MqttClient.Proofs.Connecting
import MqttClient.Proofs.Exchange.Independence
import MqttClient.Proofs.Publishing
import MqttClient.Proofs.Sinks
import MqttClient.Proofs.Wire.Frames

/-!
# Packet and record

Publishing changes two things, the far end of the stream and the table of exchanges, in four stages
of which each may fail. After it has succeeded the two agree: the far end has got the packet of the
message and nothing else, and the table has the record of the message and no other change. After a
failure to send, the far end has got a front part of the packet, and the table has a reserved record
at most (`Session.publish_exact`).
-/
namespace MqttClient

/-! ## The packet -/

namespace Message
variable {version : Version} {m : Message} {id : UInt16} {size : PacketSize} {max : UInt32}
  {spans : List Bytes}

/-- The spans of a message are what is written for it into any room that is large enough. -/
theorem serialize_of_spans {room : ℕ} (hsize : m.size version max = .ok size)
    (hspans : m.spans version id size = .ok spans) (hroom : size.total ≤ room) :
    m.serialize version id size room = .ok spans.flatten := by
  have hid : m.qos.isTracked = true → id ≠ 0 := by
    intro htracked hzero
    rw [Message.spans, if_pos ⟨htracked, hzero⟩] at hspans
    cases hspans
  obtain ⟨spans', hspans', hform⟩ := spans_eq hsize hid
  cases hspans.symm.trans hspans'
  have hlength : spans.flatten.length = size.total := by
    rw [hform]
    exact (counts hsize id).length_form _
  rw [serialize, if_neg (Nat.not_lt.mpr hroom), hspans]
  change Layout.fit room spans = .ok spans.flatten
  rw [Layout.fit, if_neg (by omega)]

theorem size_error {fault : Fault} (h : m.size version max = .error fault) :
    fault = .badParameter := by
  rw [size] at h
  split at h
  · exact PacketSize.checked_error h
  · cases h
    rfl

end Message

/-! ## The record -/

namespace ExchangeTable
variable {t t' : ExchangeTable} {m : Message} {id : UInt16}

/-- The table with which a message is sent has a reserved record more, or it is the same. -/
theorem openFor_cases (h : t.openFor m id = .ok t') :
    t' = t ∨ Record.find? id t.outgoing = none ∧
      t' = { t with outgoing := t.outgoing ++ [⟨id, m.qos, .reserved⟩] } := by
  rcases openFor_inv h with hreserve | ⟨-, hsame, -⟩
  · obtain ⟨-, -, hfree, -, hopened⟩ := reserve_inv hreserve
    exact .inr ⟨hfree, hopened⟩
  · exact .inl hsame

/-- No table fails as a stream does. -/
theorem openFor_error {fault : Fault} (h : t.openFor m id = .error fault) :
    fault ≠ .sendFailed := by
  intro hfault
  subst hfault
  rw [openFor, reserve_eq] at h
  by_cases hdup : m.dup = true <;> split_ifs at h <;> simp [hdup] at h

/-- The record of a message that has been sent. -/
theorem find?_of_onPublishSent {qos : QoS} {state : ExchangeState}
    (hqos : qos.isTracked = true) (h : t.onPublishSent id qos = .ok (state, t')) :
    Record.find? id t'.outgoing = some ⟨id, qos, .opening .sent qos⟩ ∧
      ∃ next, t' = { t with outgoing := Record.settle id next t.outgoing } := by
  have hnext : ExchangeState.opening .sent qos ≠ .complete := by
    cases qos <;> simp [QoS.isTracked, ExchangeState.opening] at hqos ⊢
  rw [onPublishSent] at h
  cases hfound : Record.find? id t.outgoing with
  | none =>
    rw [hfound] at h
    cases h
  | some r =>
    simp only [hfound] at h
    by_cases hallowed : r.qos = qos ∧ r.state.canPublish = true
    · rw [if_pos hallowed] at h
      cases h
      have hid : r.id = id := by simpa using List.find?_some hfound
      refine ⟨?_, _, rfl⟩
      rw [Record.find?_settle_self hnext hfound, ← hid, ← hallowed.1]
    · rw [if_neg hallowed] at h
      cases h

/-- A table has the record of a message that was sent, and is otherwise as another one was. -/
structure Records (t : ExchangeTable) (m : Message) (id : UInt16) (t' : ExchangeTable) :
    Prop where
  untracked : m.qos.isTracked = false → t' = t
  tracked : m.qos.isTracked = true →
    Record.find? id t'.outgoing = some ⟨id, m.qos, .opening .sent m.qos⟩
  others : Record.drop id t'.outgoing = Record.drop id t.outgoing
  incoming : t'.incoming = t.incoming

/-- A table has a reserved record of a message more than another one, at most. -/
def Attempts (t : ExchangeTable) (m : Message) (id : UInt16) (t' : ExchangeTable) : Prop :=
  t' = t ∨ m.qos.isTracked = true ∧ Record.find? id t.outgoing = none ∧
    t' = { t with outgoing := t.outgoing ++ [⟨id, m.qos, .reserved⟩] }

theorem attempts_of_openFor (hm : m.qos.isTracked = true) (h : t.openFor m id = .ok t') :
    t.Attempts m id t' := by
  rcases openFor_cases h with hsame | ⟨hfree, hopened⟩
  · exact .inl hsame
  · exact .inr ⟨hm, hfree, hopened⟩

/-- What is opened for a message and then told that it was sent has its record. -/
theorem records_of_onPublishSent {t'' : ExchangeTable} {state : ExchangeState}
    (hm : m.qos.isTracked = true) (hopen : t.openFor m id = .ok t')
    (h : t'.onPublishSent id m.qos = .ok (state, t'')) : t.Records m id t'' := by
  obtain ⟨hfound, next, rfl⟩ := find?_of_onPublishSent hm h
  refine ⟨fun huntracked => by simp [hm] at huntracked, fun _ => hfound, ?_, ?_⟩
  · rw [Record.drop_settle]
    rcases openFor_cases hopen with rfl | ⟨-, rfl⟩
    · rfl
    · simp [Record.drop]
  · rcases openFor_cases hopen with rfl | ⟨-, rfl⟩ <;> rfl

end ExchangeTable

/-! ## Publishing -/

namespace Sink
variable {ω : Type} [Host ω] {s : Sink ω}

/-- The far end gets what publishing writes, if updates of the exchanges bring it nothing. -/
theorem Truthful.publish_accepts (hs : s.Truthful)
    (htracking : ∀ h, s.Works h → s.Still h (Host.tracking h)) (m : Message) (id : UInt16) :
    Act.Keeps s.Accepts (Session.publish m id) := by
  have hstill : ∀ σ : Scene (Watched ω), s.Accepts σ { σ with host := Act.trackedHost σ.host } := by
    intro σ hworks
    have henter := hs.enter _ hworks
    have htrack := htracking _ henter.works
    have hexit := hs.exit _ htrack.works
    refine ⟨hexit.works, trackCalls, Watched.calls_trackedHost σ.host, ?_⟩
    rw [written_trackCalls, List.append_nil]
    exact hexit.accepted.trans (htrack.accepted.trans henter.accepted)
  have htrack : ∀ {α : Type} (step : ExchangeTable → Except Fault (α × ExchangeTable)),
      Act.Keeps s.Accepts (Act.track step) := by
    intro α step
    exact .track (fun σ _ _ _ => hstill σ) hstill
  have htransmit : ∀ spans, Act.Keeps s.Accepts (Session.transmit m id spans) := by
    intro spans
    have hopen : Act.Keeps s.Accepts (Session.openOutgoing m id) := by
      refine (htrack _).bind fun result => ?_
      split
      · exact .pure _
      · exact .ite (.pure _) (.throw _)
    exact hopen.bind fun _ => (hs.send_accepts spans).bind fun _ =>
      (htrack _).bind fun _ => (Act.Keeps.ofResult _).bind fun _ => .pure _
  intro σ r τ h
  rw [Session.runOn_publish] at h
  cases hlayOut : σ.session.layOut m id with
  | error fault =>
    rw [hlayOut] at h
    cases h
    exact refl_of s.Accepts σ
  | ok spans =>
    simp only [hlayOut] at h
    exact Act.Keeps.ite (htransmit spans) (hs.send_accepts spans) σ r τ h

end Sink

namespace Session
variable {ω : Type} [Host ω] {m : Message} {id : UInt16} {σ τ : Scene (Watched ω)}
  {r : Except Fault Unit}

/-- A packet is the PUBLISH of a message: the message can be published under the limits of the
broker, and this is what is written for it into any room that is large enough. -/
def IsPacketOf (s : Session) (m : Message) (id : UInt16) (packet : Bytes) : Prop :=
  ∃ size, m.size s.version s.negotiated.serverMaxPacketSize = .ok size ∧
    ∀ room, size.total ≤ room → m.serialize s.version id size room = .ok packet

theorem isPacketOf_of_layOut {s : Session} {spans : List Bytes} (h : s.layOut m id = .ok spans) :
    s.IsPacketOf m id spans.flatten := by
  rw [layOut] at h
  split at h
  · cases h
  · obtain ⟨size, hsize, hspans⟩ := bind_eq_ok.mp h
    exact ⟨size, hsize, fun room hroom => Message.serialize_of_spans hsize hspans hroom⟩

/-- A message that cannot be laid out is the fault of the caller. -/
theorem layOut_error {s : Session} {fault : Fault} (h : s.layOut m id = .error fault) :
    fault = .badParameter := by
  rw [layOut] at h
  by_cases hmay : s.mayPublish m id = true
  · simp only [hmay, Bool.not_true, Bool.false_eq_true, if_false] at h
    change (m.size s.version s.negotiated.serverMaxPacketSize >>= fun size =>
      m.spans s.version id size) = .error fault at h
    cases hsize : m.size s.version s.negotiated.serverMaxPacketSize with
    | error fault' =>
      rw [hsize] at h
      cases h
      exact Message.size_error hsize
    | ok size =>
      have hid : m.qos.isTracked = true → id ≠ 0 := by
        intro htracked hzero
        simp [mayPublish, htracked, hzero] at hmay
      obtain ⟨spans, hspans, -⟩ := Message.spans_eq hsize hid
      rw [hsize] at h
      cases hspans.symm.trans h
  · simp only [hmay, Bool.not_false, if_true] at h
    cases h
    rfl

/-- What `transmit` has written and noted when the message has been sent, or sending has failed. -/
theorem transmit_exact {spans : List Bytes} (hm : m.qos.isTracked = true)
    (h : (transmit m id spans).runOn σ = some (r, τ))
    (hends : r = .ok () ∨ r = .error .sendFailed) :
    ∃ k calls, τ.host.calls = calls ++ σ.host.calls ∧ written calls = spans.flatten.take k ∧
      (r = .ok () → k = spans.flatten.length ∧
        σ.session.exchanges.Records m id τ.session.exchanges) ∧
      (r = .error .sendFailed → σ.session.exchanges.Attempts m id τ.session.exchanges) := by
  rcases transmit_inv h with ⟨fault, hopen, hr, -⟩ | ⟨exchanges, k, calls, hopen, hsend, -, hend⟩
  · have hfault := ExchangeTable.openFor_error hopen
    rcases hends with hok | hfailed
    · cases hok.symm.trans hr
    · cases hfailed.symm.trans hr
      exact absurd rfl hfault
  rcases hend with ⟨hr, hsession, hcalls⟩ | ⟨hk, hcalls, hend⟩
  · refine ⟨k, calls ++ trackCalls, hcalls, ?_, ?_, ?_⟩
    · rw [written_append, written_trackCalls, List.nil_append, hsend.taken]
    · intro hok
      cases hok.symm.trans hr
    · intro _
      rw [hsession]
      exact ExchangeTable.attempts_of_openFor hm hopen
  · refine ⟨k, trackCalls ++ calls ++ trackCalls, hcalls, ?_, ?_⟩
    · rw [written_append, written_append, hsend.taken]
      simp
    · rcases hend with ⟨state, t, hpublish, hr, hexchanges⟩ | ⟨fault, hpublish, hr, -⟩
      · rw [ExchangeTable.onPublish_sent _ _ (QoS.ne_atMostOnce_of_isTracked hm)] at hpublish
        constructor
        · intro _
          rw [hexchanges]
          exact ⟨hk, ExchangeTable.records_of_onPublishSent hm hopen hpublish⟩
        · intro hfailed
          cases hfailed.symm.trans hr
      · exfalso
        have hillegal := ExchangeTable.onPublish_sent_error hpublish
        rcases hends with hok | hfailed
        · cases hok.symm.trans hr
        · cases hfailed.symm.trans hr
          cases hillegal

/-- **Packet and record.** A call that has published a message has brought the far end of a
truthful stream its packet, no byte more and none less, and the table its record. When sending has
failed, the far end has got a front part of the packet, and the table has at most been opened. -/
theorem publish_exact {s : Sink ω} (hs : s.Truthful)
    (htracking : ∀ h, s.Works h → s.Still h (Host.tracking h)) (hworks : s.Works σ.host.host)
    (h : (publish m id).runOn σ = some (r, τ)) (hends : r = .ok () ∨ r = .error .sendFailed) :
    ∃ packet bytes, σ.session.IsPacketOf m id packet ∧
      s.accepted τ.host.host = s.accepted σ.host.host ++ bytes ∧
      (r = .ok () → bytes = packet ∧ σ.session.exchanges.Records m id τ.session.exchanges) ∧
      (r = .error .sendFailed →
        bytes <+: packet ∧ σ.session.exchanges.Attempts m id τ.session.exchanges) := by
  obtain ⟨-, all, hall, haccepted⟩ := hs.publish_accepts htracking m id σ r τ h hworks
  rw [runOn_publish] at h
  cases hlayOut : σ.session.layOut m id with
  | error fault =>
    rw [hlayOut] at h
    obtain ⟨rfl, rfl⟩ := Prod.mk.inj (Option.some.inj h)
    cases layOut_error hlayOut
    rcases hends with hok | hfailed
    · cases hok
    · cases hfailed
  | ok spans =>
    simp only [hlayOut] at h
    obtain ⟨k, calls, hcalls, hwritten, hok, hfailed⟩ : ∃ k calls,
        τ.host.calls = calls ++ σ.host.calls ∧ written calls = spans.flatten.take k ∧
        (r = .ok () → k = spans.flatten.length ∧
          σ.session.exchanges.Records m id τ.session.exchanges) ∧
        (r = .error .sendFailed →
          σ.session.exchanges.Attempts m id τ.session.exchanges) := by
      by_cases hm : m.qos.isTracked = true
      · rw [if_pos hm] at h
        exact transmit_exact hm h hends
      · rw [if_neg hm] at h
        obtain ⟨k, calls, hcalls, hsend, -, hend⟩ := send_inv h
        have hsame : τ.session.exchanges = σ.session.exchanges := by
          rcases hend with ⟨-, -, t, hsession⟩ | ⟨-, hsession⟩ <;> rw [hsession]
        refine ⟨k, calls, hcalls, hsend.taken, ?_, fun _ => .inl hsame⟩
        intro hr
        rw [hsame]
        refine ⟨?_, fun _ => rfl, fun htracked => absurd htracked hm, rfl, rfl⟩
        rcases hend with ⟨-, hk, -⟩ | ⟨hfailed, -⟩
        · exact hk
        · cases hr.symm.trans hfailed
    have hsame : all = calls := List.append_cancel_right (hall.symm.trans hcalls)
    rw [hsame, hwritten] at haccepted
    refine ⟨spans.flatten, _, isPacketOf_of_layOut hlayOut, haccepted, ?_, ?_⟩
    · intro hr
      obtain ⟨rfl, hrecords⟩ := hok hr
      exact ⟨List.take_length, hrecords⟩
    · intro hr
      exact ⟨List.take_prefix k _, hfailed hr⟩

/-- A message that is taken byte by byte, and one of which the stream takes three bytes before a
write fails. -/
theorem publish_exact_greeting :
    let on (host : Scripted) : Scene (Watched Scripted) :=
      ⟨.create 8 (.empty 1 0) .v311 {}, { host }⟩
    let slow : Scripted := { writeLimit := some 1 }
    let broken : Scripted := { writes := [.move 3, .fail], gathers := true }
    (∃ τ, (publish greeting 3).runOn (on slow) = some (.ok (), τ) ∧
        (on slow).session.IsPacketOf greeting 3 (Scripted.sink.accepted τ.host.host) ∧
        Record.find? 3 τ.session.exchanges.outgoing =
          some ⟨3, .exactlyOnce, .opening .sent .exactlyOnce⟩) ∧
      ∃ τ packet, (publish greeting 3).runOn (on broken) = some (.error .sendFailed, τ) ∧
        (on broken).session.IsPacketOf greeting 3 packet ∧
        Scripted.sink.accepted τ.host.host <+: packet ∧
        (on broken).session.exchanges.Attempts greeting 3 τ.session.exchanges := by
  intro on slow broken
  have htracking : ∀ h, Scripted.sink.Works h → Scripted.sink.Still h (Host.tracking h) :=
    fun h hworks => Scripted.still_see_sink hworks rfl
  have hslow : Scripted.sink.Works slow := by simp [Scripted.sink, slow]
  have hbroken : Scripted.sink.Works broken := by simp [Scripted.sink, broken]
  constructor
  · have hends : ((publish greeting 3).runOn (on slow)).map Prod.fst = some (.ok ()) := by
      decide +kernel
    obtain ⟨⟨_, τ⟩, hrun, rfl⟩ := Option.map_eq_some_iff.mp hends
    obtain ⟨packet, bytes, hpacket, haccepted, hok, -⟩ :=
      publish_exact Scripted.truthful_sink htracking hslow hrun (.inl rfl)
    obtain ⟨rfl, hrecords⟩ := hok rfl
    exact ⟨τ, hrun, by rw [haccepted]; exact hpacket, hrecords.tracked rfl⟩
  · have hends : ((publish greeting 3).runOn (on broken)).map Prod.fst =
        some (.error .sendFailed) := by
      decide +kernel
    obtain ⟨⟨_, τ⟩, hrun, rfl⟩ := Option.map_eq_some_iff.mp hends
    obtain ⟨packet, bytes, hpacket, haccepted, -, hfailed⟩ :=
      publish_exact Scripted.truthful_sink htracking hbroken hrun (.inr rfl)
    obtain ⟨hfront, hattempts⟩ := hfailed rfl
    exact ⟨τ, packet, hrun, hpacket, by rw [haccepted]; exact hfront, hattempts⟩

end Session

end MqttClient
