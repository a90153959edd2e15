import MqttClient.Proofs.Alongside
import MqttClient.Proofs.Publishing
import MqttClient.Proofs.Requested

/-!
# Messages in flight

What bounds the messages that a client has in flight is the room in its table of exchanges: a
message under a new identifier is refused for their number just when the table is full
(`run_publishes_to_capacity`). How many the broker takes at once is negotiated and remembered, but
publishing does not look at it (`Session.publish_announcing`).
-/
namespace MqttClient

namespace ExchangeTable
variable {t : ExchangeTable} {m : Message} {id : UInt16}

/-- Where no exchange is open under the identifier, only the room for it counts. -/
theorem openFor_of_free (hid : id ≠ 0) (hm : m.qos.isTracked = true)
    (hfree : Record.find? id t.outgoing = none) :
    t.openFor m id = if t.outgoing.length < t.outgoingCapacity then
      .ok { t with outgoing := t.outgoing ++ [⟨id, m.qos, .reserved⟩] } else .error .noMemory := by
  have hargs : ¬(id = 0 ∨ m.qos = .atMostOnce) :=
    not_or.mpr ⟨hid, QoS.ne_atMostOnce_of_isTracked hm⟩
  rw [openFor, reserve_eq, if_neg hargs, hfree, if_neg (by simp)]
  by_cases hroom : t.outgoing.length < t.outgoingCapacity <;> simp [hroom]

/-- Of a record behind the others only the state changes when its message has been sent. -/
theorem onPublish_reserved (hm : m.qos.isTracked = true)
    (hfree : Record.find? id t.outgoing = none) :
    onPublish { t with outgoing := t.outgoing ++ [⟨id, m.qos, .reserved⟩] } id .sent m.qos =
      .ok (.opening .sent m.qos,
        { t with outgoing := t.outgoing ++ [⟨id, m.qos, .opening .sent m.qos⟩] }) := by
  have hopening : ExchangeState.opening .sent m.qos ≠ .complete := by
    cases hqos : m.qos <;> simp [hqos, QoS.isTracked, ExchangeState.opening] at hm ⊢
  have hsettled := Record.settle_append_singleton (r := ⟨id, m.qos, .reserved⟩) hopening hfree
  rw [onPublish_sent _ id (QoS.ne_atMostOnce_of_isTracked hm)]
  refine (onPublishSent_eq (r := ⟨id, m.qos, .reserved⟩) (Record.find?_append_self hfree rfl) rfl
    rfl).trans ?_
  exact congrArg (fun outgoing => Except.ok (ExchangeState.opening .sent m.qos,
    { t with outgoing })) hsettled

end ExchangeTable

/-- A session whose broker has announced that it takes `max` messages at once. -/
def Session.announcing (max : UInt16) (s : Session) : Session :=
  { s with negotiated := { s.negotiated with serverReceiveMax := max } }

/-- A scene with such a session. -/
def Scene.announcing {ω : Type} (max : UInt16) (σ : Scene ω) : Scene ω :=
  { σ with session := σ.session.announcing max }

variable {ω : Type} [Host ω]

namespace Session

/-- **Publishing does not count what is in flight.** Whatever number the broker had announced, the
call would have done the same, with the same result, and left the same session but for the
number. -/
theorem publish_announcing (max : UInt16) (m : Message) (id : UInt16) (σ : Scene ω) :
    (publish m id).runOn (σ.announcing max) =
      ((publish m id).runOn σ).map fun ending => (ending.1, ending.2.announcing max) := by
  have hmirrors : Act.Mirrors (fun σ σ' : Scene ω => σ' = σ.announcing max) (· = ·)
      (publish m id) (publish m id) :=
    (sendsAlike_renegotiated fun n => { n with serverReceiveMax := max }).publish (by
      rintro σ _ rfl
      exact ⟨rfl, rfl, rfl⟩)
  exact hmirrors.runOn_eq σ

/-- With room for it, a message under a new identifier goes out, all of it unless sending fails. -/
theorem transmit_free {m : Message} {id : UInt16} {spans : List Bytes} {σ τ : Scene (Watched ω)}
    {r : Except Fault Unit} (hid : id ≠ 0) (hm : m.qos.isTracked = true)
    (hfree : Record.find? id σ.session.exchanges.outgoing = none)
    (hroom : σ.session.exchanges.outgoing.length < σ.session.exchanges.outgoingCapacity)
    (h : (transmit m id spans).runOn σ = some (r, τ)) :
    ∃ calls, τ.host.calls = calls ++ σ.host.calls ∧
      (r = .ok () ∧ written calls = spans.flatten ∧ τ.session.exchanges.outgoing =
          σ.session.exchanges.outgoing ++ [⟨id, m.qos, .opening .sent m.qos⟩] ∨
        r = .error .sendFailed ∧ written calls <+: spans.flatten ∧
          τ.session.exchanges.outgoing =
            σ.session.exchanges.outgoing ++ [⟨id, m.qos, .reserved⟩]) := by
  have hopens := ExchangeTable.openFor_of_free hid hm hfree
  rw [if_pos hroom] at hopens
  have hpublish := ExchangeTable.onPublish_reserved hm hfree
  rcases transmit_inv h with ⟨fault, hopen, -⟩ | ⟨exchanges, k, calls, hopen, hsent, -, hends⟩
  · cases hopens.symm.trans hopen
  cases hopens.symm.trans hopen
  rcases hends with ⟨rfl, hsession, hcalls⟩ | ⟨rfl, hcalls, ⟨_, t, hpublish', rfl, ht⟩ |
    ⟨fault, hpublish', -⟩⟩
  · refine ⟨calls ++ trackCalls, hcalls, .inr ⟨rfl, ?_, by rw [hsession]⟩⟩
    rw [written_append, written_trackCalls, List.nil_append, hsent.taken]
    exact List.take_prefix k _
  · cases hpublish.symm.trans hpublish'
    refine ⟨trackCalls ++ calls ++ trackCalls, hcalls, .inl ⟨rfl, ?_, by rw [ht]⟩⟩
    rw [written_append, written_append, hsent.taken, List.take_length]
    simp
  · cases hpublish.symm.trans hpublish'

/-- What becomes of a message under a new identifier that passes all other checks. -/
theorem publish_free {m : Message} {id : UInt16} {spans : List Bytes} {σ τ : Scene (Watched ω)}
    {r : Except Fault Unit} (hm : m.qos.isTracked = true)
    (hfree : Record.find? id σ.session.exchanges.outgoing = none)
    (hlayOut : σ.session.layOut m id = .ok spans) (h : (publish m id).runOn σ = some (r, τ)) :
    ∃ calls, τ.host.calls = calls ++ σ.host.calls ∧
      (σ.session.exchanges.outgoing.length < σ.session.exchanges.outgoingCapacity →
        r = .ok () ∧ written calls = spans.flatten ∧ τ.session.exchanges.outgoing =
            σ.session.exchanges.outgoing ++ [⟨id, m.qos, .opening .sent m.qos⟩] ∨
          r = .error .sendFailed ∧ written calls <+: spans.flatten ∧
            τ.session.exchanges.outgoing =
              σ.session.exchanges.outgoing ++ [⟨id, m.qos, .reserved⟩]) ∧
      (¬σ.session.exchanges.outgoing.length < σ.session.exchanges.outgoingCapacity →
        r = .error .noMemory ∧ written calls = [] ∧ τ.session = σ.session) := by
  have hid := id_ne_zero_of_layOut hm hlayOut
  rcases publish_inv hm h with ⟨fault, hfault, -⟩ | ⟨spans', hspans, htransmit⟩
  · cases hlayOut.symm.trans hfault
  cases hlayOut.symm.trans hspans
  by_cases hroom : σ.session.exchanges.outgoing.length < σ.session.exchanges.outgoingCapacity
  · obtain ⟨calls, hcalls, hends⟩ := transmit_free hid hm hfree hroom htransmit
    exact ⟨calls, hcalls, fun _ => hends, fun hfull => absurd hroom hfull⟩
  · have hopens := ExchangeTable.openFor_of_free hid hm hfree
    rw [if_neg hroom] at hopens
    rcases transmit_inv htransmit with ⟨fault, hopen, rfl, hsession, hcalls⟩ |
      ⟨exchanges, k, calls, hopen, -⟩
    · cases hopens.symm.trans hopen
      exact ⟨trackCalls, hcalls, fun hroom' => absurd hroom' hroom, fun _ =>
        ⟨rfl, written_trackCalls, hsession⟩⟩
    · cases hopens.symm.trans hopen

end Session

/-- Along the run of a client the table keeps its room. -/
theorem capacity_of_isRun {steps : List (Step ω)} {m n : ℕ} (hrun : IsRun steps)
    (hnew : ∀ s ∈ steps.head?, ∃ capacity version settings,
      s.before.session = .create capacity (.empty m n) version settings) :
    ∀ s ∈ steps, s.before.session.exchanges.Valid ∧
      s.before.session.exchanges.outgoingCapacity = m := by
  refine before_of_isRun (P := fun s => s.exchanges.Valid ∧ s.exchanges.outgoingCapacity = m) hrun
    (fun s hs => ?_) fun s _ hbefore => ?_
  · obtain ⟨capacity, version, settings, hcreate⟩ := hnew s hs
    rw [hcreate]
    exact ⟨ExchangeTable.valid_empty m n, rfl⟩
  · obtain ⟨requests, hrequests⟩ := s.requested
    obtain ⟨hvalid, hcapacity⟩ := hbefore.1.run requests
    rw [hrequests]
    exact ⟨hvalid, (hcapacity .outgoing).trans hbefore.2⟩

/-- **What bounds the messages in flight.** It is the room in the table. A tracked message under a
new identifier that passes all checks of its form and of the limits of the broker is sent if there
is room for its exchange, and refused with `noMemory` if not, when nothing is written or changed.
The number that the broker takes at once does not count: with any other, the call ends as it does. -/
theorem run_publishes_to_capacity {steps : List (Step ω)} {s : Step ω} {m n : ℕ}
    {message : Message} {id : UInt16} {spans : List Bytes} (hrun : IsRun steps)
    (hnew : ∀ s ∈ steps.head?, ∃ capacity version settings,
      s.before.session = .create capacity (.empty m n) version settings)
    (hs : s ∈ steps) (hcall : s.call = .publish message id)
    (htracked : message.qos.isTracked = true)
    (hfree : Record.find? id s.before.session.exchanges.outgoing = none)
    (hlayOut : s.before.session.layOut message id = .ok spans) :
    s.before.session.exchanges.outgoing.length ≤ m ∧
      (s.before.session.exchanges.outgoing.length < m →
        s.result = .ok .done ∧ written s.calls = spans.flatten ∧
            s.after.session.exchanges.outgoing = s.before.session.exchanges.outgoing ++
              [⟨id, message.qos, .opening .sent message.qos⟩] ∨
          s.result = .error .sendFailed ∧ written s.calls <+: spans.flatten ∧
            s.after.session.exchanges.outgoing =
              s.before.session.exchanges.outgoing ++ [⟨id, message.qos, .reserved⟩]) ∧
      (s.before.session.exchanges.outgoing.length = m →
        s.result = .error .noMemory ∧ written s.calls = [] ∧
          s.after.session = s.before.session) ∧
      ∀ max, (Call.publish message id).perform.runOn (s.before.announcing max) =
        some (s.result, s.after.announcing max) := by
  obtain ⟨hvalid, hcapacity⟩ := capacity_of_isRun hrun hnew s hs
  have hbound : s.before.session.exchanges.outgoing.length ≤ m :=
    hcapacity ▸ (hvalid.records .outgoing).length_le
  obtain ⟨call, σ, result, τ, hperform⟩ := s
  cases hcall
  obtain ⟨r, hpublish, rfl⟩ := Act.runOn_bind_pure_inv hperform
  obtain ⟨calls, hcalls, hroom, hfull⟩ := Session.publish_free htracked hfree hlayOut hpublish
  rw [Step.calls_eq hcalls]
  rw [hcapacity] at hroom hfull
  refine ⟨hbound, fun hlt => ?_, fun heq => ?_, fun max => ?_⟩
  · rcases hroom hlt with ⟨rfl, hends⟩ | ⟨rfl, hends⟩
    · exact .inl ⟨rfl, hends⟩
    · exact .inr ⟨rfl, hends⟩
  · obtain ⟨rfl, hends⟩ := hfull (Nat.not_lt.mpr heq.ge)
    exact ⟨rfl, hends⟩
  · have hother := Session.publish_announcing max message id σ
    rw [hpublish] at hother
    rcases r with fault | _
    · exact Act.runOn_bind_of_error hother _
    · exact Act.runOn_bind_of_ok hother _

/-- A message to be delivered at least once. -/
def notice : Message := { topic := "a", payload := [120], qos := .atLeastOnce }

/-- A broker announces that it takes one message at once, and the client publishes two. -/
def crowding : List (Step Scripted) :=
  stepsFrom
    { session := .create 16 (.empty 2 2) .v5 {}
      host := { host := { incoming := [0x20, 6, 0, 0, 3, 0x21, 0, 1] } } }
    [.connect { clientId := "c" } 1000, .publish notice 3, .publish notice 4]

/-- The second one is sent while the first one is in flight. -/
theorem run_publishes_to_capacity_crowding :
    ∃ s ∈ crowding, s.call = .publish notice 4 ∧ s.before.session.status = .connected ∧
      s.before.session.negotiated.serverReceiveMax = 1 ∧
      s.before.session.exchanges.outgoing = [⟨3, .atLeastOnce, .awaits .puback⟩] ∧
      s.result = .ok .done ∧ written s.calls = [0x32, 7, 0, 1, 97, 0, 4, 0, 120] ∧
      s.after.session.exchanges.outgoing =
        [⟨3, .atLeastOnce, .awaits .puback⟩, ⟨4, .atLeastOnce, .awaits .puback⟩] ∧
      ∀ max, (Call.publish notice 4).perform.runOn (s.before.announcing max) =
        some (.ok .done, s.after.announcing max) := by
  obtain ⟨s, hs, hcall, hstatus, hmax, hopen, hlayOut, hresult⟩ : ∃ s ∈ crowding,
      s.call = .publish notice 4 ∧ s.before.session.status = .connected ∧
        s.before.session.negotiated.serverReceiveMax = 1 ∧
        s.before.session.exchanges.outgoing = [⟨3, .atLeastOnce, .awaits .puback⟩] ∧
        s.before.session.layOut notice 4 =
          .ok [[0x32, 7, 0, 1], [97], [0, 4, 0], [], [120]] ∧
        s.result = .ok .done := by decide +kernel
  have hnew : ∀ s ∈ crowding.head?, ∃ capacity version settings,
      s.before.session = .create capacity (.empty 2 2) version settings := fun s hs =>
    ⟨16, .v5, {}, by rw [before_of_mem_head?_stepsFrom hs]⟩
  obtain ⟨-, hroom, -, hsame⟩ := run_publishes_to_capacity (isRun_stepsFrom _ _) hnew hs hcall rfl
    (by rw [hopen]; decide) hlayOut
  rw [hopen] at hroom
  rw [hresult] at hroom hsame
  rcases hroom (by decide) with ⟨-, hwritten, hafter⟩ | ⟨⟨⟩, -⟩
  exact ⟨s, hs, hcall, hstatus, hmax, hopen, hresult, hwritten, hafter, hsame⟩

end MqttClient
