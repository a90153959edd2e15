import Mathlib.Algebra.GroupWithZero.Nat
import Mathlib.Data.List.Perm.Subperm
import MqttClient.Proofs.Exchange.Records

/-!
# Two ends of a connection

One table sends messages, another receives them, and two queues carry the packets between them
in order. Whatever the order in which messages are published and packets are accepted, at each
moment an identifier is in one of seven phases (`TwoEnds.Phase`): at most one packet about it is
on its way, and the tables hold for it what the phase says. Everything else follows from that.
-/
namespace MqttClient
variable {α : Type}

/-- A packet of an exchange on its way. -/
inductive Parcel (α : Type) where
  | publish (id : UInt16) (qos : QoS) (content : α)
  | ack (kind : AckKind) (id : UInt16)

namespace Parcel

/-- The packet identifier. -/
def id : Parcel α → UInt16
  | publish id _ _ => id
  | ack _ id => id

/-- What a PUBLISH brings. -/
def content? : Parcel α → Option α
  | publish _ _ content => some content
  | ack _ _ => none

/-- How many packets are still to be accepted in an exchange in which this one is on its way. -/
def weight : Parcel α → ℕ
  | publish _ .exactlyOnce _ => 4
  | publish _ _ _ => 2
  | ack .pubrec _ => 3
  | ack .pubrel _ => 2
  | ack _ _ => 1

/-- The packets about an identifier. -/
def about (id : UInt16) (parcels : List (Parcel α)) : List (Parcel α) :=
  parcels.filter fun p => p.id == id

theorem about_append (id : UInt16) (ps qs : List (Parcel α)) :
    about id (ps ++ qs) = about id ps ++ about id qs := List.filter_append ..

theorem about_cons_self (p : Parcel α) (ps : List (Parcel α)) :
    about p.id (p :: ps) = p :: about p.id ps := by simp [about]

theorem about_cons_of_ne {id : UInt16} {p : Parcel α} (h : p.id ≠ id) (ps : List (Parcel α)) :
    about id (p :: ps) = about id ps := by simp [about, h]

theorem about_eq_self {id : UInt16} {ps : List (Parcel α)} (h : ∀ p ∈ ps, p.id = id) :
    about id ps = ps := by
  simpa [about, List.filter_eq_self] using h

theorem about_eq_nil {id id' : UInt16} {ps : List (Parcel α)} (h : ∀ p ∈ ps, p.id = id)
    (hne : id' ≠ id) : about id' ps = [] := by
  simp only [about, List.filter_eq_nil_iff, beq_iff_eq]
  intro p hp heq
  exact hne (heq.symm.trans (h p hp))

end Parcel

namespace ExchangeTable

/-- Note the acknowledgement that a state owes, and give it to be sent. -/
def reply (t : ExchangeTable) (id : UInt16) (state : ExchangeState) :
    Except Fault (List (Parcel α) × ExchangeTable) :=
  match state.ackToSend with
  | none => .ok ([], t)
  | some ack => do
    let (_, t) ← t.onAck id ack .sent
    return ([.ack ack id], t)

/-- Accept a packet: what is to be sent in return. -/
def accept (t : ExchangeTable) : Parcel α → Except Fault (List (Parcel α) × ExchangeTable)
  | .publish id qos _ => do
    let (state, t) ← t.onPublish id .received qos
    t.reply id state
  | .ack kind id => do
    let (state, t) ← t.onAck id kind .received
    t.reply id state

variable {t : ExchangeTable} {id : UInt16} {r : Record}

/-- A message under a new identifier is taken and answered at once. -/
theorem accept_publish {qos : QoS} {ack : AckKind} {next : ExchangeState} (content : α)
    (hnew : Record.find? id t.incoming = none) (hroom : t.incoming.length < t.incomingCapacity)
    (hopening : ExchangeState.opening .received qos = .owes ack)
    (hnext : ExchangeState.onAck ack .sent (.owes ack) = some next)
    (hside : ack.side .sent = .incoming) :
    t.accept (.publish id qos content) = .ok ([.ack ack id],
      { t with incoming := Record.settle id next (t.incoming ++ [⟨id, qos, .owes ack⟩]) }) := by
  have hqos : qos ≠ .atMostOnce := by
    rintro rfl
    cases hopening
  have hopen : t.onPublish id .received qos = .ok (.owes ack,
      { t with incoming := t.incoming ++ [⟨id, qos, .owes ack⟩] }) := by
    simp [onPublish_received _ _ hqos, onPublishReceived_eq, hnew, hroom, hopening]
  have hfound : Record.find? id (t.incoming ++ [⟨id, qos, .owes ack⟩]) =
      some ⟨id, qos, .owes ack⟩ := Record.find?_append_self hnew rfl
  have hreply : ExchangeTable.onAck { t with incoming := t.incoming ++ [⟨id, qos, .owes ack⟩] }
      id ack .sent = .ok (next, { t with
        incoming := Record.settle id next (t.incoming ++ [⟨id, qos, .owes ack⟩]) }) := by
    simp [onAck, hside, records, withRecords, hfound, hnext]
  simp [accept, hopen, reply, ExchangeState.ackToSend, hreply, bind, Except.bind, pure, Except.pure]

/-- An acknowledgement that ends its exchange is not answered. -/
theorem accept_ack_complete {kind : AckKind} {side : Side} (hside : kind.side .received = side)
    (hfound : Record.find? id (t.records side) = some r)
    (hnext : ExchangeState.onAck kind .received r.state = some .complete) :
    t.accept (α := α) (.ack kind id) =
      .ok ([], t.withRecords side (Record.drop id (t.records side))) := by
  subst hside
  simp [accept, onAck_eq hfound hnext, reply, ExchangeState.ackToSend, bind, Except.bind]

/-- An acknowledgement that is owed an answer is answered at once. -/
theorem accept_ack_owes {kind ack : AckKind} {side : Side} {next : ExchangeState}
    (hside : kind.side .received = side) (hside' : ack.side .sent = side)
    (hfound : Record.find? id (t.records side) = some r)
    (howes : ExchangeState.onAck kind .received r.state = some (.owes ack))
    (hnext : ExchangeState.onAck ack .sent (.owes ack) = some next) :
    t.accept (α := α) (.ack kind id) = .ok ([.ack ack id], t.withRecords side
      (Record.settle id next (Record.settle id (.owes ack) (t.records side)))) := by
  have hne : ExchangeState.owes ack ≠ .complete := by simp
  have hfound' := Record.find?_settle_self hne hfound
  subst hside
  have hreply : (t.withRecords (kind.side .received)
      (Record.settle id (.owes ack) (t.records (kind.side .received)))).onAck id ack .sent =
      .ok (next, t.withRecords (kind.side .received) (Record.settle id next
        (Record.settle id (.owes ack) (t.records (kind.side .received))))) := by
    rw [onAck, hside', records_withRecords_self, hfound']
    simp only [hnext]
    cases kind <;> rfl
  simp [accept, onAck_eq hfound howes, reply, ExchangeState.ackToSend, hreply, bind, Except.bind,
    pure, Except.pure]

end ExchangeTable

/-- Two tables and the packets between them. -/
structure TwoEnds (α : Type) where
  sender : ExchangeTable
  receiver : ExchangeTable
  toReceiver : List (Parcel α) := []
  toSender : List (Parcel α) := []
  /-- The contents of all messages sent, in order. -/
  published : List α := []
  /-- The contents of all messages that the receiver took for new, in order. -/
  delivered : List α := []

namespace TwoEnds

/-- What happens next. -/
inductive Move (α : Type) where
  /-- The sender opens an exchange and sends its message, if it can. -/
  | publish (id : UInt16) (qos : QoS) (content : α)
  /-- The receiver accepts the first packet on its way to it, if there is one. -/
  | receiverAccepts
  /-- The sender accepts the first packet on its way to it, if there is one. -/
  | senderAccepts

/-- Only `reserve` may refuse; that any other step of a table does is a failure of the whole. -/
def step (w : TwoEnds α) : Move α → Except Fault (TwoEnds α)
  | .publish id qos content =>
    match w.sender.reserve id qos with
    | .error _ => .ok w
    | .ok sender => do
      let (_, sender) ← sender.onPublish id .sent qos
      return { w with
        sender
        toReceiver := w.toReceiver ++ [.publish id qos content]
        published := w.published ++ [content] }
  | .receiverAccepts =>
    match w.toReceiver with
    | [] => .ok w
    | parcel :: toReceiver => do
      let (replies, receiver) ← w.receiver.accept parcel
      return { w with
        receiver, toReceiver
        toSender := w.toSender ++ replies
        delivered := w.delivered ++ parcel.content?.toList }
  | .senderAccepts =>
    match w.toSender with
    | [] => .ok w
    | parcel :: toSender => do
      let (replies, sender) ← w.sender.accept parcel
      return { w with sender, toSender, toReceiver := w.toReceiver ++ replies }

/-- All steps in order. -/
def run (w : TwoEnds α) (moves : List (Move α)) : Except Fault (TwoEnds α) := moves.foldlM step w

/-- Two tables without exchanges and nothing on its way. -/
def start (outgoing incoming outgoing' incoming' : ℕ) : TwoEnds α where
  sender := .empty outgoing incoming
  receiver := .empty outgoing' incoming'

/-- Where an exchange stands: what the sender and the receiver hold for its identifier, and which
packets about it are on their way to the receiver and to the sender. -/
inductive Phase (id : UInt16) :
    Option Record → Option Record → List (Parcel α) → List (Parcel α) → Prop where
  | idle : Phase id none none [] []
  | once (content : α) :
    Phase id (some ⟨id, .atLeastOnce, .awaits .puback⟩) none
      [.publish id .atLeastOnce content] []
  | onceAnswered :
    Phase id (some ⟨id, .atLeastOnce, .awaits .puback⟩) none [] [.ack .puback id]
  | exactly (content : α) :
    Phase id (some ⟨id, .exactlyOnce, .awaits .pubrec⟩) none
      [.publish id .exactlyOnce content] []
  | exactlyReceived :
    Phase id (some ⟨id, .exactlyOnce, .awaits .pubrec⟩)
      (some ⟨id, .exactlyOnce, .awaits .pubrel⟩) [] [.ack .pubrec id]
  | exactlyReleased :
    Phase id (some ⟨id, .exactlyOnce, .awaits .pubcomp⟩)
      (some ⟨id, .exactlyOnce, .awaits .pubrel⟩) [.ack .pubrel id] []
  | exactlyCompleted :
    Phase id (some ⟨id, .exactlyOnce, .awaits .pubcomp⟩) none [] [.ack .pubcomp id]

/-- The invariant: every identifier is in a phase, the tables keep within their room, and what
was published is what was delivered and what is on its way, in this order. -/
structure Sound (w : TwoEnds α) : Prop where
  phase : ∀ id, Phase id (Record.find? id w.sender.outgoing) (Record.find? id w.receiver.incoming)
    (Parcel.about id w.toReceiver) (Parcel.about id w.toSender)
  fits : w.sender.outgoing.length ≤ w.sender.outgoingCapacity
  nodup : (w.receiver.incoming.map (·.id)).Nodup
  room : w.sender.outgoingCapacity ≤ w.receiver.incomingCapacity
  idle : w.sender.incoming = [] ∧ w.receiver.outgoing = []
  inOrder : w.published = w.delivered ++ w.toReceiver.filterMap Parcel.content?

variable {w : TwoEnds α} {id : UInt16}

/-- About an identifier that the sender does not hold there is nothing anywhere. -/
theorem Phase.idle_inv {b : Option Record} {forth back : List (Parcel α)}
    (h : Phase id none b forth back) : b = none ∧ forth = [] ∧ back = [] := by
  cases h
  exact ⟨rfl, rfl, rfl⟩

/-- The receiver holds nothing that the sender does not. -/
theorem Phase.sender_isSome {a b : Option Record} {forth back : List (Parcel α)}
    (h : Phase id a b forth back) (hb : b.isSome) : a.isSome := by
  cases h <;> simp at hb ⊢

/-- What a first packet on its way to the receiver can be. -/
theorem Phase.toReceiver_inv {a b : Option Record} {p : Parcel α} {rest back : List (Parcel α)}
    (h : Phase id a b (p :: rest) back) : rest = [] ∧ back = [] ∧
      ((∃ content, p = .publish id .atLeastOnce content ∧
          a = some ⟨id, .atLeastOnce, .awaits .puback⟩ ∧ b = none) ∨
        (∃ content, p = .publish id .exactlyOnce content ∧
          a = some ⟨id, .exactlyOnce, .awaits .pubrec⟩ ∧ b = none) ∨
        (p = .ack .pubrel id ∧ a = some ⟨id, .exactlyOnce, .awaits .pubcomp⟩ ∧
          b = some ⟨id, .exactlyOnce, .awaits .pubrel⟩)) := by
  cases h <;> simp

/-- What a first packet on its way to the sender can be. -/
theorem Phase.toSender_inv {a b : Option Record} {p : Parcel α} {forth rest : List (Parcel α)}
    (h : Phase id a b forth (p :: rest)) : forth = [] ∧ rest = [] ∧
      ((p = .ack .puback id ∧ a = some ⟨id, .atLeastOnce, .awaits .puback⟩ ∧ b = none) ∨
        (p = .ack .pubrec id ∧ a = some ⟨id, .exactlyOnce, .awaits .pubrec⟩ ∧
          b = some ⟨id, .exactlyOnce, .awaits .pubrel⟩) ∨
        (p = .ack .pubcomp id ∧ a = some ⟨id, .exactlyOnce, .awaits .pubcomp⟩ ∧ b = none)) := by
  cases h <;> simp

/-- A step about one identifier leaves the phases of all others. -/
theorem Sound.phase_of_change (h : w.Sound) (id : UInt16) {w' : TwoEnds α}
    (hid : Phase id (Record.find? id w'.sender.outgoing) (Record.find? id w'.receiver.incoming)
      (Parcel.about id w'.toReceiver) (Parcel.about id w'.toSender))
    (hothers : ∀ id' ≠ id,
      Record.find? id' w'.sender.outgoing = Record.find? id' w.sender.outgoing ∧
      Record.find? id' w'.receiver.incoming = Record.find? id' w.receiver.incoming ∧
      Parcel.about id' w'.toReceiver = Parcel.about id' w.toReceiver ∧
      Parcel.about id' w'.toSender = Parcel.about id' w.toSender) (id' : UInt16) :
    Phase id' (Record.find? id' w'.sender.outgoing) (Record.find? id' w'.receiver.incoming)
      (Parcel.about id' w'.toReceiver) (Parcel.about id' w'.toSender) := by
  by_cases hne : id' = id
  · subst hne
    exact hid
  · obtain ⟨hsender, hreceiver, hforth, hback⟩ := hothers id' hne
    rw [hsender, hreceiver, hforth, hback]
    exact h.phase id'

theorem sound_publish (h : w.Sound) (id : UInt16) (qos : QoS) (content : α) :
    ∃ w', w.step (.publish id qos content) = .ok w' ∧ w'.Sound := by
  cases hreserve : w.sender.reserve id qos with
  | error fault => exact ⟨w, by simp [step, hreserve], h⟩
  | ok sender =>
    obtain ⟨-, hqos, hnone, hroom, hsender⟩ := ExchangeTable.reserve_inv hreserve
    have hphase := h.phase id
    rw [hnone] at hphase
    have hfound : Record.find? id sender.outgoing = some ⟨id, qos, .reserved⟩ := by
      rw [hsender]
      exact Record.find?_append_self hnone rfl
    have hsent := ExchangeTable.onPublishSent_eq hfound rfl rfl
    have hopening : ExchangeState.opening .sent qos ≠ .complete := by
      cases qos <;> simp [ExchangeState.opening] at hqos ⊢
    have hsettled := Record.find?_settle_self hopening hfound
    have hstep : w.step (.publish id qos content) = .ok { w with
        sender := { sender with
          outgoing := Record.settle id (.opening .sent qos) sender.outgoing }
        toReceiver := w.toReceiver ++ [.publish id qos content]
        published := w.published ++ [content] } := by
      simp [step, hreserve, ExchangeTable.onPublish_sent _ _ hqos, hsent, bind, Except.bind, pure,
        Except.pure]
    obtain ⟨hreceiver, hforth, hback⟩ := hphase.idle_inv
    refine ⟨_, hstep, h.phase_of_change id ?_ ?_, ?_, h.nodup, ?_, ?_, ?_⟩
    · simp only [hsettled, hreceiver, Parcel.about_append, hforth, hback]
      cases qos with
      | atMostOnce => exact absurd rfl hqos
      | atLeastOnce =>
        simpa [Parcel.about, Parcel.id, ExchangeState.opening] using Phase.once content
      | exactlyOnce =>
        simpa [Parcel.about, Parcel.id, ExchangeState.opening] using Phase.exactly content
    · intro id' hne
      refine ⟨?_, rfl, ?_, rfl⟩
      · rw [Record.find?_settle_of_ne hne, hsender, Record.find?_append_of_ne (Ne.symm hne)]
      · simp [Parcel.about, Parcel.id, Ne.symm hne]
    · have hlength := Record.length_settle_le id (.opening .sent qos) sender.outgoing
      rw [hsender] at hlength ⊢
      simp only [List.length_append, List.length_singleton] at hlength
      exact Nat.le_trans hlength hroom
    · rw [hsender]
      exact h.room
    · rw [hsender]
      exact h.idle
    · simp [h.inOrder, Parcel.content?]

/-- How many packets are still to be accepted, if no further message is published. -/
def weight (w : TwoEnds α) : ℕ :=
  (w.toReceiver.map Parcel.weight).sum + (w.toSender.map Parcel.weight).sum

/-- A step that keeps the invariant, publishes nothing and leaves fewer packets to accept. -/
structure Accepts (w w' : TwoEnds α) : Prop where
  sound : w'.Sound
  published : w'.published = w.published
  weight_lt : w'.weight < w.weight

/-- The receiver takes a packet as its phase says. -/
theorem Sound.of_receiver (h : w.Sound) {p : Parcel α} {rest replies : List (Parcel α)}
    {incoming : List Record} (hid : p.id = id) (hqueue : w.toReceiver = p :: rest)
    (haccept : w.receiver.accept p = .ok (replies, { w.receiver with incoming }))
    (hreplies : ∀ q ∈ replies, q.id = id)
    (hweight : (replies.map Parcel.weight).sum < p.weight)
    (hothers : ∀ id' ≠ id, Record.find? id' incoming = Record.find? id' w.receiver.incoming)
    (hnodup : (incoming.map (·.id)).Nodup)
    (hphase : Phase id (Record.find? id w.sender.outgoing) (Record.find? id incoming)
      (Parcel.about id rest) (Parcel.about id w.toSender ++ replies)) :
    ∃ w', w.step .receiverAccepts = .ok w' ∧ Accepts w w' := by
  have hstep : w.step .receiverAccepts = .ok { w with
      receiver := { w.receiver with incoming }
      toReceiver := rest
      toSender := w.toSender ++ replies
      delivered := w.delivered ++ p.content?.toList } := by
    simp [step, hqueue, haccept, bind, Except.bind, pure, Except.pure]
  refine ⟨_, hstep, ⟨h.phase_of_change id ?_ ?_, h.fits, hnodup, h.room, h.idle, ?_⟩, rfl, ?_⟩
  · simpa only [Parcel.about_append, Parcel.about_eq_self hreplies] using hphase
  · intro id' hne
    refine ⟨rfl, hothers id' hne, ?_, ?_⟩
    · rw [hqueue, Parcel.about_cons_of_ne (hid ▸ Ne.symm hne)]
    · rw [Parcel.about_append, Parcel.about_eq_nil hreplies hne, List.append_nil]
  · have horder := h.inOrder
    rw [hqueue] at horder
    rw [horder, List.filterMap_cons]
    cases p <;> simp [Parcel.content?]
  · simp only [weight, hqueue, List.map_cons, List.map_append, List.sum_cons, List.sum_append]
    omega

/-- The sender takes a packet as its phase says. -/
theorem Sound.of_sender (h : w.Sound) {p : Parcel α} {rest replies : List (Parcel α)}
    {outgoing : List Record} (hid : p.id = id) (hqueue : w.toSender = p :: rest)
    (haccept : w.sender.accept p = .ok (replies, { w.sender with outgoing }))
    (hreplies : ∀ q ∈ replies, q.id = id ∧ q.content? = none)
    (hweight : (replies.map Parcel.weight).sum < p.weight)
    (hothers : ∀ id' ≠ id, Record.find? id' outgoing = Record.find? id' w.sender.outgoing)
    (hlength : outgoing.length ≤ w.sender.outgoing.length)
    (hphase : Phase id (Record.find? id outgoing) (Record.find? id w.receiver.incoming)
      (Parcel.about id w.toReceiver ++ replies) (Parcel.about id rest)) :
    ∃ w', w.step .senderAccepts = .ok w' ∧ Accepts w w' := by
  have hids : ∀ q ∈ replies, q.id = id := fun q hq => (hreplies q hq).1
  have hcontents : replies.filterMap Parcel.content? = [] := by
    rw [List.filterMap_eq_nil_iff]
    exact fun q hq => (hreplies q hq).2
  have hstep : w.step .senderAccepts = .ok { w with
      sender := { w.sender with outgoing }
      toSender := rest
      toReceiver := w.toReceiver ++ replies } := by
    simp [step, hqueue, haccept, bind, Except.bind, pure, Except.pure]
  refine ⟨_, hstep, ⟨h.phase_of_change id ?_ ?_, Nat.le_trans hlength h.fits, h.nodup, h.room,
    h.idle, ?_⟩, rfl, ?_⟩
  · simpa only [Parcel.about_append, Parcel.about_eq_self hids] using hphase
  · intro id' hne
    refine ⟨hothers id' hne, rfl, ?_, ?_⟩
    · rw [Parcel.about_append, Parcel.about_eq_nil hids hne, List.append_nil]
    · rw [hqueue, Parcel.about_cons_of_ne (hid ▸ Ne.symm hne)]
  · rw [List.filterMap_append, hcontents, List.append_nil]
    exact h.inOrder
  · simp only [weight, hqueue, List.map_cons, List.map_append, List.sum_cons, List.sum_append]
    omega

/-- There is room at the receiver for an exchange that only the sender holds yet: each exchange
of the receiver is one of the sender. -/
theorem Sound.receiver_room (h : w.Sound)
    (hsender : (Record.find? id w.sender.outgoing).isSome)
    (hreceiver : Record.find? id w.receiver.incoming = none) :
    w.receiver.incoming.length < w.receiver.incomingCapacity := by
  have hnodup : (id :: w.receiver.incoming.map (·.id)).Nodup :=
    List.nodup_cons.mpr ⟨Record.find?_eq_none_iff.mp hreceiver, h.nodup⟩
  have hsubset : id :: w.receiver.incoming.map (·.id) ⊆ w.sender.outgoing.map (·.id) := by
    intro id' hid'
    rw [← Record.find?_isSome_iff]
    rcases List.mem_cons.mp hid' with rfl | hmem
    · exact hsender
    · exact h.phase id' |>.sender_isSome (Record.find?_isSome_iff.mpr hmem)
  have hlength := (List.subperm_of_subset hnodup hsubset).length_le
  simp only [List.length_cons, List.length_map] at hlength
  have := h.fits
  have := h.room
  omega

/-- The receiver takes a message whose exchange only the sender holds yet. -/
theorem Sound.of_new (h : w.Sound) {qos : QoS} {ack : AckKind} {next : ExchangeState}
    {content : α} {rest : List (Parcel α)}
    (hqueue : w.toReceiver = .publish id qos content :: rest)
    (hsender : (Record.find? id w.sender.outgoing).isSome)
    (hnew : Record.find? id w.receiver.incoming = none)
    (hopening : ExchangeState.opening .received qos = .owes ack)
    (hnext : ExchangeState.onAck ack .sent (.owes ack) = some next)
    (hside : ack.side .sent = .incoming)
    (hweight : Parcel.weight (α := α) (.ack ack id) < (Parcel.publish id qos content).weight)
    (hphase : Phase id (Record.find? id w.sender.outgoing)
      (Record.find? id (Record.settle id next (w.receiver.incoming ++ [⟨id, qos, .owes ack⟩])))
      (Parcel.about id rest) (Parcel.about id w.toSender ++ [.ack ack id])) :
    ∃ w', w.step .receiverAccepts = .ok w' ∧ Accepts w w' := by
  have haccept := ExchangeTable.accept_publish content hnew (h.receiver_room hsender hnew)
    hopening hnext hside
  have hid : (Parcel.publish id qos content).id = id := rfl
  refine h.of_receiver hid hqueue haccept (by simp [Parcel.id]) (by simpa using hweight) ?_ ?_
    hphase
  · intro id' hne
    rw [Record.find?_settle_of_ne hne, Record.find?_append_of_ne (Ne.symm hne)]
  · exact (Record.ids_settle_sublist _ _ _).nodup (Record.nodup_ids_append hnew h.nodup)

/-- The receiver accepts whatever is first on its way to it. -/
theorem Sound.receiverAccepts (h : w.Sound) (hne : w.toReceiver ≠ []) :
    ∃ w', w.step .receiverAccepts = .ok w' ∧ Accepts w w' := by
  obtain ⟨p, rest, hqueue⟩ := List.exists_cons_of_ne_nil hne
  have hphase := h.phase p.id
  rw [hqueue, Parcel.about_cons_self] at hphase
  generalize hid : p.id = id at hphase
  obtain ⟨hrest, hback, hcases⟩ := hphase.toReceiver_inv
  rcases hcases with ⟨content, rfl, ha, hb⟩ | ⟨content, rfl, ha, hb⟩ | ⟨rfl, ha, hb⟩
  · refine h.of_new hqueue (by simp [ha]) hb rfl rfl rfl (by simp [Parcel.weight]) ?_
    rw [ha, hrest, hback, Record.settle_complete, Record.find?_drop_self]
    exact .onceAnswered
  · refine h.of_new hqueue (by simp [ha]) hb rfl rfl rfl (by simp [Parcel.weight]) ?_
    rw [ha, hrest, hback, Record.find?_settle_self (by simp) (Record.find?_append_self hb rfl)]
    exact .exactlyReceived
  · have haccept : w.receiver.accept (α := α) (.ack .pubrel id) = .ok ([.ack .pubcomp id],
        { w.receiver with
          incoming := Record.settle id .complete
            (Record.settle id (.owes .pubcomp) w.receiver.incoming) }) :=
      ExchangeTable.accept_ack_owes (show AckKind.pubrel.side .received = .incoming from rfl)
        rfl hb rfl rfl
    refine h.of_receiver hid hqueue haccept (by simp [Parcel.id]) (by simp [Parcel.weight])
      ?_ ?_ ?_
    · intro id' hne
      rw [Record.find?_settle_of_ne hne, Record.find?_settle_of_ne hne]
    · exact ((Record.ids_settle_sublist _ _ _).trans (Record.ids_settle_sublist _ _ _)).nodup
        h.nodup
    · rw [ha, hrest, hback, Record.settle_complete, Record.find?_drop_self]
      exact .exactlyCompleted

/-- The sender accepts whatever is first on its way to it. -/
theorem Sound.senderAccepts (h : w.Sound) (hne : w.toSender ≠ []) :
    ∃ w', w.step .senderAccepts = .ok w' ∧ Accepts w w' := by
  obtain ⟨p, rest, hqueue⟩ := List.exists_cons_of_ne_nil hne
  have hphase := h.phase p.id
  rw [hqueue, Parcel.about_cons_self] at hphase
  generalize hid : p.id = id at hphase
  obtain ⟨hforth, hrest, hcases⟩ := hphase.toSender_inv
  -- PUBACK and PUBCOMP end the exchange.
  have hcomplete : ∀ kind r, p = .ack kind id → kind.side .received = .outgoing →
      Record.find? id w.sender.outgoing = some r →
      ExchangeState.onAck kind .received r.state = some .complete →
      Record.find? id w.receiver.incoming = none →
      ∃ w', w.step .senderAccepts = .ok w' ∧ Accepts w w' := by
    rintro kind r rfl hside ha hnext hb
    have haccept : w.sender.accept (α := α) (.ack kind id) =
        .ok ([], { w.sender with outgoing := Record.drop id w.sender.outgoing }) :=
      ExchangeTable.accept_ack_complete hside ha hnext
    refine h.of_sender hid hqueue haccept (by simp) (by cases kind <;> simp [Parcel.weight])
      (fun id' hne => Record.find?_drop_of_ne hne _) (List.length_filter_le _ _) ?_
    rw [hb, hforth, hrest, Record.find?_drop_self]
    exact .idle
  rcases hcases with ⟨hp, ha, hb⟩ | ⟨rfl, ha, hb⟩ | ⟨hp, ha, hb⟩
  · exact hcomplete .puback _ hp rfl ha rfl hb
  · have haccept : w.sender.accept (α := α) (.ack .pubrec id) = .ok ([.ack .pubrel id],
        { w.sender with
          outgoing := Record.settle id (.awaits .pubcomp)
            (Record.settle id (.owes .pubrel) w.sender.outgoing) }) :=
      ExchangeTable.accept_ack_owes (show AckKind.pubrec.side .received = .outgoing from rfl)
        rfl ha rfl rfl
    refine h.of_sender hid hqueue haccept (by simp [Parcel.id, Parcel.content?])
      (by simp [Parcel.weight]) ?_ ?_ ?_
    · intro id' hne
      rw [Record.find?_settle_of_ne hne, Record.find?_settle_of_ne hne]
    · exact Nat.le_trans (Record.length_settle_le _ _ _) (Record.length_settle_le _ _ _)
    · rw [hb, hforth, hrest, Record.find?_settle_self (by simp)
        (Record.find?_settle_self (by simp) ha)]
      exact .exactlyReleased
  · exact hcomplete .pubcomp _ hp rfl ha rfl hb

/-! ## Runs -/

theorem run_cons (w : TwoEnds α) (m : Move α) (moves : List (Move α)) :
    w.run (m :: moves) = (w.step m).bind fun w' => w'.run moves := List.foldlM_cons ..

theorem sound_start {outgoing incoming'} (h : outgoing ≤ incoming') (incoming outgoing' : ℕ) :
    (start (α := α) outgoing incoming outgoing' incoming').Sound where
  phase _ := .idle
  fits := Nat.zero_le _
  nodup := List.nodup_nil
  room := h
  idle := ⟨rfl, rfl⟩
  inOrder := rfl

/-- Any step can be made, and keeps the invariant. -/
theorem sound_step (h : w.Sound) (m : Move α) : ∃ w', w.step m = .ok w' ∧ w'.Sound := by
  cases m with
  | publish id qos content => exact sound_publish h id qos content
  | receiverAccepts =>
    by_cases hempty : w.toReceiver = []
    · exact ⟨w, by simp [step, hempty], h⟩
    · obtain ⟨w', hstep, haccepts⟩ := h.receiverAccepts hempty
      exact ⟨w', hstep, haccepts.sound⟩
  | senderAccepts =>
    by_cases hempty : w.toSender = []
    · exact ⟨w, by simp [step, hempty], h⟩
    · obtain ⟨w', hstep, haccepts⟩ := h.senderAccepts hempty
      exact ⟨w', hstep, haccepts.sound⟩

theorem sound_run (h : w.Sound) (moves : List (Move α)) :
    ∃ w', w.run moves = .ok w' ∧ w'.Sound := by
  induction moves generalizing w with
  | nil => exact ⟨w, rfl, h⟩
  | cons m moves ih =>
    obtain ⟨w₁, hstep, h₁⟩ := sound_step h m
    obtain ⟨w₂, hrun, h₂⟩ := ih h₁
    exact ⟨w₂, by rw [run_cons, hstep]; exact hrun, h₂⟩

/-- With nothing on its way no exchange is open. -/
theorem Sound.records_eq_nil (h : w.Sound) (hforth : w.toReceiver = []) (hback : w.toSender = [])
    (side : Side) : w.sender.records side = [] ∧ w.receiver.records side = [] := by
  have hphase : ∀ id, Record.find? id w.sender.outgoing = none ∧
      Record.find? id w.receiver.incoming = none := by
    intro id
    have hid := h.phase id
    rw [hforth, hback] at hid
    generalize Record.find? id w.sender.outgoing = a at hid
    generalize Record.find? id w.receiver.incoming = b at hid
    cases hid
    exact ⟨rfl, rfl⟩
  cases side with
  | outgoing => exact ⟨Record.eq_nil_of_find?_none fun id => (hphase id).1, h.idle.2⟩
  | incoming => exact ⟨h.idle.1, Record.eq_nil_of_find?_none fun id => (hphase id).2⟩

/-- The receiver holds no exchange that the sender does not hold. -/
theorem Sound.tracked (h : w.Sound) (id : UInt16) (side : Side)
    (htracked : (Record.find? id (w.receiver.records side)).isSome) :
    (Record.find? id w.sender.outgoing).isSome := by
  cases side with
  | outgoing => simp [ExchangeTable.records, h.idle.2] at htracked
  | incoming => exact (h.phase id).sender_isSome htracked

/-- Once no message is published any more, accepting what is on its way comes to an end. The
induction is on the number of packets still to be accepted. -/
theorem Sound.drain (h : w.Sound) : ∃ moves w', w.run moves = .ok w' ∧ w'.Sound ∧
    (∀ id qos content, Move.publish id qos content ∉ moves) ∧
    w'.toReceiver = [] ∧ w'.toSender = [] ∧ w'.published = w.published := by
  generalize hn : w.weight = n
  induction n using Nat.strongRecOn generalizing w with
  | ind n ih =>
    have more : ∀ m w₁, (∀ id qos content, Move.publish id qos content ≠ m) →
        w.step m = .ok w₁ → Accepts w w₁ →
        ∃ moves w', w.run moves = .ok w' ∧ w'.Sound ∧
          (∀ id qos content, Move.publish id qos content ∉ moves) ∧
          w'.toReceiver = [] ∧ w'.toSender = [] ∧ w'.published = w.published := by
      intro m w₁ hm hstep haccepts
      obtain ⟨moves, w₂, hrun, hsound, hmoves, hforth, hback, hpublished⟩ :=
        ih w₁.weight (hn ▸ haccepts.weight_lt) haccepts.sound rfl
      refine ⟨m :: moves, w₂, ?_, hsound, ?_, hforth, hback, hpublished.trans haccepts.published⟩
      · rw [run_cons, hstep]
        exact hrun
      · intro id qos content hmem
        rcases List.mem_cons.mp hmem with heq | hmem
        · exact hm id qos content heq
        · exact hmoves id qos content hmem
    by_cases hforth : w.toReceiver = []
    · by_cases hback : w.toSender = []
      · exact ⟨[], w, rfl, h, by simp, hforth, hback, rfl⟩
      · obtain ⟨w₁, hstep, haccepts⟩ := h.senderAccepts hback
        exact more .senderAccepts w₁ (by simp) hstep haccepts
    · obtain ⟨w₁, hstep, haccepts⟩ := h.receiverAccepts hforth
      exact more .receiverAccepts w₁ (by simp) hstep haccepts

/-- **Both ends agree.** If the receiver has as much room as the sender, no table refuses what it is
told, in whatever order messages are published and packets accepted. What was published is what was
delivered, followed by what is on its way; the receiver holds no exchange that the sender does not
hold; and with nothing on its way no exchange is open, a state that is always in reach. -/
theorem run_agrees {outgoing incoming' : ℕ} (h : outgoing ≤ incoming') (incoming outgoing' : ℕ)
    (moves : List (Move α)) :
    ∃ w : TwoEnds α, (start outgoing incoming outgoing' incoming').run moves = .ok w ∧
      w.published = w.delivered ++ w.toReceiver.filterMap Parcel.content? ∧
      (∀ id side, (Record.find? id (w.receiver.records side)).isSome →
        (Record.find? id w.sender.outgoing).isSome) ∧
      (w.toReceiver = [] → w.toSender = [] →
        ∀ side, w.sender.records side = [] ∧ w.receiver.records side = []) ∧
      ∃ more w', w.run more = .ok w' ∧ (∀ id qos content, Move.publish id qos content ∉ more) ∧
        w'.toReceiver = [] ∧ w'.toSender = [] ∧ w'.delivered = w.published := by
  obtain ⟨w, hrun, hsound⟩ := sound_run (sound_start h incoming outgoing') moves
  obtain ⟨more, w', hrun', hsound', hmore, hforth, hback, hpublished⟩ := hsound.drain
  refine ⟨w, hrun, hsound.inOrder, hsound.tracked, hsound.records_eq_nil, more, w', hrun', hmore,
    hforth, hback, ?_⟩
  have horder := hsound'.inOrder
  rw [hforth, hpublished] at horder
  simpa using horder.symm

/-- Two messages at once with room for two at both ends, the second one delivered and its
identifier used again. -/
theorem run_agrees_two : 2 ≤ 2 ∧
    ∃ w, (start 2 0 0 2).run [.publish 5 .exactlyOnce 'a', .publish 7 .atLeastOnce 'b',
        .receiverAccepts, .receiverAccepts, .senderAccepts, .senderAccepts,
        .publish 7 .exactlyOnce 'c'] = .ok w ∧
      w.published = w.delivered ++ w.toReceiver.filterMap Parcel.content? ∧
      w.published = ['a', 'b', 'c'] ∧ w.delivered = ['a', 'b'] := by
  obtain ⟨w, hrun, hdelivered, -⟩ := run_agrees (Nat.le_refl 2) 0 0
    [.publish 5 .exactlyOnce 'a', .publish 7 .atLeastOnce 'b', .receiverAccepts,
      .receiverAccepts, .senderAccepts, .senderAccepts, .publish 7 .exactlyOnce 'c']
  refine ⟨Nat.le_refl 2, w, hrun, hdelivered, ?_⟩
  cases hrun
  exact ⟨rfl, rfl⟩

end TwoEnds

end MqttClient
