import MqttClient.Proofs.Exchange.Flow
import MqttClient.Proofs.Running

/-!
# Exchanges do not interfere

A request that names an identifier looks at the record of that identifier and at the room that is
left, and leaves all other records as they are, in their order (`ExchangeTable.Valid.touches`).
Its answer, and the record that it leaves, depend on nothing else (`ExchangeTable.answer_alike`).
So requests about different identifiers may change places, as long as there is room for them
(`ExchangeTable.requests_independent`).
-/
namespace MqttClient

/-- The side on which a message that travels this way is tracked. -/
def Direction.side : Direction → Side
  | .sent => .outgoing
  | .received => .incoming

namespace Record
variable {id id' : UInt16} {r : Record} {records records' : List Record} {next : ExchangeState}

/-- One list of records comes from another by a change of what is found under an identifier: a
record is added behind the others, or moved on, or dropped. -/
inductive Changes (id : UInt16) (records : List Record) : List Record → Prop where
  | keep : Changes id records records
  | push (qos : QoS) (state : ExchangeState) (new : find? id records = none) :
    Changes id records (records ++ [⟨id, qos, state⟩])
  | settle (next : ExchangeState) : Changes id records (settle id next records)

theorem drop_settle (id : UInt16) (next : ExchangeState) (records : List Record) :
    drop id (settle id next records) = drop id records := by
  by_cases hnext : next = .complete
  · simp [hnext, drop]
  rw [settle_of_ne hnext]
  induction records with
  | nil => rfl
  | cons r rest ih =>
    simp only [drop] at ih
    by_cases hr : r.id = id <;> simp [drop, hr, ih]

/-- What is left without the record of the identifier is the same, in the same order. -/
theorem Changes.drop_eq (h : Changes id records records') : drop id records' = drop id records := by
  cases h with
  | keep => rfl
  | push qos state new => simp [drop]
  | settle next => exact drop_settle id next records

theorem Changes.find?_of_ne (h : Changes id records records') (hne : id' ≠ id) :
    find? id' records' = find? id' records := by
  rw [← find?_drop_of_ne hne, h.drop_eq, find?_drop_of_ne hne]

/-- What is found of a record after it has moved on. -/
def settled (next : ExchangeState) (r : Record) : Option Record :=
  if next = .complete then none else some { r with state := next }

theorem find?_settle (h : find? id records = some r) (next : ExchangeState) :
    find? id (settle id next records) = r.settled next := by
  by_cases hnext : next = .complete
  · simp [hnext, settled]
  · rw [find?_settle_self hnext h, settled, if_neg hnext]

/-- Where identifiers are distinct, each is that of one record at most. -/
theorem Valid.count_le_one {side : Side} {capacity : ℕ} (h : Valid side capacity records)
    (id : UInt16) : records.countP (·.id = id) ≤ 1 := by
  have hcount := List.nodup_iff_count_le_one.mp h.nodup id
  rwa [List.count, List.countP_map] at hcount

end Record

namespace ExchangeTable
variable {t t' : ExchangeTable} {id : UInt16} {side : Side} {request : Request}

/-- What a table answers to a request. -/
inductive Reply where
  | done
  /-- The state in which an exchange is now. -/
  | state (s : ExchangeState)
  /-- The next identifier whose PUBREL is to be sent again, and the cursor past it. -/
  | pubrel (id : Option UInt16) (cursor : ℕ)
  deriving DecidableEq

/-- Do what a request asks for: the answer and the table afterwards. -/
def perform (t : ExchangeTable) : Request → Except Fault (Reply × ExchangeTable)
  | .reserve id qos => (t.reserve id qos).map fun t' => (.done, t')
  | .publish id direction qos => (t.onPublish id direction qos).map fun (s, t') => (.state s, t')
  | .ack id kind direction => (t.onAck id kind direction).map fun (s, t') => (.state s, t')
  | .nextPubrel cursor =>
    let (id, cursor) := t.nextPubrel cursor
    .ok (.pubrel id cursor, t)
  | .remove id => .ok (.done, t.remove id)
  | .clear => .ok (.done, t.clear)

/-- The answer to a request. -/
def answer (t : ExchangeTable) (request : Request) : Except Fault Reply :=
  (t.perform request).map Prod.fst

/-- The side and the identifier that a request names, if it names any. -/
def Request.target? : Request → Option (Side × UInt16)
  | .reserve id _ | .remove id => some (.outgoing, id)
  | .publish id direction _ => some (direction.side, id)
  | .ack id kind direction => some (kind.side direction, id)
  | .nextPubrel _ | .clear => none

/-- A request that fails leaves the table as it was. -/
theorem after_eq (t : ExchangeTable) (request : Request) :
    t.after request = match t.perform request with
      | .ok (_, t') => t'
      | .error _ => t := by
  cases request with
  | reserve id qos =>
    simp only [after, perform]
    cases t.reserve id qos <;> rfl
  | publish id direction qos =>
    simp only [after, perform]
    cases t.onPublish id direction qos <;> rfl
  | ack id kind direction =>
    simp only [after, perform]
    cases t.onAck id kind direction <;> rfl
  | nextPubrel cursor => rfl
  | remove id => rfl
  | clear => rfl

@[simp] theorem withRecords_records (t : ExchangeTable) (side : Side) :
    t.withRecords side (t.records side) = t := by
  cases side <;> rfl

/-! ## The ways to handle a request -/

/-- Open an exchange under an identifier that is not in use. -/
def openRecord (t : ExchangeTable) (side : Side) (r : Record) (reply : Reply) :
    Except Fault (Reply × ExchangeTable) :=
  if (Record.find? r.id (t.records side)).isSome then .error .stateCollision
  else if (t.records side).length < t.capacity side then
    .ok (reply, t.withRecords side (t.records side ++ [r]))
  else .error .noMemory

/-- Move an exchange on to the state that its record leads to, if it leads to any. -/
def moveRecord (t : ExchangeTable) (side : Side) (id : UInt16)
    (next : Record → Option ExchangeState) : Except Fault (Reply × ExchangeTable) :=
  match Record.find? id (t.records side) with
  | none => .error .illegalState
  | some r =>
    match next r with
    | none => .error .illegalState
    | some state => .ok (.state state, t.withRecords side (Record.settle id state (t.records side)))

/-- The ways in which tables handle requests that name an identifier on a side. -/
inductive Handling (side : Side) (id : UInt16) :
    (ExchangeTable → Except Fault (Reply × ExchangeTable)) → Prop where
  | refuse (fault : Fault) : Handling side id fun _ => .error fault
  | ignore (reply : Reply) : Handling side id fun t => .ok (reply, t)
  | opens (qos : QoS) (state : ExchangeState) (reply : Reply) :
    Handling side id fun t => t.openRecord side ⟨id, qos, state⟩ reply
  | moves (next : Record → Option ExchangeState) :
    Handling side id fun t => t.moveRecord side id next
  | drops : Handling side id fun t =>
    .ok (.done, t.withRecords side (Record.drop id (t.records side)))

theorem perform_reserve (t : ExchangeTable) (id : UInt16) (qos : QoS) :
    t.perform (.reserve id qos) =
      if id = 0 ∨ qos = .atMostOnce then .error .badParameter
      else t.openRecord .outgoing ⟨id, qos, .reserved⟩ .done := by
  rw [perform, reserve_eq, openRecord]
  simp only [records, capacity, apply_ite (Except.map _)]
  rfl

theorem perform_publish_sent (t : ExchangeTable) (id : UInt16) {qos : QoS}
    (hqos : qos ≠ .atMostOnce) :
    t.perform (.publish id .sent qos) = t.moveRecord .outgoing id fun r =>
      if r.qos = qos ∧ r.state.canPublish then some (.opening .sent qos) else none := by
  rw [perform, onPublish_sent t id hqos, onPublishSent, moveRecord]
  simp only [records]
  cases Record.find? id t.outgoing with
  | none => rfl
  | some r => by_cases hmay : r.qos = qos ∧ r.state.canPublish = true <;> simp [hmay] <;> rfl

theorem perform_publish_received (t : ExchangeTable) (id : UInt16) {qos : QoS}
    (hqos : qos ≠ .atMostOnce) :
    t.perform (.publish id .received qos) =
      t.openRecord .incoming ⟨id, qos, .opening .received qos⟩
        (.state (.opening .received qos)) := by
  rw [perform, onPublish_received t id hqos, onPublishReceived_eq, openRecord]
  simp only [records, capacity, apply_ite (Except.map _)]
  rfl

theorem perform_ack (t : ExchangeTable) (id : UInt16) (kind : AckKind) (direction : Direction) :
    t.perform (.ack id kind direction) =
      t.moveRecord (kind.side direction) id fun r => r.state.onAck kind direction := by
  simp only [perform, onAck, moveRecord]
  cases Record.find? id (t.records (kind.side direction)) with
  | none => rfl
  | some r => cases hnext : r.state.onAck kind direction <;> simp only [hnext] <;> rfl

/-- Every request that names an identifier is handled in one of these ways. -/
theorem handling (htarget : request.target? = some (side, id)) :
    ∃ handle, Handling side id handle ∧ ∀ t : ExchangeTable, t.perform request = handle t := by
  cases request with
  | reserve id' qos =>
    cases htarget
    by_cases hargs : id = 0 ∨ qos = .atMostOnce
    · exact ⟨_, .refuse .badParameter, fun t => by rw [perform_reserve, if_pos hargs]⟩
    · exact ⟨_, .opens qos .reserved .done, fun t => by rw [perform_reserve, if_neg hargs]⟩
  | publish id' direction qos =>
    cases htarget
    by_cases hqos : qos = .atMostOnce
    · refine ⟨_, .ignore (.state .complete), fun t => ?_⟩
      rw [perform, onPublish.eq_def, if_pos hqos]
      rfl
    · cases direction with
      | sent => exact ⟨_, .moves _, fun t => perform_publish_sent t id hqos⟩
      | received => exact ⟨_, .opens _ _ _, fun t => perform_publish_received t id hqos⟩
  | ack id' kind direction =>
    cases htarget
    exact ⟨_, .moves _, fun t => perform_ack t id kind direction⟩
  | nextPubrel cursor => cases htarget
  | remove id' =>
    cases htarget
    exact ⟨_, .drops, fun t => rfl⟩
  | clear => cases htarget

/-! ## What a request leaves alone -/

/-- What a request changes is the record that it names. -/
theorem Handling.changes {handle : ExchangeTable → Except Fault (Reply × ExchangeTable)}
    {reply : Reply} (h : Handling side id handle) (hok : handle t = .ok (reply, t')) :
    ∃ records, t' = t.withRecords side records ∧ Record.Changes id (t.records side) records := by
  cases h with
  | refuse fault => cases hok
  | ignore reply' =>
    cases hok
    exact ⟨_, (withRecords_records t side).symm, .keep⟩
  | opens qos state reply' =>
    simp only [openRecord] at hok
    split_ifs at hok with hfound
    cases hok
    exact ⟨_, rfl, .push qos state (by simpa using hfound)⟩
  | moves next =>
    simp only [moveRecord] at hok
    split at hok
    · cases hok
    · split at hok
      · cases hok
      · cases hok
        exact ⟨_, rfl, .settle _⟩
  | drops =>
    cases hok
    exact ⟨_, rfl, .settle .complete⟩

theorem after_changes (t : ExchangeTable) (htarget : request.target? = some (side, id)) :
    ∃ records, t.after request = t.withRecords side records ∧
      Record.Changes id (t.records side) records := by
  obtain ⟨handle, hhandle, hperform⟩ := handling htarget
  rw [after_eq, hperform]
  cases hok : handle t with
  | error fault => exact ⟨_, (withRecords_records t side).symm, .keep⟩
  | ok found => exact hhandle.changes hok

/-- From one table to the other nothing has changed but the record of an identifier on a side, of
which there is one at most in either. -/
structure Touches (side : Side) (id : UInt16) (t t' : ExchangeTable) : Prop where
  capacity : ∀ side', t'.capacity side' = t.capacity side'
  otherSide : ∀ side', side' ≠ side → t'.records side' = t.records side'
  otherRecords : Record.drop id (t'.records side) = Record.drop id (t.records side)
  before_le_one : (t.records side).countP (·.id = id) ≤ 1
  after_le_one : (t'.records side).countP (·.id = id) ≤ 1

theorem Valid.touches (h : t.Valid) (htarget : request.target? = some (side, id)) :
    Touches side id t (t.after request) := by
  have hafter := ((h.after request).valid.records side).count_le_one id
  obtain ⟨records, heq, hchanges⟩ := after_changes t htarget
  rw [heq] at hafter ⊢
  refine ⟨fun side' => capacity_withRecords t side side' records,
    fun side' hside => records_withRecords_of_ne hside t records, ?_,
    (h.records side).count_le_one id, hafter⟩
  rw [records_withRecords_self]
  exact hchanges.drop_eq

/-- What is found under other names stays. -/
theorem find?_after_of_ne (t : ExchangeTable) (htarget : request.target? = some (side, id))
    {side' : Side} {id' : UInt16} (hne : (side', id') ≠ (side, id)) :
    Record.find? id' ((t.after request).records side') = Record.find? id' (t.records side') := by
  obtain ⟨records, heq, hchanges⟩ := after_changes t htarget
  rw [heq]
  by_cases hside : side' = side
  · subst hside
    rw [records_withRecords_self]
    exact hchanges.find?_of_ne fun hid => hne (by rw [hid])
  · rw [records_withRecords_of_ne hside]

/-! ## What a request depends on -/

/-- Tables in which the same record is found under an identifier handle a request for it alike, if
they have room for it: they give the same answer and leave the same record. -/
theorem Handling.alike {handle : ExchangeTable → Except Fault (Reply × ExchangeTable)}
    (h : Handling side id handle)
    (hfound : Record.find? id (t.records side) = Record.find? id (t'.records side))
    (hroom : handle t ≠ .error .noMemory) (hroom' : handle t' ≠ .error .noMemory) :
    Act.SameResult (fun p p' => p.1 = p'.1 ∧
      Record.find? id (p.2.records side) = Record.find? id (p'.2.records side))
      (handle t) (handle t') := by
  cases h with
  | refuse fault => exact .error fault
  | ignore reply => exact .ok ⟨rfl, hfound⟩
  | opens qos state reply =>
    simp only [openRecord, ← hfound] at hroom hroom' ⊢
    by_cases hsome : (Record.find? id (t.records side)).isSome
    · rw [if_pos hsome, if_pos hsome]
      exact .error _
    rw [if_neg hsome, ite_ne_right_iff] at hroom hroom'
    rw [if_neg hsome, if_neg hsome, if_pos hroom.1, if_pos hroom'.1]
    have hnew : Record.find? id (t.records side) = none := by simpa using hsome
    refine .ok ⟨rfl, ?_⟩
    rw [records_withRecords_self, records_withRecords_self]
    exact (Record.find?_append_self hnew rfl).trans
      (Record.find?_append_self (hfound ▸ hnew) rfl).symm
  | moves next =>
    simp only [moveRecord, ← hfound]
    cases hsome : Record.find? id (t.records side) with
    | none => exact .error _
    | some r =>
      cases hnext : next r with
      | none =>
        simp only [hnext]
        exact .error _
      | some state =>
        simp only [hnext]
        refine .ok ⟨rfl, ?_⟩
        rw [records_withRecords_self, records_withRecords_self, Record.find?_settle hsome,
          Record.find?_settle (hfound ▸ hsome)]
  | drops =>
    refine .ok ⟨rfl, ?_⟩
    simp

/-- The answer to a request, and the record that it leaves, depend on the record that it names. -/
theorem answer_alike (htarget : request.target? = some (side, id))
    (hfound : Record.find? id (t.records side) = Record.find? id (t'.records side))
    (hroom : t.answer request ≠ .error .noMemory) (hroom' : t'.answer request ≠ .error .noMemory) :
    t.answer request = t'.answer request ∧
      Record.find? id ((t.after request).records side) =
        Record.find? id ((t'.after request).records side) := by
  obtain ⟨handle, hhandle, hperform⟩ := handling htarget
  simp only [answer, after_eq, hperform] at hroom hroom' ⊢
  have halike := hhandle.alike hfound (fun h => hroom (by rw [h]; rfl))
    (fun h => hroom' (by rw [h]; rfl))
  generalize handle t = outcome, handle t' = outcome' at halike ⊢
  cases halike with
  | error fault => exact ⟨rfl, hfound⟩
  | ok h => exact ⟨by simp [Except.map, h.1], h.2⟩

/-- Neither of two requests, made one after the other, runs out of room. -/
def HasRoom (t : ExchangeTable) (first second : Request) : Prop :=
  t.answer first ≠ .error .noMemory ∧ (t.after first).answer second ≠ .error .noMemory

instance (t : ExchangeTable) (first second : Request) : Decidable (t.HasRoom first second) :=
  inferInstanceAs (Decidable (_ ∧ _))

/-- Requests that name different identifiers may change places. -/
theorem after_comm (t : ExchangeTable) {first second : Request} {side' : Side} {id' : UInt16}
    (hfirst : first.target? = some (side, id)) (hsecond : second.target? = some (side', id'))
    (hne : id ≠ id') (hroom : t.HasRoom first second) (hroom' : t.HasRoom second first) :
    t.answer first = (t.after second).answer first ∧
      (t.after first).answer second = t.answer second ∧
      ∀ side id, Record.find? id (((t.after first).after second).records side) =
        Record.find? id (((t.after second).after first).records side) := by
  have hapart : (side', id') ≠ (side, id) := by simp [Ne.symm hne]
  have hstays := find?_after_of_ne t hfirst hapart
  have hstays' := find?_after_of_ne t hsecond hapart.symm
  obtain ⟨hanswer, hleft⟩ := answer_alike hsecond hstays hroom.2 hroom'.1
  obtain ⟨hanswer', hleft'⟩ := answer_alike hfirst hstays' hroom'.2 hroom.1
  refine ⟨hanswer'.symm, hanswer, fun s i => ?_⟩
  by_cases hat : (s, i) = (side', id')
  · -- The second request decides, and the first does not touch what it leaves.
    cases hat
    rw [hleft, find?_after_of_ne _ hfirst hapart]
  by_cases hat' : (s, i) = (side, id)
  · cases hat'
    rw [hleft', find?_after_of_ne _ hsecond hapart.symm]
  · rw [find?_after_of_ne _ hsecond hat, find?_after_of_ne _ hfirst hat',
      find?_after_of_ne _ hfirst hat', find?_after_of_ne _ hsecond hat]

theorem after_of_answer_error {fault : Fault} (h : t.answer request = .error fault) :
    t.after request = t := by
  rw [after_eq]
  rw [answer] at h
  cases hperform : t.perform request with
  | error fault' => rfl
  | ok found =>
    rw [hperform] at h
    cases h

/-- **Exchanges do not interfere.** Whatever a table has been asked for before, a request that
names an identifier on a side touches nothing but the record of that identifier, and nothing at
all when it fails; and two requests that name different identifiers, and find room in whichever
order they come, get the same answers in either order and leave the same records under the same
names. -/
theorem requests_independent (m n : ℕ) (requests : List Request) :
    let t := (empty m n).run requests
    (∀ request side id, request.target? = some (side, id) → Touches side id t (t.after request)) ∧
      (∀ request fault, t.answer request = .error fault → t.after request = t) ∧
      ∀ first second side side' id id', first.target? = some (side, id) →
        second.target? = some (side', id') → id ≠ id' →
        t.HasRoom first second → t.HasRoom second first →
        t.answer first = (t.after second).answer first ∧
          (t.after first).answer second = t.answer second ∧
          ∀ side id, Record.find? id (((t.after first).after second).records side) =
            Record.find? id (((t.after second).after first).records side) := by
  intro t
  have hvalid : t.Valid := ((valid_empty m n).run requests).1
  exact ⟨fun request side id htarget => hvalid.touches htarget,
    fun request fault hfails => after_of_answer_error hfails,
    fun first second side side' id id' hfirst hsecond hne hroom hroom' =>
      after_comm t hfirst hsecond hne hroom hroom'⟩

/-- Two messages that wait for their first acknowledgement. -/
def twoSent : List Request :=
  [.reserve 1 .atLeastOnce, .publish 1 .sent .atLeastOnce, .reserve 2 .exactlyOnce,
    .publish 2 .sent .exactlyOnce]

/-- The PUBACK of the one and the PUBREC of the other come in either order. -/
theorem requests_independent_twoSent :
    let t := (empty 2 0).run twoSent
    let puback := Request.ack 1 .puback .received
    let pubrec := Request.ack 2 .pubrec .received
    Touches .outgoing 1 t (t.after puback) ∧
      (t.after pubrec).answer puback = .ok (.state .complete) ∧
      (t.after puback).answer pubrec = .ok (.state (.owes .pubrel)) ∧
      ∀ side id, Record.find? id (((t.after puback).after pubrec).records side) =
        Record.find? id (((t.after pubrec).after puback).records side) := by
  intro t puback pubrec
  obtain ⟨htouches, -, hcomm⟩ := requests_independent 2 0 twoSent
  have hroom : t.HasRoom puback pubrec := by decide
  have hroom' : t.HasRoom pubrec puback := by decide
  obtain ⟨hfirst, hsecond, hmap⟩ :=
    hcomm puback pubrec .outgoing .outgoing 1 2 rfl rfl (by decide) hroom hroom'
  exact ⟨htouches puback .outgoing 1 rfl, hfirst.symm.trans (by decide), hsecond.trans (by decide),
    hmap⟩

end ExchangeTable

end MqttClient
