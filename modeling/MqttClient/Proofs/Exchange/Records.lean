import Mathlib.Data.List.Nodup
import Mathlib.Tactic.SplitIfs
import MqttClient.Exchange.Table

/-!
# Lookup in exchange tables

A list of records is seen through `Record.find?`, and each operation on it by what it does to
that view: the record of the identifier it names changes and all others stay. From there each
operation of a table has one equation for the case in which it succeeds.
-/
namespace MqttClient

theorem QoS.ne_atMostOnce_of_isTracked {qos : QoS} (h : qos.isTracked = true) :
    qos ≠ .atMostOnce := by
  rintro rfl
  cases h

theorem QoS.isTracked_of_ne_atMostOnce {qos : QoS} (h : qos ≠ .atMostOnce) :
    qos.isTracked = true := by
  cases qos with
  | atMostOnce => exact absurd rfl h
  | atLeastOnce => rfl
  | exactlyOnce => rfl

namespace Record
variable {id id' : UInt16} {r : Record} {records : List Record}

@[simp] theorem find?_nil (id : UInt16) : find? id [] = none := rfl

theorem find?_cons (id : UInt16) (r : Record) (records : List Record) :
    find? id (r :: records) = if r.id = id then some r else find? id records := by
  by_cases h : r.id = id <;> simp [find?, h]

theorem find?_eq_none_iff : find? id records = none ↔ id ∉ records.map (·.id) := by
  simp [find?]

theorem find?_isSome_iff : (find? id records).isSome ↔ id ∈ records.map (·.id) := by
  simp [find?]

/-- Records among which no identifier is found are none. -/
theorem eq_nil_of_find?_none (h : ∀ id, find? id records = none) : records = [] := by
  cases records with
  | nil => rfl
  | cons r rest => simpa [find?_cons] using h r.id

/-- A record behind the others is found where no other has its identifier. -/
theorem find?_append_singleton (id : UInt16) (records : List Record) (r : Record) :
    find? id (records ++ [r]) = (find? id records).or (if r.id = id then some r else none) := by
  by_cases h : r.id = id <;> simp [find?, List.find?_append, h]

theorem find?_append_self (h : find? id records = none) (hr : r.id = id) :
    find? id (records ++ [r]) = some r := by
  simp [find?_append_singleton, h, hr]

theorem find?_append_of_ne (hr : r.id ≠ id) :
    find? id (records ++ [r]) = find? id records := by
  simp [find?_append_singleton, hr]

/-- A record under a new identifier keeps the identifiers distinct. -/
theorem nodup_ids_append (h : find? r.id records = none) (hnodup : (records.map (·.id)).Nodup) :
    ((records ++ [r]).map (·.id)).Nodup := by
  rw [find?_eq_none_iff] at h
  rw [List.map_append, List.nodup_append]
  refine ⟨hnodup, by simp, ?_⟩
  rintro id hid id' hid' rfl
  simp only [List.map_cons, List.map_nil, List.mem_singleton] at hid'
  exact h (hid' ▸ hid)

/-! ## Dropping and settling -/

@[simp] theorem find?_drop_self (id : UInt16) (records : List Record) :
    find? id (drop id records) = none := by
  simp [find?, drop]

theorem find?_drop_of_ne (h : id' ≠ id) (records : List Record) :
    find? id' (drop id records) = find? id' records := by
  induction records with
  | nil => rfl
  | cons r rest ih =>
    simp only [drop] at ih
    by_cases hr : r.id = id
    · simp [drop, find?_cons, hr, Ne.symm h, ih]
    · simp [drop, find?_cons, hr, ih]

@[simp] theorem settle_complete (id : UInt16) (records : List Record) :
    settle id .complete records = drop id records := rfl

theorem settle_of_ne {next : ExchangeState} (h : next ≠ .complete) (records : List Record) :
    settle id next records =
      records.map fun r => if r.id = id then { r with state := next } else r := by
  rw [settle, if_neg h]

/-- Of a record behind the others, and of no other one, the state changes. -/
theorem settle_append_singleton {next : ExchangeState} (hnext : next ≠ .complete)
    (hfree : find? r.id records = none) :
    settle r.id next (records ++ [r]) = records ++ [{ r with state := next }] := by
  have hothers : ∀ x ∈ records, x.id ≠ r.id := by simpa [find?] using hfree
  have hsame : (records.map fun x => if x.id = r.id then { x with state := next } else x) =
      records :=
    (List.map_congr_left fun x hx => if_neg (hothers x hx)).trans (List.map_id' records)
  rw [settle_of_ne hnext, List.map_append, hsame]
  simp

theorem find?_settle_self {next : ExchangeState} (hnext : next ≠ .complete)
    (h : find? id records = some r) :
    find? id (settle id next records) = some { r with state := next } := by
  rw [settle_of_ne hnext]
  induction records with
  | nil => cases h
  | cons first rest ih =>
    rw [find?_cons] at h
    by_cases hfirst : first.id = id
    · rw [if_pos hfirst] at h
      cases h
      simp [find?_cons, hfirst]
    · rw [if_neg hfirst] at h
      simp [find?_cons, hfirst, ih h]

theorem find?_settle_of_ne (h : id' ≠ id) (next : ExchangeState) (records : List Record) :
    find? id' (settle id next records) = find? id' records := by
  by_cases hnext : next = .complete
  · rw [hnext, settle_complete, find?_drop_of_ne h]
  rw [settle_of_ne hnext]
  induction records with
  | nil => rfl
  | cons r rest ih =>
    by_cases hr : r.id = id
    · simp [find?_cons, hr, ih, Ne.symm h]
    · simp [find?_cons, hr, ih]

/-- Settling never adds a record, and keeps the order of those that stay. -/
theorem ids_settle_sublist (id : UInt16) (next : ExchangeState) (records : List Record) :
    ((settle id next records).map (·.id)).Sublist (records.map (·.id)) := by
  by_cases hnext : next = .complete
  · rw [hnext, settle_complete]
    exact (List.filter_sublist).map _
  · rw [settle_of_ne hnext, List.map_map]
    have hid : ((·.id) ∘ fun r : Record => if r.id = id then { r with state := next } else r)
        = (·.id) := by
      funext r
      by_cases hr : r.id = id <;> simp [hr]
    rw [hid]

theorem length_settle_le (id : UInt16) (next : ExchangeState) (records : List Record) :
    (settle id next records).length ≤ records.length := by
  simpa using (ids_settle_sublist id next records).length_le

end Record

namespace ExchangeTable
variable {t : ExchangeTable} {id : UInt16} {qos : QoS} {r : Record}

@[simp] theorem records_withRecords_self (t : ExchangeTable) (side : Side) (rs : List Record) :
    (t.withRecords side rs).records side = rs := by
  cases side <;> rfl

/-! ## What each operation gives -/

theorem onPublish_sent (t : ExchangeTable) (id : UInt16) (h : qos ≠ .atMostOnce) :
    t.onPublish id .sent qos = t.onPublishSent id qos := by
  rw [onPublish, if_neg h]

theorem onPublish_received (t : ExchangeTable) (id : UInt16) (h : qos ≠ .atMostOnce) :
    t.onPublish id .received qos = t.onPublishReceived id qos := by
  rw [onPublish, if_neg h]

/-- Opening an exchange fails in three ways, in this order. -/
theorem reserve_eq (t : ExchangeTable) (id : UInt16) (qos : QoS) :
    t.reserve id qos =
      if id = 0 ∨ qos = .atMostOnce then .error .badParameter
      else if (Record.find? id t.outgoing).isSome then .error .stateCollision
      else if t.outgoing.length < t.outgoingCapacity then
        .ok { t with outgoing := t.outgoing ++ [⟨id, qos, .reserved⟩] }
      else .error .noMemory := by
  simp only [reserve, Record.push]
  split_ifs <;> rfl

theorem onPublishReceived_eq (t : ExchangeTable) (id : UInt16) (qos : QoS) :
    t.onPublishReceived id qos =
      if (Record.find? id t.incoming).isSome then .error .stateCollision
      else if t.incoming.length < t.incomingCapacity then
        .ok (.opening .received qos,
          { t with incoming := t.incoming ++ [⟨id, qos, .opening .received qos⟩] })
      else .error .noMemory := by
  simp only [onPublishReceived, Record.push]
  split_ifs <;> rfl

/-- An exchange is opened for a tracked message under a new identifier, where there is room. -/
theorem reserve_inv {t' : ExchangeTable} (h : t.reserve id qos = .ok t') :
    id ≠ 0 ∧ qos ≠ .atMostOnce ∧ Record.find? id t.outgoing = none ∧
      t.outgoing.length < t.outgoingCapacity ∧
      t' = { t with outgoing := t.outgoing ++ [⟨id, qos, .reserved⟩] } := by
  rw [reserve_eq] at h
  split_ifs at h with hargs hfind hroom
  cases h
  rw [not_or] at hargs
  exact ⟨hargs.1, hargs.2, by simpa using hfind, hroom, rfl⟩

theorem reserve_collision (h : t.reserve id qos = .error .stateCollision) :
    ∃ r, Record.find? id t.outgoing = some r := by
  rw [reserve_eq] at h
  by_cases hfind : (Record.find? id t.outgoing).isSome
  · exact Option.isSome_iff_exists.mp hfind
  · rw [if_neg hfind] at h
    split_ifs at h <;> cases h

theorem onPublishSent_eq (h : Record.find? id t.outgoing = some r) (hqos : r.qos = qos)
    (hstate : r.state.canPublish = true) :
    t.onPublishSent id qos = .ok (.opening .sent qos,
      { t with outgoing := Record.settle id (.opening .sent qos) t.outgoing }) := by
  simp [onPublishSent, h, hqos, hstate]

theorem onAck_eq {ack : AckKind} {direction : Direction} {next : ExchangeState}
    (h : Record.find? id (t.records (ack.side direction)) = some r)
    (hnext : r.state.onAck ack direction = some next) :
    t.onAck id ack direction = .ok (next, t.withRecords (ack.side direction)
      (Record.settle id next (t.records (ack.side direction)))) := by
  simp [onAck, h, hnext]

theorem onAck_inv {ack : AckKind} {direction : Direction} {next : ExchangeState}
    {t' : ExchangeTable} (h : t.onAck id ack direction = .ok (next, t')) :
    ∃ r, Record.find? id (t.records (ack.side direction)) = some r ∧
      r.state.onAck ack direction = some next ∧ t' = t.withRecords (ack.side direction)
        (Record.settle id next (t.records (ack.side direction))) := by
  rw [onAck] at h
  split at h
  · cases h
  · rename_i r hfound
    split at h
    · cases h
    · rename_i hnext
      cases h
      exact ⟨r, hfound, hnext, rfl⟩

end ExchangeTable

end MqttClient
