import MqttClient.Proofs.Exchange.Records

/-!
# The flow of an exchange

An exchange runs through the states of its flow in their order; there is one flow for each side
and guarantee (`ExchangeState.flow`). Whatever a table is asked for, in whatever order, its
records stay in their flows and never go back in them (`ExchangeTable.valid_run`).
-/
namespace MqttClient

namespace ExchangeState

/-- The states of an exchange, in order. An untracked message has none. -/
def flow : Side → QoS → List ExchangeState
  | _, .atMostOnce => []
  | .outgoing, .atLeastOnce => [reserved, awaits .puback]
  | .outgoing, .exactlyOnce => [reserved, awaits .pubrec, owes .pubrel, awaits .pubcomp]
  | .incoming, .atLeastOnce => [owes .puback]
  | .incoming, .exactlyOnce => [owes .pubrec, awaits .pubrel, owes .pubcomp]

/-- How many states of the flow come before this one. -/
def stage (side : Side) (qos : QoS) (s : ExchangeState) : ℕ := (flow side qos).idxOf s

variable {side : Side} {qos : QoS} {s next : ExchangeState}

theorem complete_notMem_flow (side : Side) (qos : QoS) : complete ∉ flow side qos := by
  cases side <;> cases qos <;> simp [flow]

theorem ne_complete_of_mem_flow (h : s ∈ flow side qos) : s ≠ complete := by
  rintro rfl
  exact complete_notMem_flow side qos h

theorem ne_atMostOnce_of_mem_flow (h : s ∈ flow side qos) : qos ≠ .atMostOnce := by
  rintro rfl
  cases side <;> cases h

theorem reserved_mem_flow (h : qos ≠ .atMostOnce) : reserved ∈ flow .outgoing qos := by
  cases qos <;> simp [flow] at h ⊢

theorem opening_mem_flow (h : qos ≠ .atMostOnce) :
    opening .sent qos ∈ flow .outgoing qos ∧ opening .received qos ∈ flow .incoming qos := by
  cases qos <;> simp [flow, opening] at h ⊢

/-- Sending a message leads on in the flow of its exchange. -/
theorem stage_opening (h : s ∈ flow .outgoing qos) (hmay : s.canPublish = true) :
    stage .outgoing qos s ≤ stage .outgoing qos (opening .sent qos) := by
  cases qos with
  | atMostOnce => cases h
  | atLeastOnce =>
    simp only [flow, List.mem_cons, List.not_mem_nil, or_false] at h
    rcases h with rfl | rfl <;> decide
  | exactlyOnce =>
    simp only [flow, List.mem_cons, List.not_mem_nil, or_false] at h
    rcases h with rfl | rfl | rfl | rfl
    · decide
    · decide
    · cases hmay
    · cases hmay

/-- An acknowledgement that is accepted ends the flow or leads on in it. -/
theorem onAck_flow {ack : AckKind} {direction : Direction}
    (h : s ∈ flow (ack.side direction) qos) (hnext : onAck ack direction s = some next) :
    next = complete ∨ next ∈ flow (ack.side direction) qos ∧
      stage (ack.side direction) qos s ≤ stage (ack.side direction) qos next := by
  cases qos with
  | atMostOnce => cases ack <;> cases direction <;> cases h
  | atLeastOnce =>
    cases ack <;> cases direction <;>
      simp only [AckKind.side, flow, List.mem_cons, List.not_mem_nil, or_false] at h ⊢ <;>
      rcases h with rfl | rfl <;> cases hnext <;> simp
  | exactlyOnce =>
    cases ack <;> cases direction <;>
      simp only [AckKind.side, flow, List.mem_cons, List.not_mem_nil, or_false] at h ⊢ <;>
      rcases h with rfl | rfl | rfl | rfl <;> cases hnext <;> simp <;> decide

end ExchangeState

namespace Record
variable {side : Side} {capacity : ℕ} {records records' : List Record} {id : UInt16} {r : Record}
  {next : ExchangeState}

theorem mem_of_find? (h : find? id records = some r) : r ∈ records ∧ r.id = id :=
  ⟨List.mem_of_find?_eq_some h, by simpa using List.find?_some h⟩

/-- Where identifiers are distinct, every record is found under its own. -/
theorem find?_of_mem (hnodup : (records.map (·.id)).Nodup) (h : r ∈ records) :
    find? r.id records = some r := by
  induction records with
  | nil => cases h
  | cons first rest ih =>
    rw [List.map_cons, List.nodup_cons] at hnodup
    rw [find?_cons]
    rcases List.mem_cons.mp h with rfl | hrest
    · rw [if_pos rfl]
    · have hne : first.id ≠ r.id := fun heq => hnodup.1 (heq ▸ List.mem_map_of_mem hrest)
      rw [if_neg hne, ih hnodup.2 hrest]

/-- The records of a side as they should be. -/
structure Valid (side : Side) (capacity : ℕ) (records : List Record) : Prop where
  nodup : (records.map (·.id)).Nodup
  length_le : records.length ≤ capacity
  inFlow : ∀ r ∈ records, r.state ∈ ExchangeState.flow side r.qos

/-- No record that is there before and after has gone back in its flow, or changed its
guarantee. -/
def Forward (side : Side) (records records' : List Record) : Prop :=
  ∀ id r r', find? id records = some r → find? id records' = some r' →
    r'.qos = r.qos ∧
      ExchangeState.stage side r.qos r.state ≤ ExchangeState.stage side r.qos r'.state

theorem valid_nil (side : Side) (capacity : ℕ) : Valid side capacity [] where
  nodup := List.nodup_nil
  length_le := Nat.zero_le _
  inFlow := by simp

theorem Forward.refl (side : Side) (records : List Record) : Forward side records records := by
  rintro id r _ h h'
  cases h.symm.trans h'
  exact ⟨rfl, Nat.le_refl _⟩

theorem Valid.push (h : Valid side capacity records) (hnew : find? r.id records = none)
    (hroom : records.length < capacity) (hflow : r.state ∈ ExchangeState.flow side r.qos) :
    Valid side capacity (records ++ [r]) ∧ Forward side records (records ++ [r]) := by
  refine ⟨⟨nodup_ids_append hnew h.nodup, ?_, ?_⟩, ?_⟩
  · rw [List.length_append]
    exact hroom
  · intro r' hr'
    rcases List.mem_append.mp hr' with hold | hadded
    · exact h.inFlow r' hold
    · rw [List.mem_singleton.mp hadded]
      exact hflow
  · intro id r₁ r₂ h₁ h₂
    have hne : r.id ≠ id := by
      rintro rfl
      rw [hnew] at h₁
      cases h₁
    rw [find?_append_of_ne hne] at h₂
    exact Forward.refl side records id r₁ r₂ h₁ h₂

/-- Settling a record further on in its flow, or ending it. -/
theorem Valid.settle (h : Valid side capacity records) (hfound : find? id records = some r)
    (hnext : next = .complete ∨ next ∈ ExchangeState.flow side r.qos ∧
      ExchangeState.stage side r.qos r.state ≤ ExchangeState.stage side r.qos next) :
    Valid side capacity (settle id next records) ∧
      Forward side records (settle id next records) := by
  have hnodup := (ids_settle_sublist id next records).nodup h.nodup
  -- What is found afterwards is the settled record, or one that has not been touched.
  have hcases : ∀ id' r', find? id' (Record.settle id next records) = some r' →
      find? id' records = some r' ∨
        id' = id ∧ next ≠ .complete ∧ r' = { r with state := next } := by
    intro id' r' h'
    by_cases hid : id' = id
    · subst hid
      by_cases hcomplete : next = .complete
      · rw [hcomplete, settle_complete, find?_drop_self] at h'
        cases h'
      · rw [find?_settle_self hcomplete hfound] at h'
        cases h'
        exact .inr ⟨rfl, hcomplete, rfl⟩
    · rw [find?_settle_of_ne hid] at h'
      exact .inl h'
  refine ⟨⟨hnodup, Nat.le_trans (length_settle_le id next records) h.length_le, ?_⟩, ?_⟩
  · intro r' hr'
    rcases hcases r'.id r' (find?_of_mem hnodup hr') with hold | ⟨-, hcomplete, heq⟩
    · exact h.inFlow r' (mem_of_find? hold).1
    · rw [heq]
      exact (hnext.resolve_left hcomplete).1
  · intro id' r₁ r₂ h₁ h₂
    rcases hcases id' r₂ h₂ with hold | ⟨rfl, hcomplete, rfl⟩
    · exact Forward.refl side records id' r₁ r₂ h₁ hold
    · cases hfound.symm.trans h₁
      exact ⟨rfl, (hnext.resolve_left hcomplete).2⟩

end Record

namespace ExchangeTable
variable {t t' : ExchangeTable} {id : UInt16} {qos : QoS} {side : Side}

/-- How many exchanges may be open on a side. -/
def capacity (t : ExchangeTable) : Side → ℕ
  | .outgoing => t.outgoingCapacity
  | .incoming => t.incomingCapacity

/-- A table as it should be. -/
structure Valid (t : ExchangeTable) : Prop where
  records : ∀ side, Record.Valid side (t.capacity side) (t.records side)
  id_ne_zero : ∀ r ∈ t.outgoing, r.id ≠ 0

/-- From one table the other follows: it is as it should be, has the same room, and no record has
gone back. -/
structure Leads (t t' : ExchangeTable) : Prop where
  valid : t'.Valid
  capacity : ∀ side, t'.capacity side = t.capacity side
  forward : ∀ side, Record.Forward side (t.records side) (t'.records side)

theorem Valid.refl (h : t.Valid) : t.Leads t :=
  ⟨h, fun _ => rfl, fun side => Record.Forward.refl side _⟩

@[simp] theorem capacity_withRecords (t : ExchangeTable) (side side' : Side) (rs : List Record) :
    (t.withRecords side rs).capacity side' = t.capacity side' := by
  cases side <;> cases side' <;> rfl

theorem records_withRecords_of_ne {side' : Side} (h : side' ≠ side) (t : ExchangeTable)
    (rs : List Record) : (t.withRecords side rs).records side' = t.records side' := by
  cases side with
  | outgoing =>
    cases side' with
    | outgoing => exact absurd rfl h
    | incoming => rfl
  | incoming =>
    cases side' with
    | outgoing => rfl
    | incoming => exact absurd rfl h

/-- A change on one side leaves the other as it should be. -/
theorem Valid.withRecords (h : t.Valid) (side : Side) {rs : List Record}
    (hrs : Record.Valid side (t.capacity side) rs ∧ Record.Forward side (t.records side) rs)
    (hid : side = .outgoing → ∀ r ∈ rs, r.id ≠ 0) : t.Leads (t.withRecords side rs) := by
  have hsides : ∀ side', (t.withRecords side rs).records side' =
      if side' = side then rs else t.records side' := by
    intro side'
    split_ifs with heq
    · rw [heq, records_withRecords_self]
    · exact records_withRecords_of_ne heq t rs
  refine ⟨⟨fun side' => ?_, ?_⟩, fun side' => capacity_withRecords t side side' rs, fun side' => ?_⟩
  · rw [hsides, capacity_withRecords]
    split_ifs with heq
    · rw [heq]
      exact hrs.1
    · exact h.records side'
  · intro r hr
    have hr' : r ∈ (t.withRecords side rs).records .outgoing := hr
    rw [hsides] at hr'
    split_ifs at hr' with heq
    · exact hid heq.symm r hr'
    · exact h.id_ne_zero r hr'
  · rw [hsides]
    split_ifs with heq
    · rw [heq]
      exact hrs.2
    · exact Record.Forward.refl side' _

/-! ## What a table may be asked for -/

/-- What a table may be asked for. -/
inductive Request where
  | reserve (id : UInt16) (qos : QoS)
  | publish (id : UInt16) (direction : Direction) (qos : QoS)
  | ack (id : UInt16) (kind : AckKind) (direction : Direction)
  | nextPubrel (cursor : ℕ)
  | remove (id : UInt16)
  | clear

/-- The table after a request. One that fails changes nothing. -/
def after (t : ExchangeTable) : Request → ExchangeTable
  | .reserve id qos =>
    match t.reserve id qos with
    | .ok t' => t'
    | .error _ => t
  | .publish id direction qos =>
    match t.onPublish id direction qos with
    | .ok (_, t') => t'
    | .error _ => t
  | .ack id kind direction =>
    match t.onAck id kind direction with
    | .ok (_, t') => t'
    | .error _ => t
  | .nextPubrel _ => t
  | .remove id => t.remove id
  | .clear => t.clear

/-- The table after requests in their order. -/
def run (t : ExchangeTable) (requests : List Request) : ExchangeTable := requests.foldl after t

theorem valid_empty (outgoingCapacity incomingCapacity : ℕ) :
    (empty outgoingCapacity incomingCapacity).Valid where
  records side := by
    cases side <;> exact Record.valid_nil _ _
  id_ne_zero := by simp [empty]

theorem Valid.reserve (h : t.Valid) (hok : t.reserve id qos = .ok t') : t.Leads t' := by
  obtain ⟨hid, hqos, hnew, hroom, rfl⟩ := reserve_inv hok
  have hpush := (h.records .outgoing).push (r := ⟨id, qos, .reserved⟩) hnew hroom
    (ExchangeState.reserved_mem_flow hqos)
  refine h.withRecords .outgoing hpush fun _ r hr => ?_
  rcases List.mem_append.mp hr with hold | hadded
  · exact h.id_ne_zero r hold
  · rw [List.mem_singleton.mp hadded]
    exact hid

/-- Settling keeps the identifiers of a side other than zero. -/
theorem Valid.id_ne_zero_settle (h : t.Valid) (side : Side) {next : ExchangeState}
    (hside : side = .outgoing) :
    ∀ r ∈ Record.settle id next (t.records side), r.id ≠ 0 := by
  subst hside
  intro r hr
  have hmem : r.id ∈ t.outgoing.map (·.id) :=
    (Record.ids_settle_sublist id next t.outgoing).subset (List.mem_map_of_mem hr)
  obtain ⟨r', hr', heq⟩ := List.mem_map.mp hmem
  rw [← heq]
  exact h.id_ne_zero r' hr'

theorem Valid.onPublishSent (h : t.Valid) (hqos : qos ≠ .atMostOnce) {state : ExchangeState}
    (hok : t.onPublishSent id qos = .ok (state, t')) : t.Leads t' := by
  rw [ExchangeTable.onPublishSent] at hok
  split at hok
  · cases hok
  · rename_i r hfound
    split_ifs at hok with hmay
    cases hok
    obtain ⟨rfl, hmay⟩ := hmay
    have hflow := (h.records .outgoing).inFlow r (Record.mem_of_find? hfound).1
    exact h.withRecords .outgoing
      ((h.records .outgoing).settle hfound (.inr ⟨(ExchangeState.opening_mem_flow hqos).1,
        ExchangeState.stage_opening hflow hmay⟩)) (h.id_ne_zero_settle .outgoing)

theorem Valid.onPublishReceived (h : t.Valid) (hqos : qos ≠ .atMostOnce) {state : ExchangeState}
    (hok : t.onPublishReceived id qos = .ok (state, t')) : t.Leads t' := by
  rw [onPublishReceived_eq] at hok
  split_ifs at hok with hfound hroom
  cases hok
  have hnew : Record.find? id t.incoming = none := by simpa using hfound
  exact h.withRecords .incoming
    ((h.records .incoming).push hnew hroom (ExchangeState.opening_mem_flow hqos).2) (by simp)

theorem Valid.onPublish (h : t.Valid) {direction : Direction} {state : ExchangeState}
    (hok : t.onPublish id direction qos = .ok (state, t')) : t.Leads t' := by
  rw [ExchangeTable.onPublish.eq_def] at hok
  split_ifs at hok with hqos
  · cases hok
    exact h.refl
  · cases direction with
    | sent => exact h.onPublishSent hqos hok
    | received => exact h.onPublishReceived hqos hok

theorem Valid.onAck (h : t.Valid) {kind : AckKind} {direction : Direction} {state : ExchangeState}
    (hok : t.onAck id kind direction = .ok (state, t')) : t.Leads t' := by
  obtain ⟨r, hfound, hnext, rfl⟩ := onAck_inv hok
  have hside := h.records (kind.side direction)
  have hflow := hside.inFlow r (Record.mem_of_find? hfound).1
  exact h.withRecords _ (hside.settle hfound (ExchangeState.onAck_flow hflow hnext))
    (h.id_ne_zero_settle _)

theorem Valid.remove (h : t.Valid) (id : UInt16) : t.Leads (t.remove id) := by
  have hdrop : Record.Valid .outgoing t.outgoingCapacity (Record.drop id t.outgoing) ∧
      Record.Forward .outgoing t.outgoing (Record.drop id t.outgoing) := by
    cases hfound : Record.find? id t.outgoing with
    | none =>
      have hall : Record.drop id t.outgoing = t.outgoing := by
        rw [Record.find?_eq_none_iff] at hfound
        simpa [Record.drop, List.filter_eq_self] using hfound
      rw [hall]
      exact ⟨h.records .outgoing, Record.Forward.refl _ _⟩
    | some r => exact (h.records .outgoing).settle hfound (.inl rfl)
  exact h.withRecords .outgoing hdrop fun _ r hr =>
    h.id_ne_zero r (List.mem_of_mem_filter hr)

theorem leads_clear (t : ExchangeTable) : t.Leads t.clear where
  valid := ⟨fun side => by cases side <;> exact Record.valid_nil _ _, by simp [clear]⟩
  capacity side := by cases side <;> rfl
  forward side := by
    intro id r r' _ h'
    cases side <;> cases h'

/-- Every request leads from a table as it should be to another. -/
theorem Valid.after (h : t.Valid) (request : Request) : t.Leads (t.after request) := by
  cases request with
  | reserve id qos =>
    simp only [ExchangeTable.after]
    split
    · rename_i hok
      exact h.reserve hok
    · exact h.refl
  | publish id direction qos =>
    simp only [ExchangeTable.after]
    split
    · rename_i hok
      exact h.onPublish hok
    · exact h.refl
  | ack id kind direction =>
    simp only [ExchangeTable.after]
    split
    · rename_i hok
      exact h.onAck hok
    · exact h.refl
  | nextPubrel cursor => exact h.refl
  | remove id => exact h.remove id
  | clear => exact leads_clear t

/-- A step that leaves, where it succeeds, what some request leaves. -/
def IsRequest {α : Type} (step : ExchangeTable → Except Fault (α × ExchangeTable)) : Prop :=
  ∀ t a t', step t = .ok (a, t') → ∃ request, t' = t.after request

theorem isRequest_reserve : IsRequest fun t => (t.reserve id qos).map fun t => ((), t) := by
  intro t _ t' h
  refine ⟨.reserve id qos, ?_⟩
  cases hreserve : t.reserve id qos with
  | error fault => simp [hreserve, Except.map] at h
  | ok t'' =>
    simp only [hreserve, Except.map, Except.ok.injEq, Prod.mk.injEq, true_and] at h
    rw [ExchangeTable.after, hreserve, h]

theorem isRequest_onPublish {direction : Direction} :
    IsRequest fun t => t.onPublish id direction qos := by
  intro t _ _ h
  exact ⟨.publish id direction qos, by simp only [ExchangeTable.after, h]⟩

theorem isRequest_onAck {kind : AckKind} {direction : Direction} :
    IsRequest fun t => t.onAck id kind direction := by
  intro t _ _ h
  exact ⟨.ack id kind direction, by simp only [ExchangeTable.after, h]⟩

theorem isRequest_remove {α : Type} {a : α} : IsRequest fun t => .ok (a, t.remove id) := by
  rintro t _ _ ⟨⟩
  exact ⟨.remove id, rfl⟩

theorem isRequest_clear : IsRequest fun t => .ok ((), t.clear) := by
  rintro t _ _ ⟨⟩
  exact ⟨.clear, rfl⟩

theorem run_append (t : ExchangeTable) (earlier later : List Request) :
    t.run (earlier ++ later) = (t.run earlier).run later := List.foldl_append ..

theorem Valid.run (h : t.Valid) (requests : List Request) :
    (t.run requests).Valid ∧ ∀ side, (t.run requests).capacity side = t.capacity side := by
  induction requests generalizing t with
  | nil => exact ⟨h, fun _ => rfl⟩
  | cons request rest ih =>
    have hleads := h.after request
    obtain ⟨hvalid, hcapacity⟩ := ih hleads.valid
    exact ⟨hvalid, fun side => (hcapacity side).trans (hleads.capacity side)⟩

/-- A record that stays in the table through all requests is led forward by each of them. -/
theorem Valid.run_forward (h : t.Valid) {requests : List Request} {r : Record}
    (hfound : Record.find? id (t.records side) = some r)
    (hstays : ∀ part, part <+: requests →
      (Record.find? id ((t.run part).records side)).isSome) :
    ∃ r', Record.find? id ((t.run requests).records side) = some r' ∧ r'.qos = r.qos ∧
      ExchangeState.stage side r.qos r.state ≤ ExchangeState.stage side r.qos r'.state := by
  induction requests generalizing t r with
  | nil => exact ⟨r, hfound, rfl, Nat.le_refl _⟩
  | cons request rest ih =>
    have hleads := h.after request
    have hnext : (Record.find? id ((t.after request).records side)).isSome :=
      hstays [request] (List.prefix_append [request] rest)
    obtain ⟨r₁, hfound₁⟩ := Option.isSome_iff_exists.mp hnext
    obtain ⟨hqos₁, hstage₁⟩ := hleads.forward side id r r₁ hfound hfound₁
    obtain ⟨r₂, hfound₂, hqos₂, hstage₂⟩ := ih hleads.valid hfound₁ fun part hpart =>
      hstays (request :: part) (List.cons_prefix_cons.mpr ⟨rfl, hpart⟩)
    rw [hqos₁] at hqos₂ hstage₂
    exact ⟨r₂, hfound₂, hqos₂, Nat.le_trans hstage₁ hstage₂⟩

/-- **What a table with room for `m` and `n` exchanges holds after any requests.** The identifiers
of a side are distinct and no more than there is room for, those of the client's messages are not
zero, every record is of a tracked message and in its flow, which it has not completed, and as
long as a record stays in the table it keeps its guarantee and does not go back in its flow. -/
theorem valid_run (m n : ℕ) (requests : List Request) :
    ((empty m n).run requests).Valid ∧
      ((empty m n).run requests).outgoingCapacity = m ∧
      ((empty m n).run requests).incomingCapacity = n ∧
      (∀ side, ∀ r ∈ ((empty m n).run requests).records side,
        r.qos ≠ .atMostOnce ∧ r.state ≠ .complete) ∧
      ∀ earlier later side id r, requests = earlier ++ later →
        Record.find? id (((empty m n).run earlier).records side) = some r →
        (∀ part, part <+: later →
          (Record.find? id (((empty m n).run (earlier ++ part)).records side)).isSome) →
        ∃ r', Record.find? id (((empty m n).run requests).records side) = some r' ∧
          r'.qos = r.qos ∧
          ExchangeState.stage side r.qos r.state ≤ ExchangeState.stage side r.qos r'.state := by
  have hempty := valid_empty m n
  obtain ⟨hvalid, hcapacity⟩ := hempty.run requests
  refine ⟨hvalid, hcapacity .outgoing, hcapacity .incoming, fun side r hr => ?_, ?_⟩
  · have hflow := (hvalid.records side).inFlow r hr
    exact ⟨ExchangeState.ne_atMostOnce_of_mem_flow hflow,
      ExchangeState.ne_complete_of_mem_flow hflow⟩
  · rintro earlier later side id r rfl hfound hstays
    simp only [run_append] at hstays ⊢
    exact (hempty.run earlier).1.run_forward hfound hstays

end ExchangeTable

end MqttClient
