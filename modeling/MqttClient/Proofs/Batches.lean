import Mathlib.Algebra.Order.BigOperators.Group.List
import MqttClient.Proofs.Sinks
import MqttClient.Proofs.Timely
import MqttClient.Proofs.Wire.Phases

/-!
# Requests in batches

A SUBSCRIBE or an UNSUBSCRIBE goes out in batches of filters, each of them a packet to `send`. The
batches hold what `serialize` lays out in one buffer, for lists of filters of any length, and none
of them has more spans than there is room for. So a truthful stream gets the bytes of the serialized
request, all of them unless it fails or is late with one of the batches, as its calls tell
(`Session.BatchesFail`), and always if it is in time (`FilterRequest.make_serializes`).
-/
namespace MqttClient

/-! ## Room for the spans of a batch -/

namespace Spans

/-- Put a span into a list that has room for so many. -/
def push (room : ℕ) (spans : List Bytes) (span : Bytes) : Except Fault (List Bytes) :=
  if spans.length < room then .ok (spans ++ [span]) else .error .noMemory

/-- Put spans into such a list, one after another. -/
def collect (room : ℕ) (spans : List Bytes) : Except Fault (List Bytes) :=
  spans.foldlM (push room) []

theorem collect_eq {room : ℕ} {spans : List Bytes} (h : spans.length ≤ room) :
    collect room spans = .ok spans := by
  have hpush : ∀ front, front.length + spans.length ≤ room →
      spans.foldlM (push room) front = .ok (front ++ spans) := by
    induction spans with
    | nil => simp [pure, Except.pure]
    | cons span rest ih =>
      intro front hroom
      rw [List.length_cons] at hroom
      rw [List.foldlM_cons, push, if_pos (by omega)]
      refine (ih (by omega) (front ++ [span]) ?_).trans (by simp)
      rw [List.length_append, List.length_singleton]
      omega
  exact hpush [] (by simpa using h)

end Spans

theorem length_le_of_mem_batches {α : Type} {l batch : List α} (h : batch ∈ batches l) :
    batch.length ≤ 4 := by
  fun_induction batches l with
  | case1 a b c d rest ih =>
    rcases List.mem_cons.mp h with rfl | h
    · exact Nat.le_refl 4
    · exact ih h
  | case2 => cases h
  | case3 rest hlong hne =>
    rw [List.mem_singleton.mp h]
    rcases rest with _ | ⟨a, _ | ⟨b, _ | ⟨c, _ | ⟨d, rest⟩⟩⟩⟩
    case cons.cons.cons.cons => exact absurd rfl (hlong a b c d rest)
    all_goals simp

namespace Subscribe

/-- The room for spans in a batch: for head and properties, and for three spans of each filter. -/
def spanRoom : ℕ := 2 + 4 * 3

theorem length_spans_le {head properties : Bytes} {filters : List (List Bytes)}
    (hfilters : ∀ spans ∈ filters, spans.length ≤ 3) :
    ∀ spans ∈ spanBatches head properties filters, spans.length ≤ spanRoom := by
  have hbatches : ∀ spans ∈ (batches filters).map List.flatten, spans.length ≤ 4 * 3 := by
    rintro _ hmem
    obtain ⟨batch, hbatch, rfl⟩ := List.mem_map.mp hmem
    have hlengths : ∀ n ∈ batch.map List.length, n ≤ 3 := by
      rintro _ hn
      obtain ⟨spans, hspans, rfl⟩ := List.mem_map.mp hn
      refine hfilters spans ?_
      rw [← flatten_batches filters]
      exact List.mem_flatten_of_mem hbatch hspans
    have hsum : (batch.map List.length).sum ≤ (batch.map List.length).length * 3 :=
      List.sum_le_card_nsmul _ 3 hlengths
    have hfour := length_le_of_mem_batches hbatch
    rw [List.length_map] at hsum
    rw [List.length_flatten]
    omega
  rw [spanBatches]
  cases hspans : (batches filters).map List.flatten with
  | nil => simp
  | cons first rest =>
    rw [hspans] at hbatches
    obtain ⟨hfirst, hrest⟩ := List.forall_mem_cons.mp hbatches
    refine List.forall_mem_cons.mpr ⟨?_, fun spans hspans => ?_⟩
    · rw [List.length_cons, List.length_cons, spanRoom]
      omega
    · exact (hrest spans hspans).trans (Nat.le_add_left _ _)

end Subscribe

/-! ## Batches through a stream -/

namespace Session
variable {ω : Type} [Host ω] {batches : List (List Bytes)} {σ τ : Scene (Watched ω)}
  {r : Except Fault Unit}

/-- Through a truthful stream, what is written of the batches is accepted. -/
theorem sendAll_brings {s : Sink ω} (hs : s.Truthful) (hworks : s.Works σ.host.host)
    (h : (sendAll batches).runOn σ = some (r, τ)) :
    ∃ calls, τ.host.calls = calls ++ σ.host.calls ∧
      s.accepted τ.host.host = s.accepted σ.host.host ++ written calls ∧
      (r = .ok () ∧ written calls = batches.flatten.flatten ∨
        r = .error .sendFailed ∧ BatchesFail σ.session.settings.sendTimeout batches calls) := by
  obtain ⟨calls, hcalls, hends⟩ := sendAll_ends h
  obtain ⟨-, all, hall, haccepted⟩ := sendAll_keeps hs.send_accepts batches σ r τ h hworks
  cases List.append_cancel_right (hall.symm.trans hcalls)
  exact ⟨calls, hcalls, haccepted, hends⟩

end Session

/-! ## Requests -/

/-- What a client may ask for about topic filters. -/
inductive FilterRequest where
  | subscribe (subscriptions : List Subscription)
  | unsubscribe (filters : List String)

namespace FilterRequest

/-- The packet of a request. -/
def packet (version : Version) (properties : Bytes) (id : UInt16) : FilterRequest → Outgoing
  | subscribe subscriptions => .subscribe version subscriptions properties id
  | unsubscribe filters => .unsubscribe version filters properties id

/-- The type of the packet. -/
def type : FilterRequest → PacketType
  | subscribe _ => .subscribe
  | unsubscribe _ => .unsubscribe

/-- The spans of each filter. -/
def spans (version : Version) : FilterRequest → List (List Bytes)
  | subscribe subscriptions => subscriptions.map (Subscription.spans version)
  | unsubscribe filters => filters.map Unsubscribe.spans

/-- Send a request. -/
def make {ω : Type} [Host ω] (properties : Bytes) (id : UInt16) : FilterRequest → Act ω Unit
  | subscribe subscriptions => Session.subscribe subscriptions properties id
  | unsubscribe filters => Session.unsubscribe filters properties id

/-- Whether a session may make a request under an identifier, its size apart. -/
def mayMake (s : Session) (id : UInt16) : FilterRequest → Bool
  | subscribe subscriptions => s.maySubscribe subscriptions id
  | unsubscribe _ => id != 0

/-- A session lets a request of a size pass, and its broker takes packets of the size. -/
def Allowed (s : Session) (id : UInt16) (size : PacketSize) (r : FilterRequest) : Prop :=
  r.mayMake s id = true ∧ size.total ≤ s.negotiated.serverMaxPacketSize.toNat

variable {ω : Type} [Host ω] {version : Version} {properties : Bytes} {id : UInt16} {max : UInt32}
  {size : PacketSize} {r : FilterRequest}

/-- Both requests are checked, counted and sent behind their heads. -/
theorem make_eq (r : FilterRequest) : (r.make properties id : Act ω Unit) = (do
    let s ← Act.session
    if !r.mayMake s id then throw .badParameter
    let size ← Act.ofResult
      ((r.packet s.version properties id).size s.negotiated.serverMaxPacketSize)
    let head ← Act.ofResult (Subscribe.head r.type s.version id properties size)
    Session.sendAll (Subscribe.spanBatches head properties (r.spans s.version))) := by
  cases r with
  | subscribe subscriptions => rfl
  | unsubscribe filters =>
    by_cases hid : id = 0
    · subst hid
      rfl
    · have hmay : ∀ s, (unsubscribe filters).mayMake s id = true := by simp [mayMake, hid]
      simp only [make, Session.unsubscribe, hmay, if_neg hid]
      rfl

/-- The limit decides whether a count is accepted, and nothing else about it. -/
theorem size_of_size (hsize : (r.packet version properties id).size max = .ok size)
    (max' : UInt32) : (r.packet version properties id).size max' =
      if size.total ≤ max'.toNat then .ok size else .error .badParameter := by
  have hchecked : ∀ n, PacketSize.checked n max = .ok size → PacketSize.checked n max' =
      if size.total ≤ max'.toNat then .ok size else .error .badParameter := by
    intro n h
    obtain ⟨hn, rfl, -⟩ := PacketSize.checked_eq_ok.mp h
    split
    · exact PacketSize.checked_eq_ok.mpr ⟨hn, rfl, ‹_›⟩
    · rw [PacketSize.checked, if_neg (Nat.not_lt.mpr hn)]
      exact if_pos (Nat.not_le.mp ‹_›)
  cases r with
  | subscribe subscriptions =>
    simp only [packet, Outgoing.size, Subscribe.size] at hsize ⊢
    split at hsize
    · cases hsize
    · rw [if_neg ‹_›]
      exact hchecked _ hsize
  | unsubscribe filters =>
    simp only [packet, Outgoing.size, Unsubscribe.size] at hsize ⊢
    split at hsize
    · cases hsize
    · rw [if_neg ‹_›]
      exact hchecked _ hsize

theorem body_packet (r : FilterRequest) : (r.packet version properties id).body =
    Subscribe.body version id properties (r.spans version).flatten.flatten := by
  cases r with
  | subscribe subscriptions =>
    exact congrArg (Subscribe.body version id properties)
      (Subscribe.flatten_spans version subscriptions).symm
  | unsubscribe filters =>
    exact congrArg (Subscribe.body version id properties) (Unsubscribe.flatten_spans filters).symm

/-- What is counted names a filter, and its properties can be counted. -/
theorem accepted_of_size (hsize : (r.packet version properties id).size max = .ok size) :
    r.spans version ≠ [] ∧ Property.RegionFits version properties := by
  cases r with
  | subscribe subscriptions =>
    obtain ⟨hne, hplain, -, hcount⟩ := Subscribe.size_eq_ok.mp hsize
    exact ⟨mt List.map_eq_nil_iff.mp hne, Subscribe.regionFits hplain hcount⟩
  | unsubscribe filters =>
    obtain ⟨hne, hplain, -, hcount⟩ := Unsubscribe.size_eq_ok.mp hsize
    exact ⟨mt List.map_eq_nil_iff.mp hne, Subscribe.regionFits hplain hcount⟩

/-- The batches hold what is laid out in one buffer. -/
theorem serialize_eq_batches (hid : id ≠ 0)
    (hsize : (r.packet version properties id).size max = .ok size) {capacity : ℕ}
    (hcapacity : size.total ≤ capacity) :
    ∃ head, Subscribe.head r.type version id properties size = .ok head ∧
      (r.packet version properties id).serialize size capacity =
        .ok (Subscribe.spanBatches head properties (r.spans version)).flatten.flatten := by
  obtain ⟨hne, hregion⟩ := accepted_of_size hsize
  have hcounts := Outgoing.counts hsize
  have hidentified : (r.packet version properties id).Identified := by
    cases r <;> exact hid
  have hfirst : (r.packet version properties id).firstByte = r.type.firstByte := by
    cases r <;> rfl
  have hserialize := Outgoing.serialize_of_size hsize hidentified hcapacity
  rw [hcounts.bytes_frame, hfirst] at hserialize
  rw [body_packet] at hcounts hserialize
  obtain ⟨head, hhead, hflatten⟩ := Subscribe.head_append r.type hid hregion hcounts
  refine ⟨head, hhead, ?_⟩
  rw [hserialize, Subscribe.flatten_spanBatches hne, hflatten]

/-- What comes of a request that is counted. -/
theorem runOn_make {σ : Scene ω}
    (hsize : (r.packet σ.session.version properties id).size max = .ok size) {head : Bytes}
    (hhead : Subscribe.head r.type σ.session.version id properties size = .ok head) :
    (r.Allowed σ.session id size → (r.make properties id).runOn σ =
      (Session.sendAll
        (Subscribe.spanBatches head properties (r.spans σ.session.version))).runOn σ) ∧
    (¬r.Allowed σ.session id size →
      (r.make properties id).runOn σ = some (.error .badParameter, σ)) := by
  rw [make_eq, Act.runOn_bind_of_ok (Act.runOn_session σ), size_of_size hsize]
  by_cases hmay : r.mayMake σ.session id = true
  · by_cases hfits : size.total ≤ σ.session.negotiated.serverMaxPacketSize.toNat
    · rw [if_pos hfits, hmay]
      refine ⟨fun _ => ?_, fun hnot => absurd ⟨hmay, hfits⟩ hnot⟩
      simp only [Bool.not_true, Bool.false_eq_true, if_false]
      rw [Act.runOn_bind_of_ok (Act.runOn_ofResult _ σ), hhead,
        Act.runOn_bind_of_ok (Act.runOn_ofResult _ σ)]
    · rw [if_neg hfits, hmay]
      exact ⟨fun hallowed => absurd hallowed.2 hfits, fun _ => rfl⟩
  · rw [Bool.eq_false_of_not_eq_true hmay]
    exact ⟨fun hallowed => absurd hallowed.1 hmay, fun _ => rfl⟩

theorem length_spans_le (r : FilterRequest) (version : Version) :
    ∀ spans ∈ r.spans version, spans.length ≤ 3 := by
  cases r <;> simp [spans, Subscription.spans, Unsubscribe.spans]

/-- **Requests in batches.** The checks of the session and the limit of the broker may refuse a
request about filters, and then nothing happens. If not, any truthful stream gets what `serialize`
lays out in a buffer with room for it, unless it fails or is late with a batch, and all of it if it
takes the batches in time. None of these has more spans than its list has room for. -/
theorem make_serializes (r : FilterRequest) {s : Sink ω} (hs : s.Truthful)
    {σ : Scene (Watched ω)} (hworks : s.Works σ.host.host) (hid : id ≠ 0)
    (hsize : (r.packet σ.session.version properties id).size max = .ok size) {capacity : ℕ}
    (hcapacity : size.total ≤ capacity) :
    ∃ head b, Subscribe.head r.type σ.session.version id properties size = .ok head ∧
      (r.packet σ.session.version properties id).serialize size capacity = .ok b ∧
      let batches := Subscribe.spanBatches head properties (r.spans σ.session.version)
      (∀ batch ∈ batches, Spans.collect Subscribe.spanRoom batch = .ok batch) ∧
      (¬r.Allowed σ.session id size →
        (r.make properties id).runOn σ = some (.error .badParameter, σ)) ∧
      (r.Allowed σ.session id size →
        (∀ result τ, (r.make properties id).runOn σ = some (result, τ) →
          ∃ calls, τ.host.calls = calls ++ σ.host.calls ∧
            s.accepted τ.host.host = s.accepted σ.host.host ++ written calls ∧
            (result = .ok () ∧ written calls = b ∨
              result = .error .sendFailed ∧ written calls <+: b ∧
                Session.BatchesFail σ.session.settings.sendTimeout batches calls)) ∧
        ∀ t : Timely ω σ.session.settings.sendTimeout,
          t.Ready (batches.map fun spans => spans.flatten.length) σ.host.host →
            ∃ τ, (r.make properties id).runOn σ = some (.ok (), τ) ∧
              s.accepted τ.host.host = s.accepted σ.host.host ++ b) := by
  obtain ⟨head, hhead, hserialize⟩ := serialize_eq_batches hid hsize hcapacity
  obtain ⟨hsends, hrefused⟩ := runOn_make hsize hhead
  refine ⟨head, _, hhead, hserialize, fun batch hbatch => ?_, hrefused, fun hallowed => ?_⟩
  · exact Spans.collect_eq (Subscribe.length_spans_le (r.length_spans_le _) batch hbatch)
  rw [hsends hallowed]
  refine ⟨fun result τ hrun => ?_, fun t hready => ?_⟩
  · obtain ⟨calls, hcalls, haccepted, hends⟩ := Session.sendAll_brings hs hworks hrun
    exact ⟨calls, hcalls, haccepted, hends.imp_right fun ⟨hr, hfails⟩ =>
      ⟨hr, hfails.front, hfails⟩⟩
  · obtain ⟨τ, hrun⟩ := t.watched.sendAll rfl hready
    obtain ⟨calls, -, haccepted, ⟨-, hwritten⟩ | ⟨⟨⟩, -⟩⟩ :=
      Session.sendAll_brings hs hworks hrun
    exact ⟨τ, hrun, hwritten ▸ haccepted⟩

/-- Five filters go out in two batches, span by span or gathered, in pieces and with pauses, while
the clock goes on. -/
theorem make_serializes_five :
    let r : FilterRequest := .subscribe (["a", "b", "c", "d", "e"].map fun f => { filter := f })
    let on (host : Scripted) : Scene (Watched Scripted) :=
      ⟨.create 8 (.empty 1 1) .v5 {}, { host }⟩
    let scalar : Scripted :=
      { writes := [.move 1, .move 0, .move 9], writeLimit := some 3, ticks := [5, 0, 7] }
    let form : Bytes := [0x82, 23, 0, 7, 0, 0, 1, 97, 0, 0, 1, 98, 0, 0, 1, 99, 0, 0, 1, 100, 0,
      0, 1, 101, 0]
    (r.packet .v5 [] 7).size 100 = .ok ⟨23, 25⟩ ∧ r.Allowed (on scalar).session 7 ⟨23, 25⟩ ∧
      (r.packet .v5 [] 7).serialize ⟨23, 25⟩ 30 = .ok form ∧
      ∀ h ∈ [scalar, { scalar with gathers := true }], h.step = 1 ∧ Scripted.sink.Works h ∧
        (Scripted.timely 20000).Ready [21, 4] h ∧
          ∃ τ, (r.make [] 7).runOn (on h) = some (.ok (), τ) ∧
            Scripted.sink.accepted τ.host.host = form := by
  intro r on scalar form
  have hsize : (r.packet .v5 [] 7).size 100 = .ok ⟨23, 25⟩ := by decide +kernel
  have hid : (7 : UInt16) ≠ 0 := by decide
  have hcapacity : 25 ≤ 30 := by decide
  have hallowed : r.Allowed (on scalar).session 7 ⟨23, 25⟩ :=
    ⟨by decide +kernel, by decide +kernel⟩
  have hform : (r.packet .v5 [] 7).serialize ⟨23, 25⟩ 30 = .ok form := by decide +kernel
  have hhead : Subscribe.head r.type .v5 7 [] ⟨23, 25⟩ = .ok [0x82, 23, 0, 7, 0] := by
    decide +kernel
  have hhosts : ∀ h ∈ [scalar, { scalar with gathers := true }], h.step = 1 ∧
      Scripted.sink.Works h ∧ (Scripted.timely 20000).Ready [21, 4] h ∧
        Scripted.sink.accepted h = [] := by
    have htimes : ∀ n ∈ [21, 4], scalar.timeFor n < 20000 := by decide
    simp only [List.mem_cons, List.not_mem_nil, or_false, forall_eq_or_imp, forall_eq]
    exact ⟨⟨rfl, by simp [Scripted.sink, scalar], ⟨⟨by simp [scalar], nofun, rfl⟩, htimes⟩, rfl⟩,
      rfl, by simp [Scripted.sink, scalar], ⟨⟨by simp [scalar], nofun, rfl⟩, htimes⟩, rfl⟩
  refine ⟨hsize, hallowed, hform, fun h hh => ?_⟩
  obtain ⟨hstep, hworks, hready, hnone⟩ := hhosts h hh
  obtain ⟨head, b, hhead', hb, -, -, hmakes⟩ := r.make_serializes Scripted.truthful_sink
    (σ := on h) hworks hid hsize hcapacity
  cases hhead.symm.trans hhead'
  cases hform.symm.trans hb
  obtain ⟨τ, hrun, haccepted⟩ := (hmakes hallowed).2 (Scripted.timely 20000) hready
  exact ⟨hstep, hworks, hready, τ, hrun, by rw [haccepted, hnone, List.nil_append]⟩

end FilterRequest

end MqttClient
