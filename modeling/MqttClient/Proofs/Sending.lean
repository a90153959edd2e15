import MqttClient.Proofs.Running
import MqttClient.Proofs.Watched
import MqttClient.Session.Sending

/-!
# What sending does

`Spans.advance` drops bytes from the front of what spans hold together, so however a host cuts
its writes, the bytes taken by the writes of one `send` are a front part of the packet, and all
of it when `send` succeeds (`Session.send_inv`). The calls of one that fails tell why
(`Session.send_ends`), and so they do when packets are sent one after another
(`Session.sendAll_ends`). Nothing is assumed of the host.
-/
namespace MqttClient

namespace Spans

theorem size_eq (spans : List Bytes) : size spans = spans.flatten.length := by
  induction spans with
  | nil => rfl
  | cons span rest ih =>
    rw [List.flatten_cons, List.length_append, ← ih]
    rfl

/-- Advancing drops bytes from the front of the whole. -/
theorem flatten_advance (n : ℕ) (spans : List Bytes) :
    (advance n spans).flatten = spans.flatten.drop n := by
  fun_induction advance n spans with
  | case1 spans => rfl
  | case2 n => rfl
  | case3 n span rest hle ih =>
    rw [ih, List.flatten_cons, List.drop_append, List.drop_of_length_le hle, List.nil_append]
  | case4 n span rest hlt =>
    rw [List.flatten_cons, List.flatten_cons, List.drop_append_of_le_length (by omega)]

example : advance 3 [[1, 2], [3, 4], [5]] = [[4], [5]] := by decide

theorem flatten_dropWhile_isEmpty (spans : List Bytes) :
    (spans.dropWhile List.isEmpty).flatten = spans.flatten := by
  induction spans with
  | nil => rfl
  | cons span rest ih =>
    cases span with
    | nil => simpa using ih
    | cons b bs => rfl

end Spans

/-- The calls of an update of the exchanges, latest first. -/
def trackCalls : List HostCall := [.exit, .tracking, .enter]

theorem Watched.calls_trackedHost {ω : Type} [Host ω] (w : Watched ω) :
    (Act.trackedHost w).calls = trackCalls ++ w.calls := rfl

/-- An update of the exchanges, and then a report. -/
theorem Watched.calls_notify_trackedHost {ω : Type} [Host ω] (event : Event) (w : Watched ω) :
    (Host.notify event (Act.trackedHost w)).calls = (.notify event :: trackCalls) ++ w.calls := rfl

@[simp] theorem written_trackCalls : written trackCalls = [] := rfl
@[simp] theorem reported_trackCalls : reported trackCalls = [] := rfl

theorem not_isWrite_of_mem_trackCalls {c : HostCall} (hc : c ∈ trackCalls) : ¬c.IsWrite := by
  simp only [trackCalls, List.mem_cons, List.not_mem_nil, or_false] at hc
  rcases hc with rfl | rfl | rfl <;> exact id

/-- Calls that send the first `k` of some bytes: every write among them offers a last part of the
bytes, and together the writes have taken the first `k`. -/
structure SendCalls (bytes : Bytes) (k : ℕ) (calls : List HostCall) : Prop where
  sending : ∀ c ∈ calls, c.IsSending
  offers : ∀ c ∈ calls, c.offered <:+ bytes
  taken : written calls = bytes.take k

namespace SendCalls
variable {bytes : Bytes} {k : ℕ} {calls : List HostCall}

theorem nil (bytes : Bytes) : SendCalls bytes 0 [] :=
  ⟨by simp, by simp, by simp⟩

/-- A call that offers nothing. -/
theorem cons (h : SendCalls bytes k calls) {c : HostCall} (hc : c.IsSending)
    (hoffered : c.offered = []) (htaken : c.taken = []) : SendCalls bytes k (c :: calls) where
  sending := List.forall_mem_cons.mpr ⟨hc, h.sending⟩
  offers := List.forall_mem_cons.mpr ⟨hoffered ▸ List.nil_suffix, h.offers⟩
  taken := by rw [written_cons, htaken, List.append_nil, h.taken]

/-- What is left after the first `k` bytes is sent by later calls. -/
theorem append (h : SendCalls bytes k calls) {j : ℕ} {later : List HostCall}
    (hlater : SendCalls (bytes.drop k) j later) : SendCalls bytes (k + j) (later ++ calls) where
  sending c hc := (List.mem_append.mp hc).elim (hlater.sending c) (h.sending c)
  offers c hc := (List.mem_append.mp hc).elim
    (fun hc => (hlater.offers c hc).trans (List.drop_suffix k bytes)) (h.offers c)
  taken := by rw [written_append, h.taken, hlater.taken, List.take_add]

/-- What the writes have left. -/
theorem left (h : SendCalls bytes k calls) :
    bytes.length - (written calls).length = bytes.length - k := by
  rw [h.taken, List.length_take]
  omega

end SendCalls

/-- Why a packet that was begun at `start`, and of which `left` bytes are still to be taken, is
given up, as the last calls tell: a write or the flush has failed, or a look at the clock after a
write that left something shows that the time is up. -/
inductive SendFails (limit start : UInt32) (left : ℕ) : List HostCall → Prop where
  | refused (spans : List Bytes) (earlier : List HostCall) :
    SendFails limit start left (.exit :: .write spans none :: earlier)
  | overdue {time : UInt32} (spans : List Bytes) (count : ℕ) (earlier : List HostCall)
    (incomplete : left ≠ 0) (late : limit ≤ time - start) :
    SendFails limit start left (.now time :: .exit :: .write spans (some count) :: earlier)
  | unflushed (earlier : List HostCall) : SendFails limit start left (.flush false :: earlier)

/-- The calls before the last ones do not matter. -/
theorem SendFails.append {limit start : UInt32} {left : ℕ} {calls : List HostCall}
    (h : SendFails limit start left calls) (earlier : List HostCall) :
    SendFails limit start left (calls ++ earlier) := by
  cases h with
  | refused spans before => exact .refused spans (before ++ earlier)
  | overdue spans count before incomplete late =>
    exact .overdue spans count (before ++ earlier) incomplete late
  | unflushed before => exact .unflushed (before ++ earlier)

namespace Session
variable {ω : Type} [Host ω]

theorem isSending_of_mem_guarded {spans : List Bytes} {answer : Option ℕ} {c : HostCall}
    (hc : c ∈ [.exit, .write spans answer, .enter]) : c.IsSending := by
  simp only [List.mem_cons, List.not_mem_nil, or_false] at hc
  rcases hc with rfl | rfl | rfl <;> trivial

/-- One guarded write of spans, of which the host says that it took `count` bytes. -/
theorem sendCalls_write (spans : List Bytes) (count : ℕ) :
    SendCalls spans.flatten (min count spans.flatten.length)
      [.exit, .write spans (some count), .enter] where
  sending _ := isSending_of_mem_guarded
  offers := by simp [HostCall.offered]
  taken := by simp [HostCall.taken]

/-- One guarded write that fails. -/
theorem sendCalls_refused (spans : List Bytes) :
    SendCalls spans.flatten 0 [.exit, .write spans none, .enter] where
  sending _ := isSending_of_mem_guarded
  offers := by simp [HostCall.offered]
  taken := by simp [HostCall.taken]

@[simp] theorem runOn_offer_zero (n : ℕ) (start : UInt32) (spans : List Bytes) (σ : Scene ω) :
    (offer n start 0 spans).runOn σ = some (.ok (), σ) := by
  rw [offer.eq_def, if_pos rfl]
  rfl

/-- How offering goes on when a write of spans has been answered. -/
def goOn (n : ℕ) (start : UInt32) (left : ℕ) (spans : List Bytes) : Option ℕ → Act ω Unit
  | none => throw .sendFailed
  | some count => do
    let sent := min count left
    if sent < left then
      let elapsed := (← Act.now) - start
      if (← Act.session).settings.sendTimeout ≤ elapsed then throw .sendFailed
    offer n start (left - sent) (Spans.advance sent spans)

section
variable {n left : ℕ} {start : UInt32} {spans : List Bytes}

/-- One round of offering: what is not empty is written between the guard hooks. -/
theorem runOn_offer_succ (n : ℕ) (start : UInt32) (spans : List Bytes) (hpos : left ≠ 0)
    (σ : Scene ω) :
    ∃ offered, spans.dropWhile List.isEmpty = offered ∧ offered.flatten = spans.flatten ∧
      (offer (n + 1) start left spans).runOn σ =
        (goOn n start left offered (Host.write offered (Host.enter σ.host)).1).runOn
          { σ with host := Host.exit (Host.write offered (Host.enter σ.host)).2 } := by
  refine ⟨_, rfl, Spans.flatten_dropWhile_isEmpty spans, ?_⟩
  rw [offer.eq_def, if_neg hpos]
  simp only
  rw [Act.runOn_bind_of_ok (Act.runOn_guarded_host _ _)]
  cases (Host.write (spans.dropWhile List.isEmpty) (Host.enter σ.host)).1 <;> rfl

/-- When all has been taken, offering ends. -/
theorem runOn_goOn_all {count : ℕ} (hall : left ≤ count) (σ : Scene ω) :
    (goOn n start left spans (some count)).runOn σ = some (.ok (), σ) := by
  simp only [goOn, Nat.min_eq_right hall, Nat.lt_irrefl, if_false, Nat.sub_self]
  exact runOn_offer_zero n start _ σ

/-- When something is left, the clock decides. -/
theorem runOn_goOn_part {count : ℕ} (hpart : count < left) (σ : Scene ω) :
    (goOn n start left spans (some count)).runOn σ =
      if σ.session.settings.sendTimeout ≤ (Host.now σ.host).1 - start then
        some (.error .sendFailed, { σ with host := (Host.now σ.host).2 })
      else (offer n start (left - count) (Spans.advance count spans)).runOn
        { σ with host := (Host.now σ.host).2 } := by
  simp only [goOn, Nat.min_eq_left (Nat.le_of_lt hpart), if_pos hpart]
  rw [Act.runOn_bind_of_ok (Act.runOn_now σ), Act.runOn_bind_of_ok (Act.runOn_session _)]
  split <;> rfl

end

/-- One round of offering: a write takes a first part, and then sending fails or goes on with what
is left. -/
theorem offer_round_inv {n : ℕ} {start : UInt32} {left : ℕ} {spans : List Bytes}
    {σ τ : Scene (Watched ω)} {r : Except Fault Unit} (hleft : left = spans.flatten.length)
    (hpos : left ≠ 0) (h : (offer (n + 1) start left spans).runOn σ = some (r, τ)) :
    ∃ k calls υ, k ≤ left ∧ υ.session = σ.session ∧ υ.host.calls = calls ++ σ.host.calls ∧
      SendCalls spans.flatten k calls ∧ (∃ c ∈ calls, c.IsWrite) ∧
      (r = .error .sendFailed ∧ τ = υ ∧
          SendFails σ.session.settings.sendTimeout start (left - k) calls ∨
        ∃ spans', spans'.flatten = spans.flatten.drop k ∧
          (offer n start (left - k) spans').runOn υ = some (r, τ)) := by
  obtain ⟨offered, -, hflat, hround⟩ := runOn_offer_succ n start spans hpos σ
  rw [hround] at h
  rw [← hflat] at hleft ⊢
  generalize hυ : ({ σ with host := Host.exit (Host.write offered (Host.enter σ.host)).2 } :
    Scene (Watched ω)) = υ at h
  have hsession : υ.session = σ.session := by rw [← hυ]
  have hcalls : ∀ answer, (Host.write offered (Host.enter σ.host)).1 = answer →
      υ.host.calls = [.exit, .write offered answer, .enter] ++ σ.host.calls := by
    rintro answer rfl
    rw [← hυ]
    rfl
  cases hanswer : (Host.write offered (Host.enter σ.host)).1 with
  | none =>
    rw [hanswer] at h
    cases h
    exact ⟨0, _, _, Nat.zero_le _, hsession, hcalls _ hanswer, sendCalls_refused offered,
      ⟨.write offered none, by simp, trivial⟩, .inl ⟨rfl, rfl, .refused _ _⟩⟩
  | some count =>
    rw [hanswer] at h
    have hwrite := sendCalls_write offered count
    have hmade : HostCall.IsWrite (.write offered (some count)) := trivial
    have hdrop := Spans.flatten_advance count offered
    rcases Nat.lt_or_ge count left with hpart | hall
    · -- The clock is read after an incomplete write.
      have hclock := hwrite.cons (c := .now (Host.now υ.host.host).1) trivial rfl rfl
      rw [← hleft, Nat.min_eq_left (Nat.le_of_lt hpart)] at hclock
      rw [runOn_goOn_part hpart] at h
      refine ⟨_, _, { υ with host := (Host.now υ.host).2 }, Nat.le_of_lt hpart, hsession, ?_,
        hclock, ⟨_, by simp, hmade⟩, ?_⟩
      · rw [Watched.calls_now, hcalls _ hanswer]
        rfl
      · split at h
        · rename_i hlate
          cases h
          rw [hsession] at hlate
          exact .inl ⟨rfl, rfl, .overdue _ _ _ (Nat.sub_ne_zero_of_lt hpart) hlate⟩
        · exact .inr ⟨_, hdrop, h⟩
    · rw [← hleft, Nat.min_eq_right hall] at hwrite
      rw [runOn_goOn_all hall] at h
      refine ⟨left, _, υ, Nat.le_refl left, hsession, hcalls _ hanswer, hwrite, ⟨_, by simp, hmade⟩,
        .inr ⟨[], ?_, ?_⟩⟩
      · rw [hleft, List.drop_length]
        rfl
      · rw [Nat.sub_self, runOn_offer_zero]
        exact h

/-- Whatever the host answers, offering spans sends a first part of what they hold, and all of
it when it succeeds. Something is written unless there is nothing to write. -/
theorem offer_inv {n : ℕ} {start : UInt32} {left : ℕ} {spans : List Bytes}
    {σ τ : Scene (Watched ω)} {r : Except Fault Unit} (hleft : left = spans.flatten.length)
    (h : (offer n start left spans).runOn σ = some (r, τ)) :
    τ.session = σ.session ∧ ∃ k calls, τ.host.calls = calls ++ σ.host.calls ∧
      SendCalls spans.flatten k calls ∧ (left ≠ 0 → ∃ c ∈ calls, c.IsWrite) ∧
      (r = .ok () ∧ k = spans.flatten.length ∨ r = .error .sendFailed ∧
        SendFails σ.session.settings.sendTimeout start (left - k) calls) := by
  induction n generalizing left spans σ with
  | zero =>
    by_cases hzero : left = 0
    · rw [hzero, runOn_offer_zero] at h
      cases h
      exact ⟨rfl, 0, [], rfl, .nil _, absurd hzero, .inl ⟨rfl, by omega⟩⟩
    · rw [offer.eq_def, if_neg hzero] at h
      cases h
  | succ n ih =>
    by_cases hzero : left = 0
    · rw [hzero, runOn_offer_zero] at h
      cases h
      exact ⟨rfl, 0, [], rfl, .nil _, absurd hzero, .inl ⟨rfl, by omega⟩⟩
    obtain ⟨k, calls, υ, hk, hsession, hcalls, hsent, ⟨c, hc, hcwrite⟩, hend⟩ :=
      offer_round_inv hleft hzero h
    rcases hend with ⟨rfl, rfl, hfails⟩ | ⟨spans', hspans', hrest⟩
    · exact ⟨hsession, k, calls, hcalls, hsent, fun _ => ⟨c, hc, hcwrite⟩, .inr ⟨rfl, hfails⟩⟩
    · have hleft' : left - k = spans'.flatten.length := by
        rw [hspans', List.length_drop, hleft]
      obtain ⟨hτ, j, later, hlater, hsent', -, hr⟩ := ih hleft' hrest
      rw [hspans'] at hsent'
      refine ⟨hτ.trans hsession, k + j, later ++ calls, ?_, hsent.append hsent', ?_, ?_⟩
      · rw [hlater, hcalls, List.append_assoc]
      · exact fun _ => ⟨c, List.mem_append_right later hc, hcwrite⟩
      · rcases hr with ⟨hr, hj⟩ | ⟨hr, hfails⟩
        · exact .inl ⟨hr, by omega⟩
        · rw [hsession, Nat.sub_sub] at hfails
          exact .inr ⟨hr, hfails.append calls⟩

/-- How sending a packet ends. The clock is read first. The writes take a first part of the packet,
all of it when `send` succeeds, and then a flush has succeeded too and the clock is read again. The
calls of one that fails tell why. -/
theorem send_ends {spans : List Bytes} {σ τ : Scene (Watched ω)} {r : Except Fault Unit}
    (h : (send spans).runOn σ = some (r, τ)) :
    ∃ start k calls, τ.host.calls = calls ++ .now start :: σ.host.calls ∧
      SendCalls spans.flatten k calls ∧ (spans.flatten ≠ [] → ∃ c ∈ calls, c.IsWrite) ∧
      (r = .ok () ∧ k = spans.flatten.length ∧
          (∃ t earlier, calls = .now t :: .flush true :: earlier ∧
            τ.session = { σ.session with lastTx := t }) ∨
        r = .error .sendFailed ∧ τ.session = σ.session ∧
          SendFails σ.session.settings.sendTimeout start (spans.flatten.length - k) calls) := by
  simp only [send] at h
  rw [Act.runOn_bind_of_ok (Act.runOn_now _), Act.runOn_bind_of_ok (Act.runOn_get _)] at h
  have hsize := Spans.size_eq spans
  have hpos : spans.flatten ≠ [] → Spans.size spans ≠ 0 := by
    rw [hsize]
    exact mt List.length_eq_zero_iff.mp
  refine ⟨(Host.now σ.host.host).1, ?_⟩
  rcases Act.runOn_bind_inv h with ⟨fault, hoffer, rfl⟩ | ⟨_, υ, hoffer, h⟩
  · obtain ⟨hsession, k, calls, hcalls, hsend, hwrite, ⟨hr, -⟩ | ⟨hr, hfails⟩⟩ :=
      offer_inv hsize hoffer
    · cases hr
    · rw [hsize] at hfails
      exact ⟨k, calls, hcalls, hsend, fun hne => hwrite (hpos hne), .inr ⟨hr, hsession, hfails⟩⟩
  · obtain ⟨hsession, k, calls, hcalls, hsend, hwrite, hr⟩ := offer_inv hsize hoffer
    have hflushed := hsend.cons (c := .flush (Host.flush υ.host.host).1) trivial rfl rfl
    have hwrite' : ∀ later, spans.flatten ≠ [] → ∃ c ∈ later ++ calls, c.IsWrite := by
      intro later hne
      obtain ⟨c, hc, hcwrite⟩ := hwrite (hpos hne)
      exact ⟨c, List.mem_append_right later hc, hcwrite⟩
    have hcalls' : (Host.flush υ.host).2.calls =
        .flush (Host.flush υ.host.host).1 :: calls ++ .now (Host.now σ.host.host).1 ::
          σ.host.calls := by
      rw [Watched.calls_flush, hcalls]
      rfl
    rw [Act.runOn_bind_of_ok (Act.runOn_host _ _)] at h
    have hanswer : (Host.flush υ.host).1 = (Host.flush υ.host.host).1 := rfl
    cases hflush : (Host.flush υ.host.host).1 with
    | false =>
      rw [hanswer, hflush] at h
      rw [hflush] at hcalls' hflushed
      cases h
      exact ⟨k, _, hcalls', hflushed, hwrite' [_], .inr ⟨rfl, hsession, .unflushed calls⟩⟩
    | true =>
      rw [hanswer, hflush] at h
      rw [hflush] at hcalls' hflushed
      cases h
      have hk : k = spans.flatten.length := by
        rcases hr with ⟨-, hk⟩ | ⟨hr, -⟩
        · exact hk
        · cases hr
      let t := (Host.now (Host.flush υ.host.host).2).1
      refine ⟨k, .now t :: .flush true :: calls, ?_, hflushed.cons trivial rfl rfl,
        hwrite' [_, _], .inl ⟨rfl, hk, t, calls, rfl, ?_⟩⟩
      · exact congrArg (.now t :: ·) hcalls'
      · exact congrArg (fun s : Session => { s with lastTx := t }) hsession

/-- **Sending one packet.** The writes of `send` take a first part of the packet, all of it when
`send` succeeds; otherwise the fault is `sendFailed`. Of the session only `lastTx` changes. No
packet that holds a byte is sent without a write. -/
theorem send_inv {spans : List Bytes} {σ τ : Scene (Watched ω)} {r : Except Fault Unit}
    (h : (send spans).runOn σ = some (r, τ)) :
    ∃ k calls, τ.host.calls = calls ++ σ.host.calls ∧ SendCalls spans.flatten k calls ∧
      (spans.flatten ≠ [] → ∃ c ∈ calls, c.IsWrite) ∧
      (r = .ok () ∧ k = spans.flatten.length ∧ (∃ t, τ.session = { σ.session with lastTx := t }) ∨
        r = .error .sendFailed ∧ τ.session = σ.session) := by
  obtain ⟨start, k, calls, hcalls, hsend, hwrite, hends⟩ := send_ends h
  have hstart : SendCalls spans.flatten 0 [.now start] := (SendCalls.nil _).cons trivial rfl rfl
  refine ⟨0 + k, calls ++ [.now start], ?_, hstart.append hsend, ?_, ?_⟩
  · rw [hcalls, List.append_assoc]
    rfl
  · intro hne
    obtain ⟨c, hc, hcwrite⟩ := hwrite hne
    exact ⟨c, List.mem_append_left _ hc, hcwrite⟩
  · rcases hends with ⟨hr, hk, t, -, -, hsession⟩ | ⟨hr, hsession, -⟩
    · exact .inl ⟨hr, by omega, t, hsession⟩
    · exact .inr ⟨hr, hsession⟩

/-! ## Packets one after another -/

/-- Why batches that are sent one after another are given up, as the calls tell: some are sent, and
the next one, which is begun at `start`, fails. -/
inductive BatchesFail (limit : UInt32) : List (List Bytes) → List HostCall → Prop where
  | here {batch : List Bytes} {start : UInt32} {calls : List HostCall} (rest : List (List Bytes))
    (part : written calls <+: batch.flatten)
    (fails : SendFails limit start (batch.flatten.length - (written calls).length) calls) :
    BatchesFail limit (batch :: rest) (calls ++ [.now start])
  | later {batch : List Bytes} {rest : List (List Bytes)} {calls later : List HostCall}
    (whole : written calls = batch.flatten) (fails : BatchesFail limit rest later) :
    BatchesFail limit (batch :: rest) (later ++ calls)

section
variable {batches : List (List Bytes)} {σ τ : Scene (Watched ω)} {r : Except Fault Unit}

/-- What has been written by then is a front part of the batches. -/
theorem BatchesFail.front {limit : UInt32} {calls : List HostCall}
    (h : BatchesFail limit batches calls) : written calls <+: batches.flatten.flatten := by
  induction h with
  | here rest part fails =>
    rw [written_append, List.flatten_cons, List.flatten_append]
    exact part.trans (List.prefix_append _ _)
  | later whole fails ih =>
    rw [written_append, List.flatten_cons, List.flatten_append, whole]
    exact (List.prefix_append_right_inj _).mpr ih

/-- How the sending of batches ends: all of them are written, or the calls tell why not. -/
theorem sendAll_ends (h : (sendAll batches).runOn σ = some (r, τ)) :
    ∃ calls, τ.host.calls = calls ++ σ.host.calls ∧
      (r = .ok () ∧ written calls = batches.flatten.flatten ∨
        r = .error .sendFailed ∧ BatchesFail σ.session.settings.sendTimeout batches calls) := by
  induction batches generalizing σ with
  | nil =>
    cases h
    exact ⟨[], rfl, .inl ⟨rfl, rfl⟩⟩
  | cons batch rest ih =>
    rw [sendAll] at h
    rcases Act.runOn_bind_inv h with ⟨fault, hsend, rfl⟩ | ⟨_, υ, hsend, hrest⟩
    · obtain ⟨start, k, calls, hcalls, hsent, -, ⟨⟨⟩, -⟩ | ⟨hr, -, hfails⟩⟩ := send_ends hsend
      refine ⟨calls ++ [.now start], ?_, .inr ⟨hr, .here rest ?_ (hsent.left ▸ hfails)⟩⟩
      · rw [hcalls, List.append_assoc]
        rfl
      · exact hsent.taken ▸ List.take_prefix k _
    · obtain ⟨start, k, calls, hcalls, hsent, -, ⟨-, rfl, t, -, -, hsession⟩ | ⟨⟨⟩, -⟩⟩ :=
        send_ends hsend
      obtain ⟨later, hlater, hends⟩ := ih hrest
      have hwhole : written (calls ++ [.now start]) = batch.flatten := by
        rw [written_append, hsent.taken, List.take_length]
        rfl
      refine ⟨later ++ (calls ++ [.now start]), ?_, ?_⟩
      · rw [hlater, hcalls]
        simp
      · rcases hends with ⟨hr, hwritten⟩ | ⟨hr, hfails⟩
        · refine .inl ⟨hr, ?_⟩
          rw [written_append, hwhole, hwritten, List.flatten_cons, List.flatten_append]
        · rw [hsession] at hfails
          exact .inr ⟨hr, .later hwhole hfails⟩

end

end Session

/-! ## Acknowledgements -/

/-- The four bytes of a plain acknowledgement. -/
def Ack.wire (kind : AckKind) (id : UInt16) : Bytes :=
  kind.packetType.firstByte :: 2 :: Bytes.ofWord id

theorem Ack.wire_ne_nil (kind : AckKind) (id : UInt16) : Ack.wire kind id ≠ [] :=
  List.cons_ne_nil _ _

example : Ack.wire .pubrel 7 = [0x62, 2, 0, 7] := by decide

/-- A plain acknowledgement needs an identifier and nothing else. -/
theorem Ack.serialize_eq (kind : AckKind) (id : UInt16) :
    Ack.serialize kind.packetType.firstByte id 4 =
      if id = 0 then .error .badParameter else .ok (Ack.wire kind id) := by
  have hkind : kind.packetType.firstByte ∈ Ack.firstBytes := by
    cases kind <;> decide
  by_cases hid : id = 0 <;>
    simp [Ack.serialize, Ack.canSend, hkind, hid, Layout.fit, Ack.wire]

namespace Session
variable {ω : Type} [Host ω] {id : UInt16} {state : ExchangeState}

theorem sendAck_of_none (h : state.ackToSend = none) :
    (sendAck id state : Act ω Unit) = pure () := by
  rw [sendAck, h]

/-- An acknowledgement that is owed is sent, and then noted. -/
theorem sendAck_of_some {ack : AckKind} (h : state.ackToSend = some ack) (hid : id ≠ 0) :
    (sendAck id state : Act ω Unit) = (do
      send [Ack.wire ack id]
      let result ← Act.track fun t => t.onAck id ack .sent
      let _ ← Act.ofResult result
      return) := by
  rw [sendAck, h]
  simp only [Ack.serialize_eq, if_neg hid]
  rfl

theorem sendAck_zero {ack : AckKind} (h : state.ackToSend = some ack) :
    (sendAck 0 state : Act ω Unit) = throw .badParameter := by
  rw [sendAck, h]
  simp only [Ack.serialize_eq, if_true]
  rfl

/-- What sending an acknowledgement comes to: nothing when none is owed, a fault under no
identifier, and otherwise one packet that is then noted. -/
@[elab_as_elim]
theorem sendAck_elim {motive : Act ω Unit → Prop} (id : UInt16) (state : ExchangeState)
    (silent : motive (pure ())) (refused : id = 0 → motive (throw .badParameter))
    (sent : ∀ ack, state.ackToSend = some ack → motive (do
      send [Ack.wire ack id]
      let result ← Act.track fun t => t.onAck id ack .sent
      let _ ← Act.ofResult result
      return)) : motive (sendAck id state) := by
  cases hack : state.ackToSend with
  | none => rwa [sendAck_of_none hack]
  | some ack =>
    by_cases hid : id = 0
    · subst hid
      rw [sendAck_zero hack]
      exact refused rfl
    · rw [sendAck_of_some hack hid]
      exact sent ack hack

end Session

end MqttClient
