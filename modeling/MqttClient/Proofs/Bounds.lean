import MqttClient.Proofs.Alongside
import MqttClient.Proofs.Checked
import MqttClient.Proofs.Handling
import MqttClient.Proofs.Oversized

/-!
# Inside the network buffer

No slice that a client takes of its network buffer or of the spans of a packet reaches beyond them,
and no difference of lengths is negative, whatever a host says about the bytes that it moved: the
operations of `Checked` run as those of a session do. Sending and waiting for CONNACK do so from
every scene; receiving needs `filled` to be within the buffer, which it is along a whole run
(`run_stays_in_bounds`).
-/
namespace MqttClient
variable {ω α β : Type}

theorem slice?_eq {first last : ℕ} {l : List α} (h : first ≤ last) (hlast : last ≤ l.length) :
    slice? first last l = some ((l.take last).drop first) := if_pos ⟨h, hlast⟩

theorem slice?_to_end {first : ℕ} {l : List α} (h : first ≤ l.length) :
    slice? first l.length l = some (l.drop first) := by
  rw [slice?_eq h le_rfl, List.take_length]

theorem minus?_eq {a b : ℕ} (h : b ≤ a) : minus? a b = some (a - b) := if_pos h

namespace Checked

/-! ## Operations side by side -/

/-- From a scene the checked operation runs as the other one, which ends as `Q` says. -/
structure Clears (Q : Except Fault α → Scene ω → Prop) (chk : Checked ω α) (act : Act ω α)
    (σ : Scene ω) : Prop where
  runsAs : chk.RunsAs act σ
  ends : ∀ r τ, act.runOn σ = some (r, τ) → Q r τ

namespace Clears
variable {P Q : Except Fault α → Scene ω → Prop} {R : Except Fault β → Scene ω → Prop}
  {chk : Checked ω α} {act : Act ω α} {σ : Scene ω} {f : α → Checked ω β} {g : α → Act ω β}

theorem mono (h : Clears P chk act σ) (hQ : ∀ r τ, P r τ → Q r τ) : Clears Q chk act σ :=
  ⟨h.runsAs, fun r τ hrun => hQ r τ (h.ends r τ hrun)⟩

/-- An operation in which nothing is checked. -/
theorem plain (h : ∀ r τ, act.runOn σ = some (r, τ) → Q r τ) :
    Clears Q (Checked.plain act) act σ := by
  refine ⟨?_, h⟩
  change (act >>= fun a => Pure.pure (some a)).runOn σ = _
  rw [Act.runOn_bind]
  rcases act.runOn σ with _ | ⟨fault | a, τ⟩ <;> rfl

theorem pure {a : α} (h : Q (.ok a) σ) : Clears Q (Pure.pure a) (Pure.pure a) σ :=
  ⟨rfl, by rintro _ _ ⟨⟩; exact h⟩

theorem throw {fault : Fault} (h : Q (.error fault) σ) :
    Clears Q (Checked.plain (MonadExcept.throw fault)) (MonadExcept.throw fault) σ :=
  plain (by rintro _ _ ⟨⟩; exact h)

theorem bind (h : Clears P chk act σ) (hf : ∀ a τ, P (.ok a) τ → Clears R (f a) (g a) τ)
    (herror : ∀ fault τ, P (.error fault) τ → R (.error fault) τ) :
    Clears R (chk >>= f) (act >>= g) σ := by
  have hchk := h.runsAs
  rw [RunsAs] at hchk
  refine ⟨?_, fun r τ hrun => ?_⟩
  · rw [RunsAs, OptionT.run_bind, Option.elimM, Act.runOn_bind, Act.runOn_bind, hchk]
    rcases hact : act.runOn σ with _ | ⟨fault | a, τ⟩
    · rfl
    · rfl
    · exact (hf a τ (h.ends _ _ hact)).runsAs
  · rcases Act.runOn_bind_inv hrun with ⟨fault, hact, rfl⟩ | ⟨a, υ, hact, hrest⟩
    · exact herror fault τ (h.ends _ _ hact)
    · exact (hf a υ (h.ends _ _ hact)).ends r τ hrest

/-- First an operation in which nothing is checked. -/
theorem plain_bind (hf : ∀ a τ, act.runOn σ = some (.ok a, τ) → Clears R (f a) (g a) τ)
    (herror : ∀ fault τ, act.runOn σ = some (.error fault, τ) → R (.error fault) τ) :
    Clears R (Checked.plain act >>= f) (act >>= g) σ :=
  (plain (Q := fun r τ => act.runOn σ = some (r, τ)) fun _ _ hrun => hrun).bind hf herror

/-- A check that succeeds. -/
theorem of_bind {a : α} {o : Option α} {act : Act ω β} (ho : o = some a)
    (h : Clears R (f a) act σ) : Clears R (Checked.of o >>= f) act σ := by
  refine ⟨?_, h.ends⟩
  have hrun := h.runsAs
  rw [RunsAs] at hrun ⊢
  rw [← hrun, ho]
  rfl

theorem session_bind {f : Session → Checked ω β} {g : Session → Act ω β}
    (h : Clears R (f σ.session) (g σ.session) σ) :
    Clears R (Checked.plain Act.session >>= f) (Act.session >>= g) σ :=
  ⟨h.runsAs, h.ends⟩

/-- A look at the session for the sake of a check. -/
theorem look_bind {f : Session → Checked ω β} {act : Act ω β} (h : Clears R (f σ.session) act σ) :
    Clears R (Checked.plain Act.session >>= f) act σ :=
  ⟨h.runsAs, h.ends⟩

theorem get_bind {f : Scene ω → Checked ω β} {g : Scene ω → Act ω β}
    (h : Clears R (f σ) (g σ) σ) : Clears R (Checked.plain get >>= f) (get >>= g) σ :=
  ⟨h.runsAs, h.ends⟩

theorem change_bind {s : Session → Session} {f : Unit → Checked ω β} {g : Unit → Act ω β}
    (h : Clears R (f ()) (g ()) { σ with session := s σ.session }) :
    Clears R (Checked.plain (Act.change s) >>= f) (Act.change s >>= g) σ :=
  ⟨h.runsAs, h.ends⟩

theorem now_bind [Host ω] {f : UInt32 → Checked ω β} {g : UInt32 → Act ω β}
    (h : Clears R (f (Host.now σ.host).1) (g (Host.now σ.host).1)
      { σ with host := (Host.now σ.host).2 }) :
    Clears R (Checked.plain Act.now >>= f) (Act.now >>= g) σ :=
  ⟨h.runsAs, h.ends⟩

/-- Operations that come to no end run alike. -/
theorem stall : Clears Q (Checked.plain Act.stall) Act.stall σ :=
  plain (by rintro _ _ ⟨⟩)

theorem ofResult {result : Except Fault α} (h : Q result σ) :
    Clears Q (Checked.plain (Act.ofResult result)) (Act.ofResult result) σ :=
  plain (by rw [Act.runOn_ofResult]; rintro _ _ ⟨⟩; exact h)

theorem ofResult_bind {result : Except Fault α}
    (herror : ∀ fault, result = .error fault → R (.error fault) σ)
    (hf : ∀ a, result = .ok a → Clears R (f a) (g a) σ) :
    Clears R (Checked.plain (Act.ofResult result) >>= f) (Act.ofResult result >>= g) σ := by
  cases result with
  | error fault => exact (throw (herror fault rfl))
  | ok a => exact hf a rfl

theorem ite {c c' : Prop} [Decidable c] [Decidable c'] (hc : c ↔ c') {chk' : Checked ω α}
    {act' : Act ω α} (h : c' → Clears Q chk act σ) (h' : ¬c' → Clears Q chk' act' σ) :
    Clears Q (if c then chk else chk') (if c' then act else act') σ := by
  by_cases hcase : c'
  · rw [if_pos (hc.mpr hcase), if_pos hcase]
    exact h hcase
  · rw [if_neg (mt hc.mp hcase), if_neg hcase]
    exact h' hcase

/-- A test ends both operations or lets both go on. -/
theorem check {c c' : Prop} [Decidable c] [Decidable c'] (hc : c ↔ c') {fault : Fault}
    {next : Checked ω β} {next' : Act ω β} (herror : R (.error fault) σ)
    (h : ¬c' → Clears R next next' σ) :
    Clears R (if c then Checked.plain (MonadExcept.throw fault) >>= f else next)
      (if c' then MonadExcept.throw fault >>= g else next') σ :=
  ite hc (fun _ => (throw herror : Clears R _ (MonadExcept.throw fault) σ)) h

theorem outcome (h : Clears P chk act σ) :
    Clears (fun r τ => ∃ r', r = .ok r' ∧ P r' τ) (Checked.outcome chk) (Act.outcome act) σ := by
  have hchk := h.runsAs
  rw [RunsAs] at hchk
  refine ⟨?_, fun r τ hrun => ?_⟩
  · change (Act.outcome chk.run >>= _).runOn σ = _
    rw [Act.runOn_bind, Act.runOn_outcome, Act.runOn_outcome, hchk]
    rcases act.runOn σ with _ | ⟨fault | a, τ⟩ <;> rfl
  · rw [Act.runOn_outcome] at hrun
    obtain ⟨⟨r', υ⟩, hact, heq⟩ := Option.map_eq_some_iff.mp hrun
    cases heq
    exact ⟨r', rfl, h.ends _ _ hact⟩

end Clears

/-! ## Sending -/

theorem drop_skipEmpty (first : ℕ) (spans : List Bytes) :
    spans.drop (skipEmpty first spans) = (spans.drop first).dropWhile List.isEmpty := by
  fun_induction skipEmpty first spans with
  | case1 first h hempty ih =>
    rw [ih, List.drop_eq_getElem_cons h, List.dropWhile_cons_of_pos hempty]
  | case2 first h hfull => rw [List.drop_eq_getElem_cons h, List.dropWhile_cons_of_neg hfull]
  | case3 first h => rw [List.drop_eq_nil_of_le (Nat.not_lt.mp h), List.dropWhile_nil]

theorem skipEmpty_le {first : ℕ} {spans : List Bytes} (h : first ≤ spans.length) :
    skipEmpty first spans ≤ spans.length := by
  fun_induction skipEmpty first spans with
  | case1 first hroom _ ih => exact ih hroom
  | case2 => exact h
  | case3 => exact h

theorem advance_cons {n : ℕ} (hn : 0 < n) (span : Bytes) (rest : List Bytes) :
    Spans.advance n (span :: rest) =
      if span.length ≤ n then Spans.advance (n - span.length) rest else span.drop n :: rest := by
  cases n with
  | zero => cases hn
  | succ n => rfl

/-- Advancing from an index on is advancing in what is left there. -/
theorem advance_eq (n : ℕ) {first : ℕ} {spans : List Bytes} (h : first ≤ spans.length) :
    ∃ spans' first', advance n first spans = some (spans', first') ∧ first' ≤ spans'.length ∧
      spans'.drop first' = Spans.advance n (spans.drop first) := by
  fun_induction advance n first spans with
  | case1 n first hroom current hwhole ih =>
    rw [minus?_eq hwhole, Option.bind_some, List.drop_eq_getElem_cons hroom.2,
      advance_cons hroom.1, if_pos hwhole]
    exact ih _ hroom.2
  | case2 n first hroom current hpart =>
    rw [slice?_to_end (Nat.le_of_not_le hpart), Option.map_some, List.drop_eq_getElem_cons hroom.2,
      advance_cons hroom.1, if_neg hpart]
    refine ⟨_, first, rfl, by simpa using h, ?_⟩
    rw [List.drop_eq_getElem_cons (by simpa using hroom.2), List.getElem_set_self,
      List.drop_set_of_lt first.lt_succ_self]
  | case3 n first hdone =>
    refine ⟨spans, first, rfl, h, ?_⟩
    rcases Nat.eq_zero_or_pos n with rfl | hn
    · rw [Spans.advance]
    · have hend : spans.drop first = [] :=
        List.drop_eq_nil_of_le (Nat.not_lt.mp fun hlt => hdone ⟨hn, hlt⟩)
      rw [hend]
      cases n <;> rfl

variable [Host ω] {σ : Scene ω}

/-- Offering spans by an index offers what is left from the index on. -/
theorem offer_clears (n : ℕ) (start : UInt32) (total : ℕ) {sent first : ℕ} {spans : List Bytes}
    (h : first ≤ spans.length) (σ : Scene ω) :
    Clears (fun _ _ => True) (offer n start total sent first spans)
      (Session.offer n start (total - sent) (spans.drop first)) σ := by
  induction n generalizing sent first spans σ with
  | zero =>
    rw [offer, Session.offer]
    exact .ite Nat.sub_eq_zero_iff_le.symm (fun _ => .pure trivial) fun _ => .stall
  | succ n ih =>
    rw [offer, Session.offer]
    refine .ite Nat.sub_eq_zero_iff_le.symm (fun _ => .pure trivial) fun hleft => ?_
    refine .of_bind (slice?_to_end (skipEmpty_le h)) ?_
    rw [drop_skipEmpty]
    refine .plain_bind (fun answer τ _ => ?_) fun _ _ _ => trivial
    cases answer with
    | none => exact .throw trivial
    | some count =>
      refine .of_bind (minus?_eq (by omega)) ?_
      obtain ⟨spans', first', hadvance, hfirst', hdrop⟩ :=
        advance_eq (min count (total - sent)) (skipEmpty_le h)
      refine .of_bind hadvance ?_
      have hrest : ∀ τ : Scene ω, Clears (fun _ _ => True)
          (offer n start total (sent + min count (total - sent)) first' spans')
          (Session.offer n start (total - sent - min count (total - sent))
            (Spans.advance (min count (total - sent))
              ((spans.drop first).dropWhile List.isEmpty))) τ := by
        intro τ
        rw [← drop_skipEmpty, ← hdrop, Nat.sub_sub]
        exact ih hfirst' τ
      refine .ite (by omega) (fun _ => ?_) fun _ => hrest τ
      exact .now_bind <| .session_bind <| .check .rfl trivial fun _ => hrest _

/-- **Sending stays inside its spans.** -/
theorem send_runsAs (spans : List Bytes) (σ : Scene ω) :
    RunsAs (send spans) (Session.send spans) σ := by
  have hsends : Clears (fun _ _ => True) (send spans : Checked ω Unit) (Session.send spans) σ := by
    refine .now_bind <| .get_bind ?_
    refine .bind (offer_clears _ _ _ (Nat.zero_le _) _) (fun _ τ _ => ?_) fun _ _ => id
    refine .plain_bind (fun flushed τ _ => .check .rfl trivial fun _ => ?_) fun _ _ _ => trivial
    exact .now_bind <| .plain fun _ _ _ => trivial
  exact hsends.runsAs

/-! ## Filling and draining -/

/-- An operation leaves a network buffer of `c` bytes, of which no more than these are to handle. -/
structure Bounded (c : ℕ) (r : Except Fault α) (τ : Scene ω) : Prop where
  capacity_eq : τ.session.capacity = c
  filled_le : τ.session.filled ≤ c

/-- An operation leaves a network buffer of `c` bytes, and a value of it is as `P` says. -/
structure Fits (c : ℕ) (P : α → Prop) (r : Except Fault α) (τ : Scene ω) : Prop where
  capacity_eq : τ.session.capacity = c
  value : ∀ a, r = .ok a → P a

section
variable {c : ℕ} {P : α → Prop} {τ : Scene ω}

omit [Host ω] in
theorem Fits.ok {a : α} (hτ : τ.session.capacity = c) (ha : P a) : Fits c P (.ok a) τ :=
  ⟨hτ, by rintro _ ⟨⟩; exact ha⟩

omit [Host ω] in
theorem Fits.error (hτ : τ.session.capacity = c) (fault : Fault) : Fits c P (.error fault) τ :=
  ⟨hτ, fun _ h => nomatch h⟩

omit [Host ω] in
theorem Fits.fault {Q : β → Prop} {fault : Fault} (h : Fits c Q (.error fault) τ) :
    Fits c P (.error fault) τ := .error h.capacity_eq fault

end

section
variable {c : ℕ}

/-- A read inside the network buffer leaves it as large as it is. -/
theorem readInto_clears {first last : ℕ} (hfirst : first ≤ last) (hlast : last ≤ c)
    (hσ : σ.session.capacity = c) :
    Clears (fun r τ => Fits c (· ≤ last - first) r τ ∧ τ.session.filled = σ.session.filled)
      (readInto first last) (Act.readInto first (last - first)) σ := by
  subst hσ
  refine .look_bind <| .of_bind (slice?_eq hfirst hlast) <| .of_bind (minus?_eq hfirst) <|
    .plain fun r τ hrun => ?_
  cases hanswer : (Host.read (last - first) σ.host).1 with
  | none =>
    rw [Session.runOn_readInto_none hanswer] at hrun
    cases hrun
    exact ⟨⟨rfl, fun _ h => nomatch h⟩, rfl⟩
  | some answer =>
    rw [Session.runOn_readInto_some hanswer] at hrun
    cases hrun
    refine ⟨.ok (Session.capacity_readAt _ ?_) (Nat.min_le_right _ _), rfl⟩
    rw [List.length_take]
    omega

theorem fillFrom_clears (n : ℕ) {length received : ℕ} (progress : UInt32) (hlength : length ≤ c)
    (hreceived : received ≤ length) (hσ : σ.session.capacity = c) :
    Clears (Fits c (· ≤ length)) (fillFrom n length received progress)
      (Session.fillFrom n length received progress) σ := by
  induction n generalizing received progress σ with
  | zero =>
    rw [fillFrom, Session.fillFrom]
    exact .ite .rfl (fun _ => .pure (.ok hσ hreceived)) fun _ => .stall
  | succ n ih =>
    rw [fillFrom, Session.fillFrom]
    refine .ite .rfl (fun _ => .pure (.ok hσ hreceived)) fun _ => ?_
    refine .bind (readInto_clears hreceived hlength hσ) (fun count τ hread => ?_)
      fun _ _ h => h.1.fault
    have hτ : τ.session.capacity = c := hread.1.capacity_eq
    have hcount : count ≤ length - received := hread.1.value count rfl
    refine .now_bind <| .ite .rfl (fun _ => .session_bind ?_) fun _ => ih _ (by omega) hτ
    exact .ite .rfl (fun _ => .pure (.ok hτ hreceived)) fun _ => ih _ hreceived hτ

theorem fill_clears (length : ℕ) (hσ : σ.session.capacity = c) :
    Clears (Fits c (· ≤ length)) (fill length) (Session.fill length) σ := by
  have hlength : min length σ.session.capacity ≤ c := by
    rw [← hσ]
    exact Nat.min_le_right _ _
  refine .get_bind <| .now_bind <| .mono (fillFrom_clears _ _ hlength (Nat.zero_le _) hσ) ?_
  exact fun r τ h => ⟨h.capacity_eq, fun n hn => (h.value n hn).trans (Nat.min_le_left _ _)⟩

theorem drain_clears (n remaining : ℕ) (hσ : σ.session.capacity = c) :
    Clears (Fits c fun _ => True) (drain n remaining) (Session.drain n remaining) σ := by
  induction n generalizing remaining σ with
  | zero =>
    rw [drain, Session.drain]
    exact .ite .rfl (fun _ => .pure (.ok hσ trivial)) fun _ => .stall
  | succ n ih =>
    rw [drain, Session.drain]
    refine .ite .rfl (fun _ => .pure (.ok hσ trivial)) fun _ => .session_bind ?_
    refine .bind (fill_clears _ hσ) (fun got τ hfill => ?_) fun _ _ => Fits.fault
    have hgot := (hfill.value got rfl).trans (Nat.min_le_left _ _)
    refine .of_bind (minus?_eq hgot) <| .check .rfl (.error hfill.capacity_eq _) fun _ =>
      ih _ hfill.capacity_eq

theorem discard_clears (remaining : ℕ) (hσ : σ.session.capacity = c) :
    Clears (Bounded c) (discard remaining) (Session.discard remaining) σ := by
  refine .bind (.outcome (P := Fits c fun _ => True) (.session_bind ?_)) (fun result τ h => ?_) ?_
  · exact .check .rfl (.error hσ _) fun _ => drain_clears _ _ hσ
  · obtain ⟨_, ⟨⟩, h⟩ := h
    refine .change_bind (.ofResult ⟨?_, Nat.zero_le _⟩)
    rw [← h.capacity_eq]
    exact List.length_replicate
  · rintro fault τ ⟨_, ⟨⟩, _⟩

/-! ## Waiting for CONNACK -/

theorem awaitHeader_same (f : Session → α) (n : ℕ) (start timeout : UInt32) (attempts : ℕ) :
    Act.Keeps (Same (ω := ω) f) (Session.awaitHeader n start timeout attempts) := by
  induction n generalizing attempts with
  | zero => exact .stall
  | succ n ih =>
    rw [Session.awaitHeader]
    refine Act.Keeps.session.bind fun s => Act.Keeps.same_host.bind fun result => ?_
    split
    · exact .pure _
    · refine Act.Keeps.bind ?_ fun _ => .check (ih _)
      exact .ite (Act.Keeps.same_host.bind fun _ => .pure _)
        (Act.Keeps.session.bind fun _ => .pure _)
    · exact .throw _

omit [Host ω] in
/-- A CONNACK that fits is blanked out where it stood. -/
theorem acceptConnack_clears {header : Header} (hheader : header.remaining ≤ c)
    (hσ : σ.session.capacity = c) :
    Clears (Fits c fun _ => True) (acceptConnack header) (Session.acceptConnack header) σ := by
  subst hσ
  refine .session_bind <| .of_bind (slice?_eq (Nat.zero_le _) hheader) <| .change_bind <|
    .ofResult_bind (fun fault _ => ⟨rfl, fun _ h => nomatch h⟩) fun connack _ => .look_bind <|
      .of_bind (slice?_eq (Nat.zero_le _) hheader) <| .change_bind <| .pure (.ok ?_ trivial)
  simp only [Session.capacity, List.length_append, List.length_replicate, List.length_drop]
    at hheader ⊢
  omega

theorem receiveConnack_clears (timeout : UInt32) (hσ : σ.session.capacity = c) :
    Clears (Fits c fun _ => True) (receiveConnack timeout) (Session.receiveConnack timeout) σ := by
  refine .now_bind <| .get_bind <| .bind (P := fun _ τ => τ.session.capacity = c)
    (.plain fun _ _ hawait => (awaitHeader_same _ _ _ _ _ _ _ _ hawait).trans hσ)
    (fun header τ hτ => ?_) fun fault _ hτ => .error hτ fault
  refine .check .rfl (.error hτ _) fun _ => .ite .rfl (fun _ => ?_) fun hfits => ?_
  · exact .bind (discard_clears _ hτ) (fun _ _ h => .throw (.error h.capacity_eq _))
      fun fault _ h => .error h.capacity_eq fault
  · refine .bind (fill_clears _ hτ) (fun received _ h => ?_) fun _ _ => Fits.fault
    exact .check .rfl (.error h.capacity_eq _) fun _ =>
      acceptConnack_clears ((Nat.not_lt.mp hfits).trans_eq hσ) h.capacity_eq

end

end Checked

/-! ## While the buffer is away -/

/-- The second scene is without the network buffer of the first, which is `b` with `k` bytes to
handle. -/
def Scene.Away (b : Bytes) (k : ℕ) (σ σ' : Scene ω) : Prop :=
  σ' = { σ with session := σ.session.withoutBuffer } ∧ σ.session.buffer = b ∧ σ.session.filled = k

namespace Session
variable [Host ω] {b : Bytes} {k : ℕ}

open Act (Mirrors)

/-- Sending and updating the exchanges do not look at the network buffer. -/
theorem sendsAlike_away : SendsAlike 0 (Scene.Away (ω := ω) b k) where
  sendTimeout := by
    rintro σ _ ⟨rfl, -⟩
    rfl
  write spans := by
    rintro σ _ ⟨rfl, hb⟩
    exact .some ⟨.ok rfl, rfl, hb⟩
  flush := by
    rintro σ _ ⟨rfl, hb⟩
    exact .some ⟨.ok rfl, rfl, hb⟩
  now := by
    rintro σ _ ⟨rfl, hb⟩
    exact .some ⟨.ok (UInt32.add_zero _).symm, rfl, hb⟩
  stamp t := by
    rintro σ _ ⟨rfl, hb⟩
    rw [UInt32.add_zero]
    exact .some ⟨.ok rfl, rfl, hb⟩
  patience := by
    rintro σ _ ⟨rfl, -⟩
    rfl
  exchanges := by
    rintro σ _ ⟨rfl, -⟩
    rfl
  withExchanges := by
    rintro σ _ exchanges ⟨rfl, hb⟩
    exact ⟨rfl, hb⟩
  tracked := by
    rintro σ _ ⟨rfl, hb⟩
    exact ⟨rfl, hb⟩

/-- Nor does handling a packet. -/
theorem handles_away : Handles fun α (act act' : Act ω α) =>
    Mirrors (Scene.Away b k) (· = ·) act act' where
  pure _ := .pure rfl
  throw := .throw
  bind h hf := h.bind_eq hf
  session_bind h := .sessions_bind fun σ σ' ⟨hσ, _⟩ => h _ _ (by rw [hσ]; rfl) (by rw [hσ]; rfl)
  report event := by
    rintro σ _ ⟨rfl, hb⟩
    exact .some ⟨.ok rfl, rfl, hb⟩
  track := sendsAlike_away.track
  sendAck := sendsAlike_away.sendAck
  answered := by
    rintro σ _ ⟨rfl, hb⟩
    exact .some ⟨.ok rfl, rfl, hb⟩
  ended := by
    rintro σ _ ⟨rfl, hb⟩
    exact .some ⟨.ok rfl, rfl, hb⟩

end Session

/-- An operation that does not look at the network buffer does the same while it is away. -/
theorem Act.Mirrors.runOn_away {act : Act ω α} {σ : Scene ω}
    (h : Act.Mirrors (Scene.Away σ.session.buffer σ.session.filled) (· = ·) act act) :
    (act.runOn { σ with session := σ.session.withoutBuffer } = (act.runOn σ).map fun ending =>
        (ending.1, { ending.2 with session := ending.2.session.withoutBuffer })) ∧
      ∀ r τ, act.runOn σ = some (r, τ) →
        τ.session.buffer = σ.session.buffer ∧ τ.session.filled = σ.session.filled := by
  have hends := h σ { σ with session := σ.session.withoutBuffer } ⟨rfl, rfl, rfl⟩
  generalize act.runOn σ = ending,
    act.runOn { σ with session := σ.session.withoutBuffer } = ending' at hends ⊢
  cases hends with
  | none => exact ⟨rfl, fun _ _ h => nomatch h⟩
  | @some ending ending' hends =>
    obtain ⟨hresult, haway, hsame⟩ := hends
    refine ⟨congrArg some (Prod.ext hresult.eq.symm haway), ?_⟩
    rintro _ _ ⟨⟩
    exact hsame

namespace Checked
variable {σ : Scene ω} {c : ℕ}

/-- A buffer that is put back is as if its front had been taken off in its place. -/
theorem runOn_putBack {n : ℕ} {s : Session} (host : ω) (hn : n ≤ s.filled)
    (hfilled : s.filled ≤ s.capacity) :
    (putBack n s.buffer).run.runOn ⟨s.withoutBuffer, host⟩ =
      some (.ok (some ()), ⟨s.consume n, host⟩) := by
  have hslice : slice? n s.withoutBuffer.filled s.buffer = some ((s.buffer.take s.filled).drop n) :=
    slice?_eq hn hfilled
  have hminus : minus? s.withoutBuffer.filled n = some (s.filled - n) := minus?_eq hn
  change (do
    let kept ← of (slice? n s.withoutBuffer.filled s.buffer)
    let filled ← of (minus? s.withoutBuffer.filled n)
    plain <| Act.change fun s' => { s' with
      buffer := kept ++ s.buffer.drop kept.length, filled } : Checked ω Unit).run.runOn _ = _
  rw [hslice, hminus]
  rfl

/-- Work for which the network buffer is away, and after which it is put back. -/
theorem clears_while_away {R : Except Fault β → Scene ω → Prop} {act : Act ω α}
    {f : Except Fault α → Checked ω β} {g : Except Fault α → Act ω β} {n : ℕ}
    (hact : Act.Mirrors (Scene.Away σ.session.buffer σ.session.filled) (· = ·) act act)
    (hn : n ≤ σ.session.filled) (hfilled : σ.session.filled ≤ σ.session.capacity)
    (hf : ∀ (r : Except Fault α) (τ : Scene ω), τ.session.buffer = σ.session.buffer →
      τ.session.filled = σ.session.filled →
        Clears R (f r) (g r) { τ with session := τ.session.consume n }) :
    Clears R (do
      plain (Act.change Session.withoutBuffer)
      let r ← plain (Act.outcome act)
      putBack n σ.session.buffer
      f r) (do
        let r ← Act.outcome act
        Act.change (Session.consume n)
        g r) σ := by
  obtain ⟨haway, hends⟩ := hact.runOn_away
  have hplain : (plain (Act.outcome act)).run.runOn
      { σ with session := σ.session.withoutBuffer } = (act.runOn σ).map fun ending =>
        (.ok (some ending.1), { ending.2 with session := ending.2.session.withoutBuffer }) := by
    change (Act.outcome act >>= fun r => Pure.pure (some r)).runOn _ = _
    rw [Act.runOn_bind, Act.runOn_outcome, haway]
    cases act.runOn σ <;> rfl
  constructor
  · change (plain (Act.outcome act) >>= fun r =>
      putBack n σ.session.buffer >>= fun _ => f r).run.runOn
        { σ with session := σ.session.withoutBuffer } = _
    rw [OptionT.run_bind, Option.elimM, Act.runOn_bind, hplain, Act.runOn_bind, Act.runOn_outcome]
    rcases hrun : act.runOn σ with _ | ⟨r, τ⟩
    · rfl
    · obtain ⟨hbuffer, hτ⟩ := hends r τ hrun
      change (putBack n σ.session.buffer >>= fun _ => f r).run.runOn
        ⟨τ.session.withoutBuffer, τ.host⟩ = _
      rw [OptionT.run_bind, Option.elimM, Act.runOn_bind, ← hbuffer, runOn_putBack]
      · exact (hf r τ hbuffer hτ).runsAs
      · rwa [hτ]
      · rwa [hτ, Session.capacity, hbuffer]
  · intro r' τ' hrun
    rcases Act.runOn_bind_inv hrun with ⟨fault, hact', -⟩ | ⟨r, υ, hact', hrest⟩
    · rw [Act.runOn_outcome] at hact'
      obtain ⟨_, -, heq⟩ := Option.map_eq_some_iff.mp hact'
      cases heq
    · rw [Act.runOn_outcome] at hact'
      obtain ⟨_, hinner, heq⟩ := Option.map_eq_some_iff.mp hact'
      cases heq
      obtain ⟨hbuffer, hυ⟩ := hends _ _ hinner
      exact (hf _ _ hbuffer hυ).ends r' τ' hrest

/-! ## Receiving -/

variable [Host ω]

theorem handleFront_clears (managed : Bool) {header : Header}
    (hwhole : header.total ≤ σ.session.filled) (hfilled : σ.session.filled ≤ c)
    (hσ : σ.session.capacity = c) :
    Clears (Bounded c) (handleFront managed header) (Session.handleFront managed header) σ := by
  subst hσ
  refine .session_bind <| .of_bind (slice?_eq (Nat.le_add_right _ _) (hwhole.trans hfilled)) ?_
  refine clears_while_away (Session.handles_away.dispatch managed _) hwhole hfilled
    fun result τ hbuffer hτ => ?_
  have hcapacity : (τ.session.consume header.total).capacity = σ.session.capacity := by
    rw [Session.capacity_consume, Session.capacity, hbuffer]
    rfl
  have hends : (τ.session.consume header.total).filled ≤ σ.session.capacity := by
    change τ.session.filled - header.total ≤ _
    omega
  exact .ofResult_bind (fun _ _ => ⟨hcapacity, hends⟩) fun _ _ =>
    .now_bind <| .change_bind <| .pure ⟨hcapacity, hends⟩

theorem handleBuffered_clears (managed : Bool) (hfilled : σ.session.filled ≤ c)
    (hσ : σ.session.capacity = c) :
    Clears (Bounded c) (handleBuffered managed) (Session.handleBuffered managed) σ := by
  have hdone : ∀ r : Except Fault Progress, Bounded c r σ := fun _ => ⟨hσ, hfilled⟩
  refine .session_bind <| .ite .rfl (fun _ => .pure (hdone _)) fun _ => ?_
  refine .of_bind (slice?_eq (Nat.zero_le _) (hfilled.trans (Nat.le_of_eq hσ.symm))) ?_
  rw [List.drop_zero]
  generalize Header.decode σ.session.version (σ.session.buffer.take σ.session.filled) = decoded
  rcases decoded with fault | header
  · cases fault with
    | needMoreBytes => exact .pure (hdone _)
    | _ => exact .throw (hdone _)
  refine .ite .rfl (fun hlarge => ?_) fun _ => .ite .rfl (fun _ => .pure (hdone _)) fun hwhole =>
    handleFront_clears managed (Nat.not_lt.mp hwhole) hfilled hσ
  refine .of_bind (minus?_eq (by omega)) ?_
  exact .bind (discard_clears _ hσ) (fun _ τ h => .pure ⟨h.capacity_eq, h.filled_le⟩) fun _ τ h =>
    ⟨h.capacity_eq, h.filled_le⟩

theorem receive_clears (managed : Bool) (hfilled : σ.session.filled ≤ c)
    (hσ : σ.session.capacity = c) :
    Clears (Bounded c) (receive managed) (Session.receive managed) σ := by
  refine .session_bind ?_
  subst hσ
  refine .bind (readInto_clears hfilled le_rfl rfl) (fun received τ h => .change_bind ?_)
    fun fault τ h => ⟨h.1.capacity_eq, h.2 ▸ hfilled⟩
  obtain ⟨hread, hτ⟩ := h
  have hreceived : received ≤ σ.session.capacity - σ.session.filled := hread.value received rfl
  have hgrown : τ.session.filled + received ≤ σ.session.capacity := by omega
  refine .ite .rfl (fun _ => ?_) fun _ => handleBuffered_clears managed hgrown hread.capacity_eq
  have hkeeps : Act.Keeps (Same (ω := ω) fun s => (s.capacity, s.filled)) Session.keepAliveDuty :=
    Session.keepAliveDuty_keeps (Session.outward_same fun _ _ _ => rfl).send Act.Keeps.same_host
      (.change fun _ => rfl)
  have hafter : ∀ r υ, (Session.keepAliveDuty).runOn
      { τ with session := { τ.session with filled := τ.session.filled + received } } = some (r, υ) →
        υ.session.capacity = σ.session.capacity ∧ υ.session.filled ≤ σ.session.capacity := by
    intro r υ hrun
    obtain ⟨hcapacity, hfilled⟩ := Prod.mk.inj (hkeeps _ r υ hrun)
    exact ⟨hcapacity.trans hread.capacity_eq, hfilled.trans_le hgrown⟩
  exact .plain_bind (fun _ υ hduty => handleBuffered_clears managed (hafter _ υ hduty).2
    (hafter _ υ hduty).1) fun fault υ hduty => ⟨(hafter _ υ hduty).1, (hafter _ υ hduty).2⟩

end Checked

/-! ## Runs -/

variable [Host ω]

namespace Session

/-- Sending, updating the exchanges and reporting leave the network buffer. -/
theorem outward_capacity : Outward (Same (ω := ω) capacity) := outward_same fun _ _ _ => rfl

theorem connect_capacity (c : Connect) (timeout : UInt32) :
    Act.Keeps (Same (ω := ω) capacity) (connect c timeout) := by
  have hreceives : Act.Keeps (Same (ω := ω) capacity) (receiveConnack timeout) := fun σ r τ hrun =>
    ((Checked.receiveConnack_clears timeout rfl).ends r τ hrun).capacity_eq
  have hreset : ∀ negotiated : Negotiated, Act.Keeps (Same (ω := ω) capacity)
      (Act.change fun s => { s.resetBuffer with negotiated }) := fun _ =>
    .change fun _ => List.length_replicate
  have hhandshake : Act.Keeps (Same (ω := ω) capacity) (handshake c timeout) :=
    Act.Keeps.session.bind fun _ => (Act.Keeps.ofResult _).bind fun _ =>
      (Act.Keeps.ofResult _).bind fun _ => (hreset _).bind fun _ =>
        (Act.Keeps.ofResult _).bind fun _ => (outward_capacity.send _).bind fun _ =>
          hreceives.bind fun _ => (Act.Keeps.ofResult _).bind fun _ => .pure _
  have hestablish : Act.Keeps (Same (ω := ω) capacity) (establish c) :=
    Act.Keeps.bind (.change fun _ => rfl) fun _ => Act.Keeps.same_host.bind fun _ =>
      .change fun _ => rfl
  rw [connect_eq]
  exact hhandshake.bind fun _ => (outward_capacity.resume _).bind fun _ =>
    hestablish.bind fun _ => .pure _

end Session

/-- A step leaves the network buffer as large as it is, and no more to handle than it holds. -/
theorem Step.bounded {s : Step ω} {c : ℕ}
    (h : s.before.session.capacity = c ∧ s.before.session.filled ≤ c) :
    s.after.session.capacity = c ∧ s.after.session.filled ≤ c := by
  obtain ⟨rfl, hfilled⟩ := h
  suffices hcapacity : s.after.session.capacity = s.before.session.capacity from
    ⟨hcapacity, hcapacity ▸ s.sound.filled_le hfilled⟩
  have hout := @Session.outward_capacity (Watched ω) _
  by_cases hcall : ∃ managed, s.call = .receive managed
  · obtain ⟨managed, hcall⟩ := hcall
    obtain ⟨r, hrun, -⟩ := s.receives hcall
    exact ((Checked.receive_clears managed hfilled rfl).ends r _ hrun).capacity_eq
  · exact s.call.perform_keeps hout (fun c timeout _ => Session.connect_capacity c timeout)
      (fun _ => .change fun _ => List.length_replicate)
      (fun _ => (hout.send _).bind fun _ => .change fun _ => rfl)
      (.change fun _ => rfl) (fun managed hreceive => absurd ⟨managed, hreceive⟩ hcall)
      s.before s.result s.after s.performed

/-- **Inside the network buffer.** Along every run of a new client, whatever arrives, whatever fails
and whatever its host says about the bytes it moved, the network buffer is as large after every call
as it was made, and no more bytes than it holds are to handle. Every slice that the next call to
receive takes of it then lies in it, and no difference of lengths is negative. So it is with
sending, waiting for CONNACK and dropping what does not fit, from any scene at all. -/
theorem run_stays_in_bounds {steps : List (Step ω)} {capacity : ℕ} {exchanges : ExchangeTable}
    {version : Version} {settings : Settings} (hrun : IsRun steps)
    (hnew : ∀ s ∈ steps.head?,
      s.before.session = .create capacity exchanges version settings) :
    (∀ σ : Scene (Watched ω), (σ.session = .create capacity exchanges version settings ∨
        ∃ s ∈ steps, σ.session = s.after.session) →
      σ.session.capacity = capacity ∧ σ.session.filled ≤ capacity ∧
        ∀ managed, (Checked.receive managed).RunsAs (Session.receive managed) σ) ∧
      ∀ σ : Scene (Watched ω), (∀ spans, (Checked.send spans).RunsAs (Session.send spans) σ) ∧
        (∀ timeout, (Checked.receiveConnack timeout).RunsAs (Session.receiveConnack timeout) σ) ∧
        ∀ n, (Checked.discard n).RunsAs (Session.discard n) σ := by
  refine ⟨fun σ hσ => ?_, fun σ => ⟨fun spans => Checked.send_runsAs spans σ,
    fun timeout => (Checked.receiveConnack_clears timeout rfl).runsAs,
    fun n => (Checked.discard_clears n rfl).runsAs⟩⟩
  have hcreate : Session.capacity (.create capacity exchanges version settings) = capacity ∧
      (Session.create capacity exchanges version settings).filled ≤ capacity :=
    ⟨List.length_replicate, Nat.zero_le _⟩
  have hends : σ.session.capacity = capacity ∧ σ.session.filled ≤ capacity := by
    rcases hσ with hσ | ⟨s, hs, hσ⟩
    · rw [hσ]
      exact hcreate
    · have hbefore := before_of_isRun (P := fun s => s.capacity = capacity ∧ s.filled ≤ capacity)
        hrun (fun s hs => hnew s hs ▸ hcreate) (fun s _ => s.bounded) s hs
      rw [hσ]
      exact s.bounded hbefore
  exact ⟨hends.1, hends.2, fun managed => (Checked.receive_clears managed hends.2 hends.1).runsAs⟩

/-- A client with room for eight bytes, whose transport claims nine bytes where two are asked for
and 300 where eight are. -/
def overreported : List (Step Scripted) :=
  stepsFrom
    { session := .create 8 (.empty 0 0) .v311 {}
      host := { host := {
        incoming := [0x20, 2, 0, 0, 0x30, 3, 0, 9, 97]
        reads := [.move 1, .move 1, .claim 9, .claim 300]
        ticks := List.replicate 4 1 } } }
    [.connect { clientId := "c" } 1000, .receive true, .receive true]

/-- The second packet is refused, and three bytes that never arrived stand behind it. -/
theorem run_stays_in_bounds_overreported :
    ∃ opened refused again, overreported = [opened, refused, again] ∧
      opened.result = .ok (.session false) ∧ refused.result = .error .badResponse ∧
      refused.after.session.filled = 3 ∧ refused.after.session.capacity = 8 ∧
      (Checked.receive true).RunsAs (Session.receive true) refused.after := by
  have hcalls : overreported.map (fun s => (s.result, s.after.session.filled)) =
      [(.ok (.session false), 0), (.error .badResponse, 3), (.error .badResponse, 3)] := by
    decide +kernel
  obtain ⟨opened, _, hsteps, hopened, hcalls⟩ := List.map_eq_cons_iff.mp hcalls
  obtain ⟨refused, _, rfl, hrefused, hcalls⟩ := List.map_eq_cons_iff.mp hcalls
  obtain ⟨again, _, rfl, -, hcalls⟩ := List.map_eq_cons_iff.mp hcalls
  cases List.map_eq_nil_iff.mp hcalls
  simp only [Prod.mk.injEq] at hopened hrefused
  have hnew : ∀ s ∈ overreported.head?, s.before.session = .create 8 (.empty 0 0) .v311 {} :=
    fun s hs => by rw [before_of_mem_head?_stepsFrom hs]
  have hmem : refused ∈ overreported := by simp [hsteps]
  obtain ⟨hcapacity, -, hreceive⟩ := (run_stays_in_bounds (isRun_stepsFrom _ _) hnew).1
    refused.after (.inr ⟨refused, hmem, rfl⟩)
  exact ⟨opened, refused, again, hsteps, hopened.1, hrefused.1, hrefused.2, hcapacity,
    hreceive true⟩

end MqttClient
