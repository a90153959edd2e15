import MqttClient.Proofs.Sending

/-!
# Spans that are used up in place

What is left of a packet need not be copied out of it. A `Spans.Cursor` keeps every span of a
packet in its place, counts those that are used up, and cuts the one that is taken in part. What it
has left is the spans from its first one on (`Cursor.live`). Moving it on drops bytes from their
front, as `Spans.advance` does on a list of its own, and leaves all other spans as they are
(`Cursor.advance_drops`). So a packet can be sent from its spans where they stand
(`Session.offerFrom_eq`).
-/
namespace MqttClient

namespace Spans

theorem advance_zero (spans : List Bytes) : advance 0 spans = spans := by
  cases spans <;> rfl

theorem advance_nil (n : ℕ) : advance n [] = [] := by
  cases n <;> rfl

theorem advance_cons {n : ℕ} (hn : n ≠ 0) (span : Bytes) (rest : List Bytes) :
    advance n (span :: rest) =
      if span.length ≤ n then advance (n - span.length) rest else span.drop n :: rest := by
  cases n with
  | zero => exact absurd rfl hn
  | succ n => rfl

/-- Bytes that are dropped in two parts are dropped at once. -/
theorem advance_add (m n : ℕ) (spans : List Bytes) :
    advance (m + n) spans = advance n (advance m spans) := by
  fun_induction advance m spans with
  | case1 spans => rw [Nat.zero_add]
  | case2 m => rw [advance_nil, advance_nil]
  | case3 m span rest hle ih =>
    rw [advance_cons (by omega), if_pos (by omega), ← ih]
    congr 1
    omega
  | case4 m span rest hlt =>
    by_cases hn : n = 0
    · subst hn
      rw [Nat.add_zero, advance_cons (by omega), if_neg hlt, advance_zero]
    · -- The rest of the cut span is used up or cut again.
      rw [advance_cons (by omega), advance_cons hn, List.length_drop, List.drop_drop]
      by_cases hall : span.length ≤ m + 1 + n
      · rw [if_pos hall, if_pos (by omega)]
        congr 1
        omega
      · rw [if_neg hall, if_neg (by omega)]

/-- Spans that stay in their places while they are used up. -/
structure Cursor where
  spans : List Bytes
  /-- The place of the first span that is not used up. -/
  first : ℕ
  deriving DecidableEq

namespace Cursor

/-- The spans that are left. -/
def live (c : Cursor) : List Bytes := c.spans.drop c.first

/-- Use up `n` bytes. A span that is used up stays as it is, and one that is not is cut. -/
def advance (n : ℕ) (c : Cursor) : Cursor :=
  if h : 0 < n ∧ c.first < c.spans.length then
    let span := c.spans[c.first]
    if span.length ≤ n then advance (n - span.length) { c with first := c.first + 1 }
    else { c with spans := c.spans.set c.first (span.drop n) }
  else c
termination_by c.spans.length - c.first

/-- Pass over spans that are empty. -/
def skip (c : Cursor) : Cursor :=
  if h : c.first < c.spans.length then
    if c.spans[c.first].isEmpty then skip { c with first := c.first + 1 } else c
  else c
termination_by c.spans.length - c.first

variable {c : Cursor}

theorem live_cons (h : c.first < c.spans.length) :
    c.live = c.spans[c.first] :: live { c with first := c.first + 1 } :=
  List.drop_eq_getElem_cons h

theorem live_nil (h : ¬c.first < c.spans.length) : c.live = [] :=
  List.drop_of_length_le (Nat.not_lt.mp h)

/-- What is left is what is left of a list of its own. -/
theorem live_advance (n : ℕ) (c : Cursor) : (c.advance n).live = Spans.advance n c.live := by
  fun_induction advance n c with
  | case1 n c h span hle ih =>
    rw [ih, live_cons h.2, advance_cons (Nat.ne_of_gt h.1), if_pos hle]
  | case2 n c h span hlt =>
    rw [live_cons h.2, advance_cons (Nat.ne_of_gt h.1), if_neg hlt, live]
    simp only [List.drop_set, Nat.lt_irrefl, if_false, Nat.sub_self]
    rw [List.drop_eq_getElem_cons h.2]
    rfl
  | case3 n c h =>
    by_cases hn : n = 0
    · rw [hn, advance_zero]
    · rw [live_nil fun hfirst => h ⟨Nat.pos_of_ne_zero hn, hfirst⟩, advance_nil]

theorem live_skip (c : Cursor) : c.skip.live = c.live.dropWhile List.isEmpty := by
  fun_induction skip c with
  | case1 c h hempty ih => rw [ih, live_cons h, List.dropWhile_cons_of_pos hempty]
  | case2 c h hempty => rw [live_cons h, List.dropWhile_cons_of_neg hempty]
  | case3 c h => rw [live_nil h, List.dropWhile_nil]

/-- The cursor does not move back, nor beyond the end. -/
theorem first_advance (n : ℕ) (c : Cursor) :
    c.first ≤ (c.advance n).first ∧ (c.advance n).first ≤ max c.first c.spans.length := by
  fun_induction advance n c with
  | case1 n c h span hle ih =>
    dsimp only at ih
    omega
  | case2 n c h span hlt => exact ⟨Nat.le_refl _, Nat.le_max_left _ _⟩
  | case3 n c h => exact ⟨Nat.le_refl _, Nat.le_max_left _ _⟩

/-- No span but the one that is first afterwards is another than before. -/
theorem spans_advance (n : ℕ) (c : Cursor) :
    (c.advance n).spans.length = c.spans.length ∧
      ∀ i, i ≠ (c.advance n).first → (c.advance n).spans[i]? = c.spans[i]? := by
  fun_induction advance n c with
  | case1 n c h span hle ih => exact ih
  | case2 n c h span hlt =>
    exact ⟨List.length_set, fun i hi => List.getElem?_set_ne (Ne.symm hi)⟩
  | case3 n c h => exact ⟨rfl, fun _ _ => rfl⟩

/-- **Bytes are dropped in place.** When `n` bytes have been used up, what is left holds the same
bytes but for the first `n`. All spans are in their places, the cursor is not beyond the last of
them, and none but the one that it has come to is another than before. So it makes no difference to
what is left whether bytes are used up in two parts or at once. -/
theorem advance_drops (n : ℕ) (c : Cursor) :
    (c.advance n).live = Spans.advance n c.live ∧
      (c.advance n).live.flatten = c.live.flatten.drop n ∧
      ((c.advance n).spans.length = c.spans.length ∧
        ∀ i, i ≠ (c.advance n).first → (c.advance n).spans[i]? = c.spans[i]?) ∧
      (c.first ≤ (c.advance n).first ∧
        (c.first ≤ c.spans.length → (c.advance n).first ≤ c.spans.length)) ∧
      ∀ m, ((c.advance n).advance m).live = (c.advance (n + m)).live := by
  obtain ⟨hforward, hbounded⟩ := first_advance n c
  refine ⟨live_advance n c, ?_, spans_advance n c, ⟨hforward, fun hfirst => ?_⟩, fun m => ?_⟩
  · rw [live_advance, flatten_advance]
  · rwa [Nat.max_eq_right hfirst] at hbounded
  · rw [live_advance, live_advance, live_advance, advance_add]

/-- Across an empty span, and into the next one. -/
example : (⟨[[1, 2], [], [3], [4, 5, 6]], 0⟩ : Cursor).advance 4 =
    ⟨[[1, 2], [], [3], [5, 6]], 3⟩ := by decide +kernel

end Cursor

end Spans

namespace Session
variable {ω : Type} [Host ω]

/-- Offer the spans that a cursor has left until their `left` bytes are taken, as `offer` does, and
use them up in their places. -/
def offerFrom (n : ℕ) (start : UInt32) (left : ℕ) (c : Spans.Cursor) : Act ω Unit := do
  if left = 0 then return
  match n with
  | 0 => Act.stall
  | n + 1 =>
    let c := c.skip
    match ← Act.guarded (Act.host (Host.write c.live)) with
    | none => throw .sendFailed
    | some count =>
      let sent := min count left
      if sent < left then
        let elapsed := (← Act.now) - start
        if (← Act.session).settings.sendTimeout ≤ elapsed then throw .sendFailed
      offerFrom n start (left - sent) (c.advance sent)

/-- Sending spans where they stand is sending them. -/
theorem offerFrom_eq (n : ℕ) (start : UInt32) (left : ℕ) (c : Spans.Cursor) :
    (offerFrom n start left c : Act ω Unit) = offer n start left c.live := by
  induction n generalizing left c with
  | zero => rfl
  | succ n ih =>
    rw [offerFrom, offer, ← Spans.Cursor.live_skip]
    by_cases hleft : left = 0
    · rw [if_pos hleft, if_pos hleft]
    · rw [if_neg hleft, if_neg hleft]
      refine bind_congr fun taken => ?_
      cases taken with
      | none => rfl
      | some count => simp only [ih, Spans.Cursor.live_advance]

end Session

end MqttClient
