import Mathlib.Data.Nat.Notation
import Mathlib.Tactic.ByContra
import MqttClient.Settings.Json

/-!
# What the library at hand reads

`plainJson` does what settings ask of a JSON library (`Settings.plainJson_lawful`). Each piece of a
text is read off its front, whatever follows it: a key (`Settings.readEntry_plain`) and a number,
which ends where no digit follows (`Settings.readNumber_toDigits`).
-/
namespace MqttClient.Settings

/-! ## Pieces of the text -/

section Text
variable {digits text rest : List Char}

theorem quoted_append (h : ∀ c ∈ text, c ≠ '"' ∧ c ≠ '\\') :
    quoted (text ++ '"' :: rest) = some (text, rest) := by
  induction text with
  | nil => rw [List.nil_append, quoted]
  | cons c text ih =>
    rw [List.forall_mem_cons] at h
    obtain ⟨⟨hquote, hescape⟩, htext⟩ := h
    rw [List.cons_append, quoted.eq_def]
    split <;> simp_all

theorem keyText_append (key rest : List Char) :
    keyText key ++ rest = '"' :: (key ++ '"' :: ':' :: rest) := by
  simp [keyText]

theorem readKey_plain {key : List Char} (h : IsPlain key) (rest : List Char) :
    readKey (keyText key ++ rest) = some (key, rest) := by
  rw [keyText_append, readKey, quoted_append h]
  rfl

theorem skipBlanks_cons {c : Char} (h : isBlank c = false) (rest : List Char) :
    skipBlanks (c :: rest) = c :: rest := by
  rw [skipBlanks, List.dropWhile_cons_of_neg (by simp [h])]

/-- The comma before a key is no part of it. -/
theorem readEntry_plain (first : Bool) {key : List Char} (h : IsPlain key) (rest : List Char) :
    readEntry first (entryLead first ++ keyText key ++ rest) = some (some key, rest) := by
  have hkey := readKey_plain h rest
  rw [List.append_assoc]
  rw [keyText_append] at hkey ⊢
  cases first
  · have hlead : entryLead false = [','] := rfl
    rw [hlead, List.singleton_append, readEntry, skipBlanks_cons (by decide)]
    simp [objectClose, skipBlanks_cons, isBlank, hkey]
  · have hlead : entryLead true = [] := rfl
    rw [hlead, List.nil_append, readEntry, skipBlanks_cons (by decide)]
    simp [objectClose, hkey]

theorem readEntry_close (first : Bool) (rest : List Char) :
    readEntry first (objectClose :: rest) = some (none, rest) := by
  rw [readEntry, skipBlanks_cons (by decide)]
  exact if_pos rfl

theorem readOpen_open (rest : List Char) : readOpen (objectOpen :: rest) = some rest := by
  rw [readOpen, skipBlanks_cons (by decide)]
  exact if_pos rfl

theorem exists_cons_toDigits (n : ℕ) : ∃ c digits, Nat.toDigits 10 n = c :: digits :=
  List.exists_cons_of_ne_nil Nat.toDigits_ne_nil

/-- Only zero begins with the digit zero. -/
theorem head?_toDigits {n : ℕ} (h : 0 < n) : (Nat.toDigits 10 n).head? ≠ some '0' := by
  induction n using Nat.base_induction 10 (by decide) with
  | single n hn =>
    rw [Nat.toDigits_of_lt_base hn]
    revert n
    decide
  | digit n k hk hn ih =>
    -- The last digit comes behind the others, so the first one stays.
    obtain ⟨c, digits, hdigits⟩ := exists_cons_toDigits n
    rw [← Nat.toDigits_append_toDigits (by decide) hn hk, hdigits]
    rw [hdigits] at ih
    exact ih hn

theorem decimal_toDigits (n : ℕ) : decimal (Nat.toDigits 10 n) = n := by
  have hdecimal : decimal (Nat.toDigits 10 n) = Nat.ofDigitChars 10 (Nat.toDigits 10 n) 0 := by
    simp only [decimal, Nat.ofDigitChars_eq_foldl, Nat.mul_comm]
  rw [hdecimal, Nat.ofDigitChars_ten_toDigits]

theorem takeWhile_isDigit (hdigits : ∀ c ∈ digits, c.isDigit = true) (hrest : EndsNumber rest) :
    (digits ++ rest).takeWhile Char.isDigit = digits ∧
      (digits ++ rest).dropWhile Char.isDigit = rest := by
  rw [List.takeWhile_append_of_pos hdigits, List.dropWhile_append_of_pos hdigits]
  cases rest with
  | nil => simp
  | cons c rest =>
    have hc : c.isDigit = false := hrest c rfl
    simp [hc]

theorem isBlank_of_isDigit {c : Char} (h : c.isDigit = true) : isBlank c = false := by
  rw [isBlank]
  by_contra hblank
  simp only [Bool.not_eq_false, Bool.or_eq_true, beq_iff_eq] at hblank
  rcases hblank with ((rfl | rfl) | rfl) | rfl <;> exact absurd h (by decide)

/-- A number is read off its digits, unless it is too large. -/
theorem readNumber_toDigits (max v : ℕ) (hrest : EndsNumber rest) :
    readNumber max (Nat.toDigits 10 v ++ rest) = if v ≤ max then some (v, rest) else none := by
  have hall : ∀ c ∈ Nat.toDigits 10 v, c.isDigit = true :=
    fun c hc => Nat.isDigit_of_mem_toDigits (by decide) (by decide) hc
  obtain ⟨c, digits, hdigits⟩ := exists_cons_toDigits v
  have hdecimal := decimal_toDigits v
  have hhead := head?_toDigits (n := v)
  rw [hdigits] at hall hdecimal hhead ⊢
  rw [List.forall_mem_cons] at hall
  obtain ⟨htake, hdrop⟩ := takeWhile_isDigit hall.2 hrest
  rw [readNumber, List.cons_append, skipBlanks_cons (isBlank_of_isDigit hall.1)]
  -- The reader takes a digit zero at the front for the whole number.
  by_cases hzero : c = '0'
  · have hv : v = 0 := by
      by_contra hv
      exact hhead (Nat.pos_of_ne_zero hv) (congrArg some hzero)
    subst hv
    rw [Nat.toDigits_zero] at hdigits
    obtain ⟨-, rfl⟩ := List.cons.inj hdigits
    simp [hzero]
  · simp [hzero, hall.1, htake, hdrop, hdecimal]

end Text

/-! ## Fields -/

section Fields
variable {given : Setting → Option ℕ}

theorem get_override (hgiven : ∀ f, ∀ v ∈ given f, v ≤ f.maxValue) (s : Settings)
    (f g : Setting) : (override given s f).get g =
      if g = f then (given g).getD (s.get g) else s.get g := by
  rw [override]
  cases hf : given f with
  | none => grind
  | some v => grind [get_set (hgiven f v hf)]

/-- The fields that are put in have the values that have come, if any. -/
theorem get_foldl_override (hgiven : ∀ f, ∀ v ∈ given f, v ≤ f.maxValue) (listed : List Setting)
    (s : Settings) (f : Setting) : (listed.foldl (override given) s).get f =
      if f ∈ listed then (given f).getD (s.get f) else s.get f := by
  induction listed generalizing s with
  | nil => rfl
  | cons g listed ih =>
    rw [List.foldl_cons, ih, get_override hgiven]
    cases hvalue : given f <;> by_cases hmem : f ∈ listed <;> by_cases heq : f = g <;>
      simp [hmem, heq]

end Fields

theorem plainJson_lawful : plainJson.Lawful where
  enter_open := readOpen_open
  nextKey_plain first _ rest hkey := readEntry_plain first hkey rest
  nextKey_close := readEntry_close
  number_digits _ _ _ hv hrest := (readNumber_toDigits _ _ hrest).trans (if_pos hv)
  number_overflow _ _ _ hv hrest :=
    (readNumber_toDigits _ _ hrest).trans (if_neg (Nat.not_le.mpr hv))
  ended_nil := rfl
  keep_new given f v hf := if_neg (by simp [hf])
  keep_again given f v hf := if_pos (Option.isSome_iff_ne_none.mpr hf)
  complete_get given f hgiven :=
    (get_foldl_override hgiven Setting.all {} f).trans (if_pos f.mem_all)
  openObject_eq _ := rfl
  writeEntry_plain _ _ _ _ _ _ := rfl
  closeObject_eq _ _ := rfl

end MqttClient.Settings
