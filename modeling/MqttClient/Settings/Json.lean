import MqttClient.Settings.Library

/-!
# A JSON library for settings

`plainJson` works on characters. Its reader takes known fields as unsigned decimals and skips the
others with little scrutiny: strings, lists and objects must close, and anything else runs up to the
next comma or closing bracket. Keys are taken as they stand, escapes and all.

A list in a skipped field may hold one element without a comma before it. That is its first
element, as a rule, but a list that begins with a comma has it still to spend.
-/
namespace MqttClient.Settings

/-! ## Pieces of the text -/

/-- Whether a character may stand between tokens. -/
def isBlank (c : Char) : Bool := c == ' ' || c == '\n' || c == '\t' || c == '\r'

/-- Skip blanks. -/
def skipBlanks (text : List Char) : List Char := text.dropWhile isBlank

/-- The inside of a string whose opening quote is gone, and what follows its closing quote. A
character after a backslash closes nothing. -/
def quoted : List Char → Option (List Char × List Char)
  | [] => none
  | '"' :: rest => some ([], rest)
  | '\\' :: c :: rest => (quoted rest).map fun (inside, after) => ('\\' :: c :: inside, after)
  | c :: rest => (quoted rest).map fun (inside, after) => (c :: inside, after)

/-- The value of some decimal digits. -/
def decimal (digits : List Char) : Nat :=
  digits.foldl (fun value c => value * 10 + (c.toNat - '0'.toNat)) 0

/-- An unsigned decimal up to `max`, and what follows it. A leading zero is the whole number. -/
def readNumber (max : Nat) (text : List Char) : Option (Nat × List Char) :=
  match skipBlanks text with
  | [] => none
  | c :: rest =>
    if c = '0' then some (0, rest)
    else if c.isDigit then
      let digits := c :: rest.takeWhile Char.isDigit
      let value := decimal digits
      if value ≤ max then some (value, rest.dropWhile Char.isDigit) else none
    else none

/-- A key and the colon after it, and what follows them. -/
def readKey (text : List Char) : Option (List Char × List Char) :=
  match text with
  | '"' :: rest =>
    match quoted rest with
    | none => none
    | some (key, rest) =>
      match skipBlanks rest with
      | ':' :: rest => some (key, rest)
      | _ => none
  | _ => none

/-- The next key of an object, or none where the object closes, and what follows. -/
def readEntry (first : Bool) (text : List Char) : Option (Option (List Char) × List Char) :=
  match skipBlanks text with
  | [] => none
  | c :: rest =>
    if c = objectClose then some (none, rest)
    else if first ∨ c = ',' then
      (readKey (if first then c :: rest else skipBlanks rest)).map fun (key, rest) =>
        (some key, rest)
    else none

/-! ## Values that are skipped -/

/-- Whether a character ends a skipped value. -/
def endsValue (c : Char) : Bool := c == ',' || c == objectClose || c == ']'

/-- Skip up to the next comma or closing bracket, which must come. -/
def skipBare (text : List Char) : Option (List Char) :=
  match text.dropWhile fun c => !endsValue c with
  | [] => none
  | rest => some rest

mutual

/-- Skip a value, in at most `n` nested steps. -/
def skipValue (n : Nat) (text : List Char) : Option (List Char) :=
  match n with
  | 0 => none
  | n + 1 =>
    match skipBlanks text with
    | [] => none
    | c :: rest =>
      if c = '"' then (quoted rest).map Prod.snd
      else if c = '[' then skipList n true rest
      else if c = objectOpen then skipObject n true rest
      else if endsValue c then none
      else skipBare rest

/-- Skip the rest of a list. `spare` says whether an element may still come without a comma. -/
def skipList (n : Nat) (spare : Bool) (text : List Char) : Option (List Char) :=
  match n with
  | 0 => none
  | n + 1 =>
    match skipBlanks text with
    | [] => none
    | c :: rest =>
      if c = ']' then some rest
      else if c = ',' then
        match skipBlanks rest with
        | [] => none
        | d :: rest =>
          if d = ']' then none
          else
            match skipValue n (d :: rest) with
            | none => none
            | some rest => skipList n spare rest
      else if spare then
        match skipValue n (c :: rest) with
        | none => none
        | some rest => skipList n false rest
      else none

/-- Skip the rest of an object. `first` says whether no field has come yet. -/
def skipObject (n : Nat) (first : Bool) (text : List Char) : Option (List Char) :=
  match n with
  | 0 => none
  | n + 1 =>
    match readEntry first text with
    | none => none
    | some (none, rest) => some rest
    | some (some _, rest) =>
      match skipValue n rest with
      | none => none
      | some rest => skipObject n false rest

end

/-- Steps that suffice to skip any value in a text: each character opens at most one value and
one container. -/
def skipBound (text : List Char) : Nat := 2 * text.length + 2

/-! ## What is left gets shorter -/

section
variable {text inside key rest : List Char} {c : Char} {first : Bool} {n : Nat}

theorem length_skipBlanks_le (text : List Char) : (skipBlanks text).length ≤ text.length :=
  (List.dropWhile_suffix isBlank).length_le

theorem length_skipBlanks (h : skipBlanks text = c :: rest) : rest.length < text.length := by
  have hle := length_skipBlanks_le text
  rwa [h] at hle

theorem length_quoted (h : quoted text = some (inside, rest)) : rest.length < text.length := by
  fun_induction quoted text generalizing inside with
  | case1 => cases h
  | case2 rest' =>
    cases h
    exact Nat.lt_succ_self _
  | case3 c rest' ih =>
    obtain ⟨⟨inside', after⟩, hquoted, heq⟩ := Option.map_eq_some_iff.mp h
    cases heq
    exact Nat.lt_succ_of_lt (Nat.lt_succ_of_lt (ih hquoted))
  | case4 c rest' _ _ ih =>
    obtain ⟨⟨inside', after⟩, hquoted, heq⟩ := Option.map_eq_some_iff.mp h
    cases heq
    exact Nat.lt_succ_of_lt (ih hquoted)

theorem length_readKey (h : readKey text = some (key, rest)) : rest.length < text.length := by
  rw [readKey.eq_def] at h
  split at h
  · split at h
    · cases h
    · rename_i inside after hquoted
      split at h
      · rename_i last hcolon
        cases h
        have hinside := length_quoted hquoted
        have hafter := length_skipBlanks hcolon
        rw [List.length_cons]
        omega
      · cases h
  · cases h

theorem length_readEntry {key? : Option (List Char)}
    (h : readEntry first text = some (key?, rest)) : rest.length < text.length := by
  rw [readEntry] at h
  split at h
  · cases h
  · rename_i c after hblank
    have hafter := length_skipBlanks hblank
    split at h
    · cases h
      exact hafter
    · split at h
      · obtain ⟨⟨key, last⟩, hkey, heq⟩ := Option.map_eq_some_iff.mp h
        cases heq
        have hlast := length_readKey hkey
        have hblanks := length_skipBlanks_le after
        cases first
        · simp only [Bool.false_eq_true, if_false] at hlast
          omega
        · simp only [if_true, List.length_cons] at hlast
          omega
      · cases h

theorem length_readNumber {max v : Nat} (h : readNumber max text = some (v, rest)) :
    rest.length ≤ text.length := by
  rw [readNumber] at h
  split at h
  · cases h
  · rename_i c after hblank
    have hafter := length_skipBlanks hblank
    split at h
    · cases h
      exact Nat.le_of_lt hafter
    · split at h
      · simp only at h
        split at h
        · cases h
          have hdigits := (List.dropWhile_suffix Char.isDigit (l := after)).length_le
          omega
        · cases h
      · cases h

/-- What is left when something has been skipped is no longer than the text. -/
def Shortens (skip : List Char → Option (List Char)) : Prop :=
  ∀ text rest, skip text = some rest → rest.length ≤ text.length

theorem skipBare_shortens : Shortens skipBare := by
  intro text rest h
  rw [skipBare] at h
  split at h
  · cases h
  · cases h
    exact (List.dropWhile_suffix _).length_le

theorem skipValue_shortens (hlist : Shortens (skipList n true))
    (hobject : Shortens (skipObject n true)) : Shortens (skipValue (n + 1)) := by
  intro text rest h
  rw [skipValue] at h
  split at h
  · cases h
  · rename_i c after hblank
    refine Nat.le_trans ?_ (Nat.le_of_lt (length_skipBlanks hblank))
    split at h
    · obtain ⟨⟨inside, last⟩, hquoted, rfl⟩ := Option.map_eq_some_iff.mp h
      exact Nat.le_of_lt (length_quoted hquoted)
    · split at h
      · exact hlist after rest h
      · split at h
        · exact hobject after rest h
        · split at h
          · cases h
          · exact skipBare_shortens after rest h

theorem skipList_shortens (hvalue : Shortens (skipValue n))
    (hlist : ∀ spare, Shortens (skipList n spare)) (spare : Bool) :
    Shortens (skipList (n + 1) spare) := by
  intro text rest h
  rw [skipList] at h
  split at h
  · cases h
  · rename_i c after hblank
    have hafter := length_skipBlanks hblank
    split at h
    · cases h
      exact Nat.le_of_lt hafter
    · split at h
      · split at h
        · cases h
        · rename_i d last hnext
          have hlast := length_skipBlanks hnext
          split at h
          · cases h
          · split at h
            · cases h
            · rename_i left hskipped
              have hleft := hvalue _ _ hskipped
              have hrest := hlist _ _ _ h
              rw [List.length_cons] at hleft
              omega
      · split at h
        · split at h
          · cases h
          · rename_i left hskipped
            have hleft := hvalue _ _ hskipped
            have hrest := hlist _ _ _ h
            rw [List.length_cons] at hleft
            omega
        · cases h

theorem skipObject_shortens (hvalue : Shortens (skipValue n))
    (hobject : ∀ first, Shortens (skipObject n first)) (first : Bool) :
    Shortens (skipObject (n + 1) first) := by
  intro text rest h
  rw [skipObject] at h
  split at h
  · cases h
  · rename_i last hentry
    cases h
    exact Nat.le_of_lt (length_readEntry hentry)
  · rename_i key last hentry
    have hlast := length_readEntry hentry
    split at h
    · cases h
    · rename_i left hskipped
      have hleft := hvalue _ _ hskipped
      have hrest := hobject _ _ _ h
      omega

theorem skips_shorten (n : Nat) : Shortens (skipValue n) ∧
    (∀ spare, Shortens (skipList n spare)) ∧ ∀ first, Shortens (skipObject n first) := by
  induction n with
  | zero => simp [Shortens, skipValue, skipList, skipObject]
  | succ n ih =>
    obtain ⟨hvalue, hlist, hobject⟩ := ih
    exact ⟨skipValue_shortens (hlist true) (hobject true), skipList_shortens hvalue hlist,
      skipObject_shortens hvalue hobject⟩

end

/-! ## The library -/

/-- Enter the object that comes next. -/
def readOpen (text : List Char) : Option (List Char) :=
  match skipBlanks text with
  | [] => none
  | c :: rest => if c = objectOpen then some rest else none

/-- Put in the value of a field, if it has come. -/
def override (given : Setting → Option Nat) (s : Settings) (f : Setting) : Settings :=
  match given f with
  | some v => s.set f v
  | none => s

/-- The library that works on characters. -/
def plainJson : JsonLibrary where
  enter := readOpen
  nextKey := readEntry
  number := readNumber
  skip text := skipValue (skipBound text) text
  ended text := (skipBlanks text).isEmpty
  keep given f v := if (given f).isSome then none else some (note given f v)
  complete given := Setting.all.foldl (override given) {}
  openObject capacity := fit capacity (String.singleton objectOpen)
  writeEntry capacity first key v written :=
    fit capacity (written ++ String.ofList (entryLead first ++ entryText key.toList v))
  closeObject capacity written := fit capacity (written ++ String.singleton objectClose)
  nextKey_lt := length_readEntry
  number_le := length_readNumber
  skip_le h := (skips_shorten _).1 _ _ h

/-- Write settings into `capacity` bytes. -/
def write (s : Settings) (capacity : Nat) : Except SettingsFault String :=
  s.toJson plainJson capacity

/-- Read settings from a text. -/
def parse (text : String) : Except SettingsFault Settings := fromJson plainJson text

end MqttClient.Settings
