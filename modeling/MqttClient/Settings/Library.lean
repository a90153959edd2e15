import MqttClient.Settings

/-!
# Settings through a JSON library

Settings are written as one compact object, all fields in order, and read from an object that may
list them in any order: a field that is absent keeps its default, and unknown fields are skipped.
Reading and writing JSON, and the code that collects the fields of a record, belong to a library
that is a parameter here. `JsonLibrary` has the operations that settings take from it, and
`JsonLibrary.Lawful` what it promises of each of them.
-/
namespace MqttClient

namespace Settings

/-! ## Compact objects -/

/-- The bracket that opens an object. -/
def objectOpen : Char := '\x7b'

/-- The bracket that closes an object. -/
def objectClose : Char := '\x7d'

/-- What stands before an entry. -/
def entryLead (first : Bool) : List Char := if first then [] else [',']

/-- A key, and the colon behind it. -/
def keyText (key : List Char) : List Char := '"' :: key ++ ['"', ':']

/-- An entry of an object. -/
def entryText (key : List Char) (value : Nat) : List Char := keyText key ++ Nat.toDigits 10 value

/-- Entries with commas between them. -/
def entriesText (first : Bool) : List (Setting × Nat) → List Char
  | [] => []
  | (f, v) :: rest => entryLead first ++ entryText f.name.toList v ++ entriesText false rest

/-- The compact object with some entries. -/
def compactObject (entries : List (Setting × Nat)) : String :=
  String.ofList (objectOpen :: entriesText true entries ++ [objectClose])

/-- The entries of all settings, in the order in which they are written. -/
def entries (s : Settings) : List (Setting × Nat) := Setting.all.map fun f => (f, s.get f)

/-- The compact object that lists all settings. -/
def compact (s : Settings) : String := compactObject s.entries

/-- Behind these characters no number goes on. -/
def EndsNumber (rest : List Char) : Prop := ∀ c ∈ rest.head?, c.isDigit = false

/-- These characters stand in a string as they are. -/
def IsPlain (text : List Char) : Prop := ∀ c ∈ text, c ≠ '"' ∧ c ≠ '\\'

theorem isPlain_name (f : Setting) : IsPlain f.name.toList := by
  have hall : f.name.toList.all (fun c => c != '"' && c != '\\') = true := by
    cases f <;> decide
  simpa [IsPlain] using hall

/-- Note the value of a field among those that have come. -/
def note (given : Setting → Option Nat) (f : Setting) (v : Nat) : Setting → Option Nat :=
  fun g => if g = f then some v else given g

/-- A text in a buffer with room for `capacity` bytes. -/
def fit (capacity : Nat) (text : String) : Option String :=
  if text.utf8ByteSize ≤ capacity then some text else none

end Settings

/-- What settings take from a JSON library. The place of its reader is the text that is left, and
that of its writer the text that is in the buffer. -/
structure JsonLibrary where
  /-- Enter the object that comes next. -/
  enter : List Char → Option (List Char)
  /-- Take the next key of an object and the colon behind it, or the bracket that closes it. The
  flag says whether no key has come yet. -/
  nextKey : Bool → List Char → Option (Option (List Char) × List Char)
  /-- Take an unsigned number that is at most so large. -/
  number : Nat → List Char → Option (Nat × List Char)
  /-- Pass over a value of any kind. -/
  skip : List Char → Option (List Char)
  /-- Whether nothing more comes. -/
  ended : List Char → Bool
  /-- Keep the value of a field with those that have come before. -/
  keep : (Setting → Option Nat) → Setting → Nat → Option (Setting → Option Nat)
  /-- The record made of the fields that have come. -/
  complete : (Setting → Option Nat) → Settings
  /-- Begin an object in a buffer of some capacity. -/
  openObject : Nat → Option String
  /-- Add an entry to the object in the buffer. The flag says whether it is the first one. -/
  writeEntry : Nat → Bool → String → Nat → String → Option String
  /-- End the object in the buffer. -/
  closeObject : Nat → String → Option String
  /-- A key takes up some of the text. -/
  nextKey_lt : ∀ {first text key rest}, nextKey first text = some (key, rest) →
    rest.length < text.length
  number_le : ∀ {max text v rest}, number max text = some (v, rest) → rest.length ≤ text.length
  skip_le : ∀ {text rest}, skip text = some rest → rest.length ≤ text.length

/-- What a JSON library promises: keys are taken as they stand, numbers are unsigned decimals that
are checked for overflow, a field comes once at most, and one that has not come has its default.
What is written is compact, and it is written just when there is room for it. -/
structure JsonLibrary.Lawful (lib : JsonLibrary) : Prop where
  enter_open : ∀ rest, lib.enter (Settings.objectOpen :: rest) = some rest
  nextKey_plain : ∀ first key rest, Settings.IsPlain key →
    lib.nextKey first (Settings.entryLead first ++ Settings.keyText key ++ rest) =
      some (some key, rest)
  nextKey_close : ∀ first rest,
    lib.nextKey first (Settings.objectClose :: rest) = some (none, rest)
  number_digits : ∀ (f : Setting) v rest, v ≤ f.maxValue → Settings.EndsNumber rest →
    lib.number f.maxValue (Nat.toDigits 10 v ++ rest) = some (v, rest)
  number_overflow : ∀ (f : Setting) v rest, f.maxValue < v → Settings.EndsNumber rest →
    lib.number f.maxValue (Nat.toDigits 10 v ++ rest) = none
  ended_nil : lib.ended [] = true
  keep_new : ∀ given f v, given f = none → lib.keep given f v = some (Settings.note given f v)
  keep_again : ∀ given f v, given f ≠ none → lib.keep given f v = none
  complete_get : ∀ given f, (∀ g, ∀ v ∈ given g, v ≤ g.maxValue) →
    (lib.complete given).get f = (given f).getD (({} : Settings).get f)
  openObject_eq : ∀ capacity,
    lib.openObject capacity = Settings.fit capacity (String.singleton Settings.objectOpen)
  writeEntry_plain : ∀ capacity first key v written, Settings.IsPlain key.toList →
    lib.writeEntry capacity first key v written = Settings.fit capacity
      (written ++ String.ofList (Settings.entryLead first ++ Settings.entryText key.toList v))
  closeObject_eq : ∀ capacity written, lib.closeObject capacity written =
    Settings.fit capacity (written ++ String.singleton Settings.objectClose)

namespace Settings
variable (lib : JsonLibrary)

/-! ## Writing -/

/-- Write entries behind what is in the buffer. -/
def writeEntries (capacity : Nat) : Bool → List (Setting × Nat) → String → Option String
  | _, [], written => some written
  | first, (f, v) :: rest, written => do
    writeEntries capacity false rest (← lib.writeEntry capacity first f.name v written)

/-- Write settings into `capacity` bytes. -/
def toJson (s : Settings) (capacity : Nat) : Except SettingsFault String :=
  let text? := do
    let written ← lib.openObject capacity
    let written ← writeEntries lib capacity true s.entries written
    lib.closeObject capacity written
  match text? with
  | some text => .ok text
  | none => .error .noRoom

/-! ## Reading -/

/-- Read the rest of an object, with the fields that have come so far. -/
def readFields (first : Bool) (given : Setting → Option Nat) (text : List Char) :
    Option ((Setting → Option Nat) × List Char) :=
  match _hkey : lib.nextKey first text with
  | none => none
  | some (none, rest) => some (given, rest)
  | some (some key, rest) =>
    match Setting.ofName? (String.ofList key) with
    | some f =>
      match _hnumber : lib.number f.maxValue rest with
      | none => none
      | some (v, rest') =>
        match lib.keep given f v with
        | none => none
        | some given => readFields false given rest'
    | none =>
      match _hskip : lib.skip rest with
      | none => none
      | some rest' => readFields false given rest'
termination_by text.length
decreasing_by
  · exact Nat.lt_of_le_of_lt (lib.number_le _hnumber) (lib.nextKey_lt _hkey)
  · exact Nat.lt_of_le_of_lt (lib.skip_le _hskip) (lib.nextKey_lt _hkey)

/-- Read settings from a text that holds one object. -/
def fromJson (text : String) : Except SettingsFault Settings :=
  let given? := do
    let (given, rest) ← readFields lib true (fun _ => none) (← lib.enter text.toList)
    if lib.ended rest then some given else none
  match given? with
  | some given => .ok (lib.complete given)
  | none => .error .malformed

end Settings

end MqttClient
