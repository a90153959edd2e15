import Mathlib.Data.Nat.Notation
import MqttClient.Proofs.PlainJson

/-!
# Settings read back

With any JSON library that keeps its promises (`JsonLibrary.Lawful`), settings that were written are
read back, and so is an object that lists only some of them, in any order: those that are missing
have their default (`Settings.fromJson_toJson`). Objects are written and read entry by entry
(`Settings.writeEntries_eq`, `Settings.readFields_entries`).
-/
namespace MqttClient.Settings
variable {lib : JsonLibrary} {f g : Setting} {v : ℕ}

/-! ## Writing -/

section Writing
variable {capacity : ℕ}

/-- Where there is no room for the front of a text, there is none for the whole. -/
theorem fit_bind (capacity : ℕ) (front text : String) :
    (fit capacity front).bind (fun written => fit capacity (written ++ text)) =
      fit capacity (front ++ text) := by
  by_cases hfront : front.utf8ByteSize ≤ capacity
  · rw [fit, if_pos hfront, Option.bind_some]
  · have hwhole : ¬(front ++ text).utf8ByteSize ≤ capacity := by
      rw [String.utf8ByteSize_append]
      omega
    rw [fit, if_neg hfront, fit, if_neg hwhole, Option.bind_none]

theorem writeEntries_eq (hlib : lib.Lawful) (first : Bool) (entries : List (Setting × ℕ))
    (front : String) : (fit capacity front).bind (writeEntries lib capacity first entries) =
      fit capacity (front ++ String.ofList (entriesText first entries)) := by
  induction entries generalizing first front with
  | nil =>
    have hdone : writeEntries lib capacity first [] = some := rfl
    rw [hdone, Option.bind_fun_some, entriesText, String.ofList_nil, String.append_empty]
  | cons e entries ih =>
    obtain ⟨f, v⟩ := e
    have hentry : writeEntries lib capacity first ((f, v) :: entries) = fun written =>
        (fit capacity (written ++ String.ofList (entryLead first ++ entryText f.name.toList v))).bind
          (writeEntries lib capacity false entries) := by
      funext written
      rw [← hlib.writeEntry_plain capacity first f.name v written (isPlain_name f)]
      rfl
    rw [hentry, ← Option.bind_assoc, fit_bind, ih, String.append_assoc, ← String.ofList_append,
      entriesText]

/-- Settings are written just when there is room for the compact object. -/
theorem toJson_eq (hlib : lib.Lawful) (s : Settings) (capacity : ℕ) : s.toJson lib capacity =
    if s.compact.utf8ByteSize ≤ capacity then .ok s.compact else .error .noRoom := by
  have hclose : lib.closeObject capacity = fun written =>
      fit capacity (written ++ String.singleton objectClose) :=
    funext (hlib.closeObject_eq capacity)
  have htext : String.singleton objectOpen ++ String.ofList (entriesText true s.entries) ++
      String.singleton objectClose = s.compact := by
    simp only [String.singleton_eq_ofList, ← String.ofList_append]
    rfl
  have hwritten : ((lib.openObject capacity).bind fun written =>
      (writeEntries lib capacity true s.entries written).bind (lib.closeObject capacity)) =
        fit capacity s.compact := by
    rw [hlib.openObject_eq, ← Option.bind_assoc, writeEntries_eq hlib, hclose, fit_bind, htext]
  rw [toJson]
  simp only [Option.bind_eq_bind]
  rw [hwritten, fit]
  by_cases hroom : s.compact.utf8ByteSize ≤ capacity
  · rw [if_pos hroom, if_pos hroom]
  · rw [if_neg hroom, if_neg hroom]

end Writing

/-! ## Reading -/

section Reading
variable {given : Setting → Option ℕ} {first : Bool} {key text rest : List Char}
  {entries : List (Setting × ℕ)}

/-- Where the object closes, the fields that have come are all. -/
theorem readFields_of_close (h : lib.nextKey first text = some (none, rest)) :
    readFields lib first given text = some (given, rest) := by
  rw [readFields]
  split <;> cases h.symm.trans ‹_›
  rfl

/-- A known field takes a number. -/
theorem readFields_of_key (h : lib.nextKey first text = some (some key, rest))
    (hname : Setting.ofName? (String.ofList key) = some f) :
    readFields lib first given text = (lib.number f.maxValue rest).bind fun (v, after) =>
      (lib.keep given f v).bind fun given => readFields lib false given after := by
  rw [readFields]
  split <;> cases h.symm.trans ‹_›
  rw [hname]
  simp only
  split
  · rename_i hnumber
    rw [hnumber, Option.bind_none]
  · rename_i v after hnumber
    rw [hnumber, Option.bind_some]
    simp only
    split
    · rename_i hkeep
      rw [hkeep, Option.bind_none]
    · rename_i given' hkeep
      rw [hkeep, Option.bind_some]

/-- Entries that may come when some fields have come already: each field once, with a value in its
range. -/
structure Fresh (given : Setting → Option ℕ) (entries : List (Setting × ℕ)) : Prop where
  nodup : (entries.map Prod.fst).Nodup
  new : ∀ e ∈ entries, given e.1 = none
  inRange : ∀ e ∈ entries, e.2 ≤ e.1.maxValue

theorem note_eq_none : note given f v g = none ↔ g ≠ f ∧ given g = none := by
  rw [note]
  split <;> simp_all

theorem fresh_cons : Fresh given ((f, v) :: entries) ↔
    (given f = none ∧ v ≤ f.maxValue) ∧ Fresh (note given f v) entries := by
  constructor
  · rintro ⟨hnodup, hnew, hrange⟩
    rw [List.forall_mem_cons] at hnew hrange
    rw [List.map_cons, List.nodup_cons] at hnodup
    refine ⟨⟨hnew.1, hrange.1⟩, hnodup.2, fun e he => note_eq_none.mpr ⟨?_, hnew.2 e he⟩, hrange.2⟩
    rintro rfl
    exact hnodup.1 (List.mem_map.mpr ⟨e, he, rfl⟩)
  · rintro ⟨⟨hf, hv⟩, hnodup, hnew, hrange⟩
    refine ⟨?_, List.forall_mem_cons.mpr ⟨hf, fun e he => (note_eq_none.mp (hnew e he)).2⟩,
      List.forall_mem_cons.mpr ⟨hv, hrange⟩⟩
    rw [List.map_cons, List.nodup_cons]
    refine ⟨fun hmem => ?_, hnodup⟩
    obtain ⟨e, he, rfl⟩ := List.mem_map.mp hmem
    exact (note_eq_none.mp (hnew e he)).1 rfl

variable (hlib : lib.Lawful)
include hlib

/-- One entry is read off the front of an object. It must be the first one of its field, and its
value in range. -/
theorem readFields_entry (first : Bool) (given : Setting → Option ℕ) (f : Setting) (v : ℕ)
    (hrest : EndsNumber rest) :
    (given f = none ∧ v ≤ f.maxValue →
      readFields lib first given (entryLead first ++ entryText f.name.toList v ++ rest) =
        readFields lib false (note given f v) rest) ∧
    (¬(given f = none ∧ v ≤ f.maxValue) →
      readFields lib first given (entryLead first ++ entryText f.name.toList v ++ rest) = none) := by
  have hkey := hlib.nextKey_plain first f.name.toList (Nat.toDigits 10 v ++ rest) (isPlain_name f)
  have htext : entryLead first ++ entryText f.name.toList v ++ rest =
      entryLead first ++ keyText f.name.toList ++ (Nat.toDigits 10 v ++ rest) := by
    simp only [entryText, List.append_assoc]
  have hname : Setting.ofName? (String.ofList f.name.toList) = some f := by
    rw [String.ofList_toList, f.ofName?_name]
  rw [htext, readFields_of_key hkey hname]
  by_cases hv : v ≤ f.maxValue
  · rw [hlib.number_digits f v rest hv hrest, Option.bind_some]
    simp only
    by_cases hf : given f = none
    · rw [hlib.keep_new given f v hf, Option.bind_some]
      exact ⟨fun _ => rfl, fun hnot => absurd ⟨hf, hv⟩ hnot⟩
    · rw [hlib.keep_again given f v hf, Option.bind_none]
      exact ⟨fun hfresh => absurd hfresh.1 hf, fun _ => rfl⟩
  · rw [hlib.number_overflow f v rest (Nat.not_le.mp hv) hrest, Option.bind_none]
    exact ⟨fun hfresh => absurd hfresh.2 hv, fun _ => rfl⟩

omit hlib in
theorem endsNumber_entriesText (entries : List (Setting × ℕ)) (rest : List Char) :
    EndsNumber (entriesText false entries ++ objectClose :: rest) := by
  cases entries <;> simp [EndsNumber, entriesText, entryLead, objectClose]

omit hlib in
theorem lookup_note (h : Fresh given ((f, v) :: entries)) (g : Setting) :
    (entries.lookup g).or (note given f v g) = (((f, v) :: entries).lookup g).or (given g) := by
  rw [List.lookup_cons, note]
  by_cases hg : g = f
  · subst hg
    have hnone : entries.lookup g = none := by
      rw [List.lookup_eq_none_iff]
      intro e he
      simpa using fun heq : g = e.1 =>
        (note_eq_none.mp ((fresh_cons.mp h).2.new e he)).1 heq.symm
    simp [hnone]
  · rw [if_neg hg, beq_false_of_ne hg]

/-- The entries of an object are read one after another. -/
theorem readFields_entries (first : Bool) (given : Setting → Option ℕ)
    (entries : List (Setting × ℕ)) (rest : List Char) :
    (Fresh given entries →
      readFields lib first given (entriesText first entries ++ objectClose :: rest) =
        some (fun g => (entries.lookup g).or (given g), rest)) ∧
    (¬Fresh given entries →
      readFields lib first given (entriesText first entries ++ objectClose :: rest) = none) := by
  induction entries generalizing first given with
  | nil =>
    have hfresh : Fresh given [] := ⟨List.nodup_nil, by simp, by simp⟩
    refine ⟨fun _ => ?_, fun hnot => absurd hfresh hnot⟩
    exact readFields_of_close (hlib.nextKey_close first rest)
  | cons e entries ih =>
    obtain ⟨f, v⟩ := e
    obtain ⟨hreads, hrefuses⟩ :=
      readFields_entry hlib first given f v (endsNumber_entriesText entries rest)
    obtain ⟨hothers, hfails⟩ := ih false (note given f v)
    rw [entriesText, List.append_assoc]
    refine ⟨fun hfresh => ?_, fun hnot => ?_⟩
    · obtain ⟨hentry, hrest⟩ := fresh_cons.mp hfresh
      rw [hreads hentry, hothers hrest]
      simp only [lookup_note hfresh]
    · by_cases hentry : given f = none ∧ v ≤ f.maxValue
      · rw [hreads hentry, hfails fun hrest => hnot (fresh_cons.mpr ⟨hentry, hrest⟩)]
      · exact hrefuses hentry

end Reading

/-! ## Whole texts -/

theorem fresh_iff {entries : List (Setting × ℕ)} : Fresh (fun _ => none) entries ↔
    (entries.map Prod.fst).Nodup ∧ ∀ e ∈ entries, e.2 ≤ e.1.maxValue :=
  ⟨fun h => ⟨h.nodup, h.inRange⟩, fun ⟨hnodup, hrange⟩ => ⟨hnodup, fun _ _ => rfl, hrange⟩⟩

/-- What is read from an object with some entries. -/
theorem fromJson_compactObject (hlib : lib.Lawful) (entries : List (Setting × ℕ)) :
    (Fresh (fun _ => none) entries → fromJson lib (compactObject entries) =
      .ok (lib.complete fun f => entries.lookup f)) ∧
    (¬Fresh (fun _ => none) entries →
      fromJson lib (compactObject entries) = .error .malformed) := by
  obtain ⟨hreads, hrefuses⟩ := readFields_entries hlib true (fun _ => none) entries []
  have htext : (compactObject entries).toList =
      objectOpen :: (entriesText true entries ++ [objectClose]) := by
    rw [compactObject, String.toList_ofList, List.cons_append]
  rw [fromJson, htext, hlib.enter_open]
  refine ⟨fun hfresh => ?_, fun hnot => ?_⟩
  · simp [hreads hfresh, hlib.ended_nil]
  · simp [hrefuses hnot]

theorem get_of_lookup (hlib : lib.Lawful) {entries : List (Setting × ℕ)}
    (hrange : ∀ e ∈ entries, e.2 ≤ e.1.maxValue) (f : Setting) :
    (lib.complete fun f => entries.lookup f).get f =
      (entries.lookup f).getD (({} : Settings).get f) := by
  refine hlib.complete_get _ f fun g v hv => ?_
  obtain ⟨before, after, rfl, -⟩ := List.lookup_eq_some_iff.mp hv
  exact hrange (g, v) (by simp)

theorem lookup_entries (s : Settings) (f : Setting) : s.entries.lookup f = some (s.get f) := by
  cases f <;> rfl

theorem fresh_entries (s : Settings) : Fresh (fun _ => none) s.entries := by
  have hkeys : s.entries.map Prod.fst = Setting.all := rfl
  rw [fresh_iff, hkeys]
  refine ⟨Setting.nodup_all, fun e he => ?_⟩
  obtain ⟨f, -, rfl⟩ := List.mem_map.mp he
  exact s.get_le f

/-- **Settings read back.** Settings are written into a buffer just when it has room for the compact
object, and they are read back from it. More generally, an object that lists some settings, in any
order, is read as these settings with the defaults of the others, if each is listed once and has a
value in its range, and refused if not. -/
theorem fromJson_toJson (hlib : lib.Lawful) :
    (∀ (s : Settings) capacity text, s.toJson lib capacity = .ok text ↔
        s.compact.utf8ByteSize ≤ capacity ∧ text = s.compact) ∧
      (∀ s : Settings, fromJson lib s.compact = .ok s) ∧
      ∀ entries : List (Setting × ℕ),
        ((entries.map Prod.fst).Nodup ∧ (∀ e ∈ entries, e.2 ≤ e.1.maxValue) →
          ∃ t, fromJson lib (compactObject entries) = .ok t ∧
            ∀ f, t.get f = (entries.lookup f).getD (({} : Settings).get f)) ∧
        (¬((entries.map Prod.fst).Nodup ∧ ∀ e ∈ entries, e.2 ≤ e.1.maxValue) →
          fromJson lib (compactObject entries) = .error .malformed) := by
  refine ⟨fun s capacity text => ?_, fun s => ?_, fun entries => ?_⟩
  · rw [toJson_eq hlib]
    by_cases hroom : s.compact.utf8ByteSize ≤ capacity
    · simp [hroom, eq_comm]
    · simp [hroom]
  · have hfresh := s.fresh_entries
    have hsame : (lib.complete fun f => s.entries.lookup f) = s := eq_of_get fun f => by
      rw [get_of_lookup hlib hfresh.inRange, s.lookup_entries, Option.getD_some]
    rw [compact, (fromJson_compactObject hlib s.entries).1 hfresh, hsame]
  · obtain ⟨hreads, hrefuses⟩ := fromJson_compactObject hlib entries
    rw [fresh_iff] at hreads hrefuses
    exact ⟨fun hfresh => ⟨_, hreads hfresh, get_of_lookup hlib hfresh.2⟩, hrefuses⟩

/-- With the library at hand, the defaults fit a buffer of their exact size, and an object lists the
last setting, at its largest value, and then the first one, at zero. -/
theorem fromJson_toJson_two :
    let listed : List (Setting × ℕ) := [(.connackRetries, 65535), (.sendTimeout, 0)]
    plainJson.Lawful ∧ (listed.map Prod.fst).Nodup ∧ (∀ e ∈ listed, e.2 ≤ e.1.maxValue) ∧
      compactObject listed = "\x7b\"connack_retry_count\":65535,\"send_timeout_ms\":0\x7d" ∧
      ({} : Settings).write 165 = .ok ({} : Settings).compact ∧
      ∃ t, parse (compactObject listed) = .ok t ∧ t.get .connackRetries = 65535 ∧
        t.get .sendTimeout = 0 ∧ t.get .txIdle = 30000 := by
  intro listed
  have hnodup : (listed.map Prod.fst).Nodup := by decide
  have hrange : ∀ e ∈ listed, e.2 ≤ e.1.maxValue := by decide
  obtain ⟨hwrites, -, hreads⟩ := fromJson_toJson plainJson_lawful
  obtain ⟨t, hparse, hget⟩ := (hreads listed).1 ⟨hnodup, hrange⟩
  exact ⟨plainJson_lawful, hnodup, hrange, by decide +kernel,
    (hwrites {} 165 _).mpr ⟨by decide +kernel, rfl⟩, t, hparse, hget .connackRetries,
    hget .sendTimeout, hget .txIdle⟩

end MqttClient.Settings
