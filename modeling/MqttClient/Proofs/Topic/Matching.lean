import Mathlib.Data.List.Forall2
import MqttClient.Proofs.Topic.Grammar

/-!
# Filters and the names that they match

A filter matches a name level by level, up to a last `#` that stands for all further levels, and
it ignores names that begin with `$` if it begins with a wildcard. `Topic.covers` looks for equal
texts first and then goes through both lists of levels at once. For a valid filter it decides
matching, and the look for equal texts changes no answer (`Topic.covers_iff`).
-/
namespace MqttClient.Topic

/-- One level of a filter stands for one level of a name. -/
def Stands (filter name : Level) : Prop := filter = single ∨ filter = name

/-- The levels of a filter match the levels of a name: all of both, one by one, where the filter
has no `#`; otherwise those in front of a last `#`, one by one, with as many of the name. -/
def Matches (filters names : List Level) : Prop :=
  (multi ∉ filters ∧ List.Forall₂ Stands filters names) ∨
    ∃ front, filters = front ++ [multi] ∧ front.length ≤ names.length ∧
      List.Forall₂ Stands front (names.take front.length)

/-- A filter ignores a name that begins with `$` if its own first level is a wildcard. -/
def Ignores (filter name : String) : Prop :=
  name.toList.head? = some '$' ∧
    ((levels filter).head? = some single ∨ (levels filter).head? = some multi)

/-- What is left of covering without the look for equal texts. -/
def scan (filter name : String) : Bool :=
  !(name.toList.head? = some '$' && filter.toList.head?.any isWildcard) &&
    coversLevels (levels filter) (levels name)

/-! ## Levels -/

section Levels
variable {filter : Level} {filters names : List Level}

theorem matches_nil : Matches [] names ↔ names = [] := by
  simp [Matches]

theorem matches_multi : Matches [multi] names :=
  .inr ⟨[], rfl, Nat.zero_le _, .nil⟩

/-- A level that is not `#` takes exactly one level. -/
theorem matches_cons (hmulti : filter ≠ multi) :
    Matches (filter :: filters) names ↔
      ∃ name rest, names = name :: rest ∧ Stands filter name ∧ Matches filters rest := by
  constructor
  · rintro (⟨hnone, hall⟩ | ⟨front, hfront, hlength, hall⟩)
    · obtain ⟨name, rest, hstands, hrest, rfl⟩ := List.forall₂_cons_left_iff.mp hall
      exact ⟨name, rest, rfl, hstands, .inl ⟨fun h => hnone (List.mem_cons_of_mem _ h), hrest⟩⟩
    · cases front with
      | nil => exact absurd (List.cons.inj hfront).1 hmulti
      | cons first front =>
        obtain ⟨rfl, rfl⟩ := List.cons.inj hfront
        cases names with
        | nil => simp at hlength
        | cons name rest =>
          obtain ⟨hstands, hrest⟩ := List.forall₂_cons.mp hall
          have hlength' : front.length ≤ rest.length := Nat.le_of_succ_le_succ hlength
          exact ⟨name, rest, rfl, hstands, .inr ⟨front, rfl, hlength', hrest⟩⟩
  · rintro ⟨name, rest, rfl, hstands, ⟨hnone, hall⟩ | ⟨front, rfl, hlength, hall⟩⟩
    · refine .inl ⟨?_, .cons hstands hall⟩
      simp [hnone, Ne.symm hmulti]
    · exact .inr ⟨filter :: front, rfl, Nat.succ_le_succ hlength, .cons hstands hall⟩

theorem coversLevels_cons (hmulti : filter ≠ multi) (name : Level) :
    coversLevels (filter :: filters) (name :: names) = true ↔
      Stands filter name ∧ coversLevels filters names = true := by
  simp [coversLevels, hmulti, Stands]

/-- On valid levels the scan decides matching. -/
theorem coversLevels_iff (hvalid : validLevels filters = true) :
    coversLevels filters names = true ↔ Matches filters names := by
  induction filters generalizing names with
  | nil => simp [coversLevels, matches_nil]
  | cons filter filters ih =>
    by_cases hmulti : filter = multi
    · subst hmulti
      have hlast : filters = [] := by simpa [validLevels] using hvalid
      simp [hlast, coversLevels, matches_multi]
    · rw [matches_cons hmulti]
      rw [validLevels_cons hmulti] at hvalid
      cases names with
      | nil => simp [coversLevels, hmulti]
      | cons name names =>
        rw [coversLevels_cons hmulti, ih hvalid.2]
        simp

theorem coversLevels_self (hvalid : validLevels filters = true) :
    coversLevels filters filters = true := by
  induction filters with
  | nil => rfl
  | cons filter filters ih =>
    by_cases hmulti : filter = multi
    · simpa [coversLevels, validLevels, hmulti] using hvalid
    · rw [coversLevels_cons hmulti]
      exact ⟨.inr rfl, ih ((validLevels_cons hmulti).mp hvalid).2⟩

end Levels

/-! ## Texts -/

theorem splitOn_cons_of_ne {c : Char} (hc : c ≠ '/') (text : List Char) :
    ∃ first rest, (c :: text).splitOn '/' = (c :: first) :: rest := by
  obtain ⟨first, rest, hsplit⟩ := List.exists_cons_of_ne_nil (List.splitOn_ne_nil '/' text)
  refine ⟨first, rest, ?_⟩
  simp [List.splitOn_cons_eq_if_modifyHead, hc, hsplit]

/-- A text of valid levels begins with a wildcard if its first level is one. -/
theorem begins_isWildcard_iff {text : List Char} (hvalid : validLevels (text.splitOn '/') = true) :
    text.head?.any isWildcard = true ↔
      (text.splitOn '/').head? = some single ∨ (text.splitOn '/').head? = some multi := by
  cases text with
  | nil => simp [single, multi]
  | cons c text =>
    by_cases hc : c = '/'
    · subst hc
      simp [List.splitOn_cons_eq_if_modifyHead, isWildcard, single, multi]
    · obtain ⟨first, rest, hsplit⟩ := splitOn_cons_of_ne hc text
      rw [hsplit] at hvalid ⊢
      simp only [List.head?_cons, Option.any_some, Option.some.injEq]
      constructor
      · intro hwild
        by_cases hmulti : c :: first = multi
        · exact .inr hmulti
        · have hlevel := ((validLevels_cons hmulti).mp hvalid).1
          have hall : wild (c :: first) = true := by simp [wild, hwild]
          exact .inl (hlevel.resolve_right (by simp [hall]))
      · rintro (hlevel | hlevel) <;> rw [(List.cons.inj hlevel).1] <;> rfl

section Texts
variable {filter name : String}

theorem scan_iff (hvalid : validLevels (levels filter) = true) :
    scan filter name = true ↔ ¬Ignores filter name ∧ Matches (levels filter) (levels name) := by
  have hbegins : _ ↔ (levels filter).head? = some single ∨ (levels filter).head? = some multi :=
    begins_isWildcard_iff hvalid
  rw [scan, Bool.and_eq_true, coversLevels_iff hvalid, Ignores, ← hbegins]
  simp [imp_iff_not_or]

theorem scan_self (hvalid : validLevels (levels filter) = true) : scan filter filter = true := by
  rw [scan, coversLevels_self hvalid]
  cases filter.toList with
  | nil => rfl
  | cons c text =>
    by_cases hc : c = '$'
    · simp [hc, isWildcard]
    · simp [hc]

/-- A valid filter covers a name exactly if it does not ignore the name and its levels match the
levels of the name. The look for equal texts does not show. -/
theorem covers_iff (hname : name ≠ "") (hfilter : isValidFilter filter = true) :
    (covers filter name = true ↔
        ¬Ignores filter name ∧ Matches (levels filter) (levels name)) ∧
      covers filter name = scan filter name := by
  rw [isValidFilter, Bool.and_eq_true] at hfilter
  obtain ⟨hne, hvalid⟩ := hfilter
  have hscan : covers filter name = scan filter name := by
    rw [covers, if_neg (by simp_all)]
    -- Equal texts need the filter to be valid: `#/a` does not cover itself by the scan.
    by_cases hequal : name = filter
    · rw [if_pos hequal, hequal, scan_self hvalid]
    · rw [if_neg hequal, scan]
      split <;> simp [*]
  rw [hscan, scan_iff hvalid]
  exact ⟨Iff.rfl, rfl⟩

/-- A last `#` stands for no level as well: `+/tennis/#` covers `sport/tennis`. -/
theorem covers_parent :
    "sport/tennis" ≠ "" ∧ isValidFilter "+/tennis/#" = true ∧
      covers "+/tennis/#" "sport/tennis" = true ∧ covers "+/tennis/#" "$SYS/tennis" = false := by
  have hfilter : isValidFilter "+/tennis/#" = true := by decide +kernel
  have hlevels : levels "+/tennis/#" = [single, "tennis".toList, multi] := by decide +kernel
  refine ⟨by decide, hfilter, ?_, ?_⟩
  · rw [(covers_iff (by decide) hfilter).1]
    refine ⟨fun h => ?_, .inr ⟨[single, "tennis".toList], hlevels, ?_, ?_⟩⟩
    · exact absurd h.1 (by decide)
    · decide +kernel
    · have hnames : levels "sport/tennis" = ["sport".toList, "tennis".toList] := by decide +kernel
      rw [hnames]
      exact .cons (.inl rfl) (.cons (.inr rfl) .nil)
  · rw [Bool.eq_false_iff, Ne, (covers_iff (by decide) hfilter).1]
    exact fun h => h.1 ⟨by decide, .inl (by rw [hlevels]; rfl)⟩

end Texts

end MqttClient.Topic
