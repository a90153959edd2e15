import Mathlib.Data.Nat.Notation
import MqttClient.Topic

/-!
# The grammar of topic filters

A filter is checked level by level: each wildcard must fill its level, and `#` must be the last
one. The grammar of filters speaks of characters instead (`Topic.WellPlaced`): of what stands
before a wildcard and behind it. The two accept the same texts (`Topic.isValidFilter_iff`).
-/
namespace MqttClient.Topic

/-- Behind these characters a level begins. -/
def BeginsLevel (front : List Char) : Prop := front = [] ∨ front.getLast? = some '/'

/-- Before these characters a level ends. -/
def EndsLevel (back : List Char) : Prop := back = [] ∨ back.head? = some '/'

/-- Wherever a character stands in a text it begins a level, and what follows it is as it has to
be. -/
def Placed (c : Char) (follows : List Char → Prop) (text : List Char) : Prop :=
  ∀ front back, text = front ++ c :: back → BeginsLevel front ∧ follows back

/-- Each `#` begins a level and is the last character, and each `+` begins a level and ends it. -/
structure WellPlaced (text : List Char) : Prop where
  multi : Placed '#' (· = []) text
  single : Placed '+' EndsLevel text

/-! ## One character -/

section Placed
variable {c : Char} {follows : List Char → Prop} {level tail text : List Char}

theorem beginsLevel_of_notMem (h : '/' ∉ level) : BeginsLevel level ↔ level = [] := by
  constructor
  · rintro (rfl | hlast)
    · rfl
    · exact absurd (List.mem_of_getLast? hlast) h
  · exact Or.inl

theorem beginsLevel_behind (level front : List Char) :
    BeginsLevel (level ++ '/' :: front) ↔ BeginsLevel front := by
  cases front <;> simp [BeginsLevel, List.getLast?_append]

theorem endsLevel_append (h : '/' ∉ level) (htail : EndsLevel tail) :
    EndsLevel (level ++ tail) ↔ level = [] := by
  cases level with
  | nil => simpa using htail
  | cons c level =>
    have hc : c ≠ '/' := fun hc => h (hc ▸ List.mem_cons_self ..)
    simp [EndsLevel, hc]

/-- In one level a character can only stand alone. -/
theorem placed_within (hlevel : '/' ∉ level) (htail : EndsLevel tail)
    (hends : ∀ back, follows back → EndsLevel back) :
    (∀ front back, level = front ++ c :: back → BeginsLevel front ∧ follows (back ++ tail)) ↔
      (c ∈ level → level = [c] ∧ follows tail) := by
  constructor
  · intro h hc
    obtain ⟨front, back, rfl⟩ := List.append_of_mem hc
    obtain ⟨hfront, hback⟩ := h front back rfl
    simp only [List.mem_append, List.mem_cons, not_or] at hlevel
    obtain rfl := (beginsLevel_of_notMem hlevel.1).mp hfront
    obtain rfl := (endsLevel_append hlevel.2.2 htail).mp (hends _ hback)
    exact ⟨rfl, hback⟩
  · rintro h front back rfl
    obtain ⟨halone, hfollows⟩ := h (List.mem_append_right _ (List.mem_cons_self ..))
    have hlength := congrArg List.length halone
    simp only [List.length_append, List.length_cons, List.length_nil] at hlength
    obtain rfl : front = [] := List.eq_nil_of_length_eq_zero (by omega)
    obtain rfl : back = [] := List.eq_nil_of_length_eq_zero (by omega)
    exact ⟨.inl rfl, hfollows⟩

theorem placed_level (hlevel : '/' ∉ level) (hends : ∀ back, follows back → EndsLevel back) :
    Placed c follows level ↔ (c ∈ level → level = [c] ∧ follows []) := by
  rw [← placed_within hlevel (.inl rfl) hends]
  simp [Placed]

/-- A character is placed in a first level and the text behind it if it is placed in either. -/
theorem placed_append (hlevel : '/' ∉ level) (hc : c ≠ '/')
    (hends : ∀ back, follows back → EndsLevel back) :
    Placed c follows (level ++ '/' :: text) ↔
      (c ∈ level → level = [c] ∧ follows ('/' :: text)) ∧ Placed c follows text := by
  rw [← placed_within hlevel (.inr rfl) hends]
  constructor
  · intro h
    constructor
    · intro front back hlevel
      apply h
      simp [hlevel]
    · intro front back htext
      rw [← beginsLevel_behind level]
      apply h
      simp [htext]
  · rintro ⟨hin, htext⟩ front back heq
    -- The place of the character is behind the `/` or in front of it, not at it.
    obtain ⟨between, rfl, hbetween⟩ | ⟨between, hsplit, hbetween⟩ :=
      List.append_eq_append_iff.mp heq
    · cases between with
      | nil => exact absurd (List.cons.inj hbetween).1.symm hc
      | cons slash between =>
        obtain ⟨rfl, rfl⟩ := List.cons.inj hbetween
        rw [beginsLevel_behind]
        exact htext _ _ rfl
    · cases between with
      | nil => exact absurd (List.cons.inj hbetween).1 hc
      | cons first between =>
        obtain ⟨rfl, rfl⟩ := List.cons.inj hbetween
        exact hin _ _ hsplit

end Placed

/-! ## Levels -/

section Levels
variable {level : Level} {levels : List Level} {text : List Char}

theorem wild_eq_false_iff : wild level = false ↔ '+' ∉ level ∧ '#' ∉ level := by
  simp only [wild, isWildcard, List.any_eq_false, Bool.or_eq_true, beq_iff_eq, not_or]
  constructor
  · intro h
    exact ⟨fun hmem => (h _ hmem).1 rfl, fun hmem => (h _ hmem).2 rfl⟩
  · rintro ⟨hplus, hhash⟩ c hc
    exact ⟨fun heq => hplus (heq ▸ hc), fun heq => hhash (heq ▸ hc)⟩

theorem wellPlaced_iff : WellPlaced text ↔ Placed '#' (· = []) text ∧ Placed '+' EndsLevel text :=
  ⟨fun h => ⟨h.multi, h.single⟩, fun h => ⟨h.1, h.2⟩⟩

theorem wellPlaced_level (hlevel : '/' ∉ level) :
    WellPlaced level ↔ level = multi ∨ level = single ∨ wild level = false := by
  rw [wellPlaced_iff, placed_level hlevel fun _ => Or.inl, placed_level hlevel fun _ => id,
    wild_eq_false_iff]
  grind [single, multi, EndsLevel]

theorem wellPlaced_append (hlevel : '/' ∉ level) :
    WellPlaced (level ++ '/' :: text) ↔
      (level = single ∨ wild level = false) ∧ WellPlaced text := by
  rw [wellPlaced_iff, wellPlaced_iff, placed_append hlevel (by decide) fun _ => Or.inl,
    placed_append hlevel (by decide) fun _ => id, wild_eq_false_iff]
  grind [single, EndsLevel]

theorem multi_ne_single : multi ≠ single := by decide

theorem wild_multi : wild multi = true := rfl

theorem validLevels_cons (hmulti : level ≠ multi) :
    validLevels (level :: levels) = true ↔
      (level = single ∨ wild level = false) ∧ validLevels levels = true := by
  simp [validLevels, hmulti]

/-- Levels are valid if the wildcards are well placed in the text that they make. -/
theorem validLevels_iff (hne : levels ≠ []) (hlevels : ∀ level ∈ levels, '/' ∉ level) :
    validLevels levels = true ↔ WellPlaced (['/'].intercalate levels) := by
  induction levels with
  | nil => exact absurd rfl hne
  | cons level rest ih =>
    rw [List.forall_mem_cons] at hlevels
    cases rest with
    | nil =>
      rw [List.intercalate_singleton, wellPlaced_level hlevels.1]
      simp [validLevels]
    | cons next rest =>
      rw [List.intercalate_cons_cons, List.append_assoc, List.singleton_append,
        wellPlaced_append hlevels.1, ← ih (List.cons_ne_nil _ _) hlevels.2]
      by_cases hmulti : level = multi
      · -- A `#` in front of other levels is refused on either side.
        subst hmulti
        simp [validLevels, multi_ne_single, wild_multi]
      · rw [validLevels_cons hmulti]

theorem notMem_of_mem_splitOn (hlevel : level ∈ text.splitOn '/') : '/' ∉ level := by
  induction text generalizing level with
  | nil =>
    rw [List.splitOn_nil, List.mem_singleton] at hlevel
    simp [hlevel]
  | cons c text ih =>
    obtain ⟨first, rest, hsplit⟩ := List.exists_cons_of_ne_nil (List.splitOn_ne_nil '/' text)
    rw [List.splitOn_cons_eq_if_modifyHead] at hlevel
    rw [hsplit] at ih hlevel
    by_cases hc : c = '/'
    · rw [if_pos (beq_iff_eq.mpr hc)] at hlevel
      rcases List.mem_cons.mp hlevel with rfl | hlevel
      · exact List.not_mem_nil
      · exact ih hlevel
    · rw [if_neg (mt beq_iff_eq.mp hc)] at hlevel
      rcases List.mem_cons.mp hlevel with rfl | hlevel
      · have hfirst := ih (List.mem_cons_self ..)
        simp [hfirst, Ne.symm hc]
      · exact ih (List.mem_cons_of_mem _ hlevel)

end Levels

/-- The filters are the texts that are not empty and in which each `#` is the last character and
the first one or behind a `/`, and each `+` is the first character or behind a `/`, and the last
one or before a `/`. -/
theorem isValidFilter_iff (filter : String) :
    isValidFilter filter = true ↔ filter ≠ "" ∧ WellPlaced filter.toList := by
  have hlevels := validLevels_iff (List.splitOn_ne_nil '/' filter.toList)
    fun _ => notMem_of_mem_splitOn
  rw [List.intercalate_splitOn] at hlevels
  rw [isValidFilter, Bool.and_eq_true, levels, hlevels]
  simp

end MqttClient.Topic
