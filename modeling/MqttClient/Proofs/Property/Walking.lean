import MqttClient.Proofs.Wire.Fields
import MqttClient.Property.Basic

/-!
# The grammar of property regions

A region is a list of properties one after another, each in its only form, with values that fit
and with no second property of a kind that may occur only once (`Property.Sound`). A walk reaches
the end of such regions and of no others, and of any other region it finds the longest sound front
(`Property.walk_decides_grammar`). A `Property.Cursor` takes the properties of a region one call
at a time; what it answers is what the walk lists, and then nothing.
-/
namespace MqttClient

namespace PropertyId

theorem ofCode?_eq_some_iff {code : UInt8} {id : PropertyId} :
    ofCode? code = some id ↔ code = id.code := by
  constructor
  · intro h
    rw [ofCode?] at h
    split at h <;> cases h <;> exact UInt8.toNat_inj.mp ‹_›
  · rintro rfl
    exact ofCode?_code id

theorem repeatable_iff {id : PropertyId} :
    id.repeatable = true ↔ id = .userProperty ∨ id = .subscriptionId := by
  cases id <;> simp [repeatable]

end PropertyId

namespace Shape

/-- A value that fits is read off its bytes, and nothing else is. -/
theorem read_eq_ok {s : Shape} {v : s.Value} {b left : Bytes} :
    s.read b = .ok (v, left) ↔ s.fits v = true ∧ b = s.bytes v ++ left := by
  cases s with
  | byte => simpa [read, fits, bytes] using Reader.byte_eq_ok
  | word => simpa [read, fits, bytes] using Reader.word_eq_ok
  | long => simpa [read, fits, bytes] using Reader.long_eq_ok
  | text => simpa [read, fits, bytes] using Reader.text_eq_ok
  | binary => simpa [read, fits, bytes] using Reader.framed_eq_ok
  | positive =>
    simp only [read, fits, bytes, Reader.bind_eq_ok, Reader.varint_eq_ok, Bool.and_eq_true,
      decide_eq_true_eq]
    constructor
    · rintro ⟨n, left', ⟨hmax, rfl⟩, h⟩
      split at h
      · cases h
      · cases h
        exact ⟨⟨Nat.pos_of_ne_zero ‹_›, hmax⟩, rfl⟩
    · rintro ⟨⟨hpos, hmax⟩, rfl⟩
      exact ⟨v, left, ⟨hmax, rfl⟩, by rw [if_neg hpos.ne']; rfl⟩
  | pair =>
    obtain ⟨key, value⟩ := v
    simp only [read, fits, bytes, Reader.bind_eq_ok, Reader.text_eq_ok, Reader.pure_eq_ok,
      Bool.and_eq_true, decide_eq_true_eq]
    grind

theorem read_strict (s : Shape) : Reader.Strict s.read := by
  cases s with
  | byte => exact .byte
  | word => exact .word
  | long => exact .long
  | positive => exact Reader.Strict.varint.bind fun _ => .ite .refuse (.pure _)
  | text => exact .text
  | binary => exact .framed
  | pair => exact Reader.Strict.text.bind fun _ => Reader.Strict.text.bind fun _ => .pure _

end Shape

namespace Property
variable {seen : List PropertyId} {p : Property} {ps : List Property} {b left region : Bytes}

/-! ## One property -/

/-- The value of a property can be written. -/
def Fits (p : Property) : Prop := p.id.shape.fits p.value = true

theorem length_bytes_pos (p : Property) : 0 < p.bytes.length := Nat.succ_pos _

/-- A property is read off its form, unless its identifier has been seen and must not recur. -/
theorem read_eq_ok :
    read seen b = .ok (p, left) ↔
      (p.id ∈ seen → p.id.repeatable = true) ∧ p.Fits ∧ b = p.bytes ++ left := by
  obtain ⟨id, value⟩ := p
  simp only [read, Reader.bind_eq_ok, Reader.byte_eq_ok, bytes, Fits]
  constructor
  · rintro ⟨code, left', rfl, h⟩
    cases hcode : PropertyId.ofCode? code with
    | none =>
      rw [hcode] at h
      cases h
    | some id' =>
      obtain rfl := PropertyId.ofCode?_eq_some_iff.mp hcode
      rw [hcode] at h
      dsimp only at h
      split at h
      · cases h
      · rename_i hrepeat
        obtain ⟨value', left'', hread, h⟩ := Reader.bind_eq_ok.mp h
        cases h
        obtain ⟨hfits, rfl⟩ := Shape.read_eq_ok.mp hread
        exact ⟨by simpa using hrepeat, hfits, rfl⟩
  · rintro ⟨hrepeat, hfits, rfl⟩
    refine ⟨_, _, rfl, ?_⟩
    rw [PropertyId.ofCode?_code]
    dsimp only
    rw [if_neg (by simpa using hrepeat)]
    exact Reader.bind_eq_ok.mpr ⟨_, _, Shape.read_eq_ok.mpr ⟨hfits, rfl⟩, rfl⟩

theorem read_strict (seen : List PropertyId) : Reader.Strict (read seen) := by
  refine Reader.Strict.byte.bind fun code => ?_
  cases PropertyId.ofCode? code with
  | none => exact .refuse
  | some id => exact .ite .refuse ((Shape.read_strict _).bind fun _ => .pure _)

/-! ## Lists of properties -/

/-- Properties that one packet may carry. -/
structure Sound (ps : List Property) : Prop where
  fits : ∀ p ∈ ps, p.Fits
  once : ps.Pairwise fun p q => p.id = q.id → p.id = .userProperty ∨ p.id = .subscriptionId

/-- Properties that may follow others of which the identifiers have been seen. -/
def SoundAfter (seen : List PropertyId) (ps : List Property) : Prop :=
  Sound ps ∧ ∀ p ∈ ps, p.id ∈ seen → p.id.repeatable = true

theorem soundAfter_nil : SoundAfter seen [] := by
  refine ⟨⟨?_, .nil⟩, ?_⟩ <;> nofun

theorem soundAfter_start : SoundAfter [] ps ↔ Sound ps := by
  simp [SoundAfter]

theorem soundAfter_cons :
    SoundAfter seen (p :: ps) ↔
      (p.id ∈ seen → p.id.repeatable = true) ∧ p.Fits ∧ SoundAfter (seen.insert p.id) ps := by
  have hsound : ∀ qs : List Property, Sound qs ↔ (∀ q ∈ qs, q.Fits) ∧
      qs.Pairwise fun q r => q.id = r.id → q.id.repeatable = true := by
    simp only [PropertyId.repeatable_iff]
    exact fun qs => ⟨fun h => ⟨h.fits, h.once⟩, fun h => ⟨h.1, h.2⟩⟩
  simp only [SoundAfter, hsound, List.forall_mem_cons, List.pairwise_cons, List.mem_insert_iff]
  grind

/-! ## Walks -/

theorem walkFrom_eq {n : ℕ} (hne : b ≠ []) :
    walkFrom (n + 1) seen b =
      match read seen b with
      | .error fault => ⟨[], some fault⟩
      | .ok (p, rest) =>
        ⟨p :: (walkFrom n (seen.insert p.id) rest).properties,
          (walkFrom n (seen.insert p.id) rest).fault⟩ := by
  cases b with
  | nil => exact absurd rfl hne
  | cons a b => rfl

/-- A sound region is walked to its end. -/
theorem walkFrom_flatMap {n : ℕ} (hsound : SoundAfter seen ps)
    (hn : (ps.flatMap bytes).length ≤ n) : walkFrom n seen (ps.flatMap bytes) = ⟨ps, none⟩ := by
  induction ps generalizing n seen with
  | nil => cases n <;> rfl
  | cons p ps ih =>
    obtain ⟨hrepeat, hfits, hrest⟩ := soundAfter_cons.mp hsound
    have hread := read_eq_ok.mpr ⟨hrepeat, hfits, (rfl : p.bytes ++ ps.flatMap bytes = _)⟩
    have hpos := p.length_bytes_pos
    rw [List.flatMap_cons] at hn ⊢
    rw [List.length_append] at hn
    obtain ⟨n, rfl⟩ : ∃ m, n = m + 1 := ⟨n - 1, by omega⟩
    rw [walkFrom_eq (by simp [bytes]), hread]
    dsimp only
    rw [ih hrest (by omega)]

/-- What a walk finds is a sound front of the region. If bytes are left, no property can be read
off them. -/
theorem walkFrom_inv {n : ℕ} (seen : List PropertyId) (hn : b.length ≤ n) :
    SoundAfter seen (walkFrom n seen b).properties ∧
      ∃ rest, b = (walkFrom n seen b).properties.flatMap bytes ++ rest ∧
        ((walkFrom n seen b).fault = none ∧ rest = [] ∨
          (walkFrom n seen b).fault = some .badResponse ∧ rest ≠ [] ∧
            ∀ p, SoundAfter seen ((walkFrom n seen b).properties ++ [p]) → ¬p.bytes <+: rest) := by
  induction n generalizing seen b with
  | zero =>
    obtain rfl := List.length_eq_zero_iff.mp (Nat.le_zero.mp hn)
    exact ⟨soundAfter_nil, [], rfl, .inl ⟨rfl, rfl⟩⟩
  | succ n ih =>
    by_cases hne : b = []
    · subst hne
      exact ⟨soundAfter_nil, [], rfl, .inl ⟨rfl, rfl⟩⟩
    rw [walkFrom_eq hne]
    cases hread : read seen b with
    | error fault =>
      obtain rfl := read_strict seen b _ hread
      refine ⟨soundAfter_nil, b, rfl, .inr ⟨rfl, hne, ?_⟩⟩
      rintro p hsound ⟨left, rfl⟩
      obtain ⟨hrepeat, hfits, -⟩ := soundAfter_cons.mp hsound
      rw [read_eq_ok.mpr ⟨hrepeat, hfits, rfl⟩] at hread
      cases hread
    | ok read =>
      obtain ⟨p, left⟩ := read
      obtain ⟨hrepeat, hfits, rfl⟩ := read_eq_ok.mp hread
      have hpos := p.length_bytes_pos
      rw [List.length_append] at hn
      obtain ⟨hsound, rest, hleft, hend⟩ := ih (b := left) (seen.insert p.id) (by omega)
      refine ⟨soundAfter_cons.mpr ⟨hrepeat, hfits, hsound⟩, rest, ?_, hend.imp_right ?_⟩
      · rw [List.flatMap_cons, List.append_assoc, ← hleft]
      · rintro ⟨hfault, hrest, hmore⟩
        exact ⟨hfault, hrest, fun q hq => hmore q (soundAfter_cons.mp hq).2.2⟩

theorem walk_flatMap (h : Sound ps) : walk (ps.flatMap bytes) = ⟨ps, none⟩ :=
  walkFrom_flatMap (soundAfter_start.mpr h) le_rfl

end Property

/-! ## One property a call -/

/-- What a walk lists: its properties, and then its fault if it has one. -/
def Walk.items (w : Walk) : List (Except Fault Property) :=
  w.properties.map .ok ++ w.fault.toList.map .error

namespace Property

/-- A walk that takes one property a call. -/
structure Cursor where
  /-- The bytes that are left of the region. -/
  rest : Bytes
  /-- The identifiers met so far. -/
  seen : List PropertyId
  /-- Whether a call has met a fault. -/
  failed : Bool

namespace Cursor

/-- A cursor in front of a region. -/
def start (region : Bytes) : Cursor := ⟨region, [], false⟩

/-- One call: the next property or a fault, and nothing after a fault or at the end. -/
def next (c : Cursor) : Option (Except Fault Property) × Cursor :=
  if c.failed || c.rest.isEmpty then (none, c)
  else
    match read c.seen c.rest with
    | .error fault => (some (.error fault), { c with failed := true })
    | .ok (p, rest) => (some (.ok p), ⟨rest, c.seen.insert p.id, false⟩)

/-- The answer of the last of `k + 1` calls. -/
def answer : ℕ → Cursor → Option (Except Fault Property)
  | 0, c => c.next.1
  | k + 1, c => answer k c.next.2

theorem answer_of_done {c : Cursor} (h : (c.failed || c.rest.isEmpty) = true) (k : ℕ) :
    c.answer k = none := by
  have hnext : c.next = (none, c) := if_pos h
  induction k with
  | zero => rw [answer, hnext]
  | succ k ih => rw [answer, hnext, ih]

/-- A cursor answers what the walk from its place lists. -/
theorem answer_eq {n : ℕ} {seen : List PropertyId} {b : Bytes} (hn : b.length ≤ n) (k : ℕ) :
    (⟨b, seen, false⟩ : Cursor).answer k = (walkFrom n seen b).items[k]? := by
  induction n generalizing seen b k with
  | zero =>
    obtain rfl := List.length_eq_zero_iff.mp (Nat.le_zero.mp hn)
    exact answer_of_done rfl k
  | succ n ih =>
    by_cases hne : b = []
    · subst hne
      exact answer_of_done rfl k
    have hmore : ¬(⟨b, seen, false⟩ : Cursor).rest.isEmpty = true := by simpa using hne
    rw [walkFrom_eq hne]
    cases hread : read seen b with
    | error fault =>
      have hnext : next ⟨b, seen, false⟩ = (some (.error fault), ⟨b, seen, true⟩) := by
        rw [next, if_neg (by simpa using hmore), hread]
      cases k with
      | zero => rw [answer, hnext]; rfl
      | succ k =>
        rw [answer, hnext, answer_of_done rfl k]
        rfl
    | ok read =>
      obtain ⟨p, left⟩ := read
      obtain ⟨-, -, rfl⟩ := read_eq_ok.mp hread
      have hpos := p.length_bytes_pos
      rw [List.length_append] at hn
      have hnext : next ⟨p.bytes ++ left, seen, false⟩ =
          (some (.ok p), ⟨left, seen.insert p.id, false⟩) := by
        rw [next, if_neg (by simpa using hmore), hread]
      cases k with
      | zero => rw [answer, hnext]; rfl
      | succ k =>
        rw [answer, hnext, ih (by omega)]
        rfl

theorem answer_start (region : Bytes) (k : ℕ) :
    (start region).answer k = (walk region).items[k]? :=
  answer_eq le_rfl k

end Cursor

/-- **The grammar of regions.** A walk meets no fault exactly in the regions that are a sound list
of properties one after another, and it finds that list. In every other region it finds the
longest sound front and then meets one fault, `badResponse`. A cursor answers the properties of
the walk one call at a time, then its fault if it has one, and from then on nothing. -/
theorem walk_decides_grammar (region : Bytes) :
    ((walk region).fault = none ↔ ∃ ps, Sound ps ∧ ps.flatMap bytes = region) ∧
      (∀ ps, Sound ps → ps.flatMap bytes = region → walk region = ⟨ps, none⟩) ∧
      ((walk region).fault ≠ none →
        (walk region).fault = some .badResponse ∧ Sound (walk region).properties ∧
          ∃ rest, (walk region).properties.flatMap bytes ++ rest = region ∧
            ∀ p, Sound ((walk region).properties ++ [p]) → ¬p.bytes <+: rest) ∧
      ∀ k, (Cursor.start region).answer k =
        ((walk region).properties.map Except.ok ++
          (walk region).fault.toList.map Except.error)[k]? := by
  obtain ⟨hsound, rest, hregion, hend⟩ :=
    walkFrom_inv [] (le_refl region.length)
  change SoundAfter [] (walk region).properties at hsound
  change region = (walk region).properties.flatMap bytes ++ rest at hregion
  change (walk region).fault = none ∧ rest = [] ∨ (walk region).fault = some .badResponse ∧
    rest ≠ [] ∧ ∀ p, SoundAfter [] ((walk region).properties ++ [p]) → ¬p.bytes <+: rest at hend
  simp only [soundAfter_start] at hsound hend
  have hfound : ∀ ps, Sound ps → ps.flatMap bytes = region → walk region = ⟨ps, none⟩ := by
    rintro ps hps rfl
    exact walk_flatMap hps
  refine ⟨⟨fun hfault => ?_, ?_⟩, hfound, fun hfault => ?_, Cursor.answer_start region⟩
  · rcases hend with ⟨-, rfl⟩ | ⟨hfault', -⟩
    · exact ⟨_, hsound, by rw [List.append_nil] at hregion; exact hregion.symm⟩
    · rw [hfault] at hfault'
      cases hfault'
  · rintro ⟨ps, hps, hregion⟩
    rw [hfound ps hps hregion]
  · rcases hend with ⟨hnone, -⟩ | ⟨hfault', -, hmore⟩
    · exact absurd hnone hfault
    · exact ⟨hfault', hsound, rest, hregion.symm, hmore⟩

/-- A region that ends inside its second property is no list of properties. The walk answers the
first one, a fault, and then nothing. -/
theorem walk_truncated :
    let region : Bytes := [0x21, 0, 10, 0x11, 0, 0, 0]
    (walk region).fault ≠ none ∧ (¬∃ ps, Sound ps ∧ ps.flatMap bytes = region) ∧
      (Cursor.start region).answer 0 = some (.ok ⟨.receiveMax, 10⟩) ∧
      (Cursor.start region).answer 1 = some (.error .badResponse) ∧
      (Cursor.start region).answer 2 = none := by
  intro region
  have hwalk : walk region = ⟨[⟨.receiveMax, 10⟩], some .badResponse⟩ := by decide +kernel
  obtain ⟨hgrammar, -, -, hanswer⟩ := walk_decides_grammar region
  rw [hwalk] at hgrammar hanswer
  rw [hwalk]
  refine ⟨by simp, fun hsound => ?_, hanswer 0, hanswer 1, hanswer 2⟩
  cases hgrammar.mpr hsound

end Property

end MqttClient
