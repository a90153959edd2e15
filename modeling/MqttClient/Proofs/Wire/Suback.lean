import MqttClient.Host
import MqttClient.Packet.Suback
import MqttClient.Proofs.Wire.Answers
import MqttClient.Proofs.Wire.Connack

/-!
# The grammar of SUBACK and UNSUBACK

Which answers to a subscription are well formed (`Suback.WellFormed`) does not depend on what their
codes say, and which codes grant or deny a request (`Suback.grants`, `Suback.denials`) differs by
packet type and revision. One code that does neither spoils the whole answer, and otherwise one
that grants is enough for it to be reported as accepted. Going over the codes one by one and
stopping early comes to the same (`Suback.verdict_eq_scan`), and nothing depends on their order
(`Suback.event?_reordered`).
-/
namespace MqttClient

/-- A first byte that names a type has the high half of that type. -/
theorem PacketType.kindBits_eq {b : UInt8} {type : PacketType} (h : ofFirstByte? b = some type) :
    kindBits b = kindBits type.firstByte := by
  have hbytes : ∀ i : Fin 256, ∀ type ∈ ofFirstByte? (UInt8.ofNat i),
      kindBits (UInt8.ofNat i) = kindBits type.firstByte := by decide +kernel
  simpa using hbytes ⟨b.toNat, b.toNat_lt⟩ type (by simpa using h)

/-- Properties may be carried by an answer if they explain it. -/
theorem Ack.mayCarry_iff {id : PropertyId} :
    mayCarry id = true ↔ id = .reasonString ∨ id = .userProperty := by
  cases id <;> simp [mayCarry]

namespace Suback

/-! ## The grammar -/

/-- The bytes of an answer after its header. -/
def body (version : Version) (s : Suback) : Bytes :=
  Bytes.ofWord s.packetId ++ Property.regionField version s.properties ++ s.codes

/-- The grammar of answers. -/
structure WellFormed (type : PacketType) (version : Version) (s : Suback) : Prop where
  named : s.packetId ≠ 0
  region : Property.RegionFits version s.properties
  /-- The region is one property after another, all of which explain the answer. -/
  sound : ∃ ps, Property.Sound ps ∧ ps.flatMap Property.bytes = s.properties ∧
    ∀ p ∈ ps, p.id = .reasonString ∨ p.id = .userProperty
  /-- Only an UNSUBACK of the older revision has no codes. -/
  coded : s.codes ≠ [] ↔ type = .suback ∨ version = .v5

/-- The codes that grant a request. For a subscription they name the guarantee. -/
def grants : PacketType → List UInt8
  | .suback => [0, 1, 2]
  | _ => [Reason.success, Reason.noSubscriptionExisted]

/-- The codes that deny a request. -/
def denials : PacketType → Version → List UInt8
  | .suback, .v311 => [0x80]
  | .suback, .v5 => Reason.subscribeRefusals
  | _, _ => Reason.unsubscribeRefusals

/-- The codes of an answer. -/
def known (type : PacketType) (version : Version) : List UInt8 :=
  grants type ++ denials type version

/-- A packet is an answer of the grammar. -/
def IsIn (type : PacketType) (version : Version) (packet : Packet) (s : Suback) : Prop :=
  packet.data = s.body version ∧ s.WellFormed type version

/-- What is reported of an answer. -/
def event (s : Suback) (packet : Packet) (verdict : Verdict) : Event :=
  { packet, packetId := s.packetId, verdict, properties := s.properties }

/-- What is reported of a packet, unless it is refused. -/
def event? (version : Version) (packet : Packet) : Option Event :=
  match decode version packet with
  | .error _ => none
  | .ok s => (s.verdict (kindBits packet.firstByte) version).map (s.event packet)

section
variable {type : PacketType} {version : Version} {packet : Packet} {s : Suback}

/-! ## Codes -/

section
variable (htype : type = .suback ∨ type = .unsuback)
include htype

theorem codeVerdict_eq (version : Version) (code : UInt8) :
    codeVerdict type.firstByte version code =
      if code ∈ grants type then some .accepted
      else if code ∈ denials type version then some .refused else none := by
  have hcodes : ∀ type ∈ [PacketType.suback, .unsuback], ∀ version ∈ [Version.v311, .v5],
      ∀ i : Fin 256, codeVerdict type.firstByte version (UInt8.ofNat i) =
        if UInt8.ofNat i ∈ grants type then some .accepted
        else if UInt8.ofNat i ∈ denials type version then some .refused else none := by
    decide +kernel
  have hversion : version ∈ [Version.v311, .v5] := by cases version <;> decide
  simpa using hcodes type (by simpa using htype) version hversion ⟨code.toNat, code.toNat_lt⟩

/-- No code both grants and denies. -/
theorem not_mem_denials {code : UInt8} (h : code ∈ grants type) : code ∉ denials type version := by
  revert code
  rcases htype with rfl | rfl <;> cases version <;> decide +kernel

theorem codeVerdict_eq_accepted_iff (version : Version) {code : UInt8} :
    codeVerdict type.firstByte version code = some .accepted ↔ code ∈ grants type := by
  rw [codeVerdict_eq htype]
  split_ifs <;> simp [*]

theorem codeVerdict_eq_none_iff {code : UInt8} :
    codeVerdict type.firstByte version code = none ↔ code ∉ known type version := by
  rw [codeVerdict_eq htype, known, List.mem_append]
  split_ifs <;> simp [*]

/-! ## Verdicts -/

/-- An answer has no verdict if one of its codes is unknown. -/
theorem verdict_eq_none_iff :
    s.verdict type.firstByte version = none ↔ ∃ c ∈ s.codes, c ∉ known type version := by
  simp only [← codeVerdict_eq_none_iff htype]
  rw [verdict]
  split_ifs with hunknown <;> simpa using hunknown

/-- Among known codes one that grants is enough. -/
theorem verdict_of_known (h : ∀ c ∈ s.codes, c ∈ known type version) :
    s.verdict type.firstByte version =
      if s.codes = [] ∨ ∃ c ∈ s.codes, c ∈ grants type then some .accepted
      else some .refused := by
  have hunknown : ¬(s.codes.map (codeVerdict type.firstByte version)).contains none = true := by
    simpa [codeVerdict_eq_none_iff htype] using h
  rw [verdict, if_neg hunknown]
  refine if_congr ?_ rfl rfl
  simp [codeVerdict_eq_accepted_iff htype]

theorem verdict_eq_accepted_iff (h : ∀ c ∈ s.codes, c ∈ known type version) :
    s.verdict type.firstByte version = some .accepted ↔
      s.codes = [] ∨ ∃ c ∈ s.codes, c ∈ grants type := by
  rw [verdict_of_known htype h]
  split_ifs <;> simp [*]

theorem verdict_eq_refused_iff (h : ∀ c ∈ s.codes, c ∈ known type version) :
    s.verdict type.firstByte version = some .refused ↔
      s.codes ≠ [] ∧ ∀ c ∈ s.codes, c ∈ denials type version := by
  have hdenies : ∀ c ∈ s.codes, c ∉ grants type ↔ c ∈ denials type version := by
    intro c hc
    refine ⟨(List.mem_append.mp (h c hc)).resolve_left, fun hdenied hgranted => ?_⟩
    exact not_mem_denials htype hgranted hdenied
  rw [← forall₂_congr hdenies, verdict_of_known htype h]
  split_ifs with hgrants <;> simpa [or_iff_not_imp_left] using hgrants

end

/-- Go over codes one after another up to the first unknown one, and keep in mind whether one has
granted a request. -/
def scan (kind : UInt8) (version : Version) (granted : Bool) : Bytes → Option Verdict
  | [] => if granted then some .accepted else some .refused
  | c :: rest =>
    match codeVerdict kind version c with
    | none => none
    | some .accepted => scan kind version true rest
    | some .refused => scan kind version granted rest

theorem scan_eq (kind : UInt8) (version : Version) (granted : Bool) (codes : Bytes) :
    scan kind version granted codes =
      let verdicts := codes.map (codeVerdict kind version)
      if verdicts.contains none then none
      else if granted || verdicts.contains (some .accepted) then some .accepted
      else some .refused := by
  induction codes generalizing granted with
  | nil => simp [scan]
  | cons c rest ih =>
    rw [scan]
    cases hcode : codeVerdict kind version c with
    | none => simp [hcode]
    | some verdict => cases verdict <;> simp [hcode, ih]

/-- A scan that may stop early gives the verdict of all codes together. -/
theorem verdict_eq_scan (kind : UInt8) :
    s.verdict kind version =
      if s.codes.isEmpty then some .accepted else scan kind version false s.codes := by
  rw [verdict, scan_eq]
  cases s.codes <;> simp

/-- The order of the codes makes no difference. -/
theorem verdict_perm {codes : Bytes} (h : codes.Perm s.codes) (kind : UInt8) :
    { s with codes }.verdict kind version = s.verdict kind version := by
  have hverdicts := h.map (codeVerdict kind version)
  rw [verdict, verdict]
  simp only [hverdicts.contains_eq, hverdicts.isEmpty_eq]

/-! ## Bodies -/

/-- A region that is read without a fault explains the answer if its properties do. -/
theorem within_iff {region : Bytes} :
    (Property.walk region).within Ack.mayCarry = true ↔
      ∃ ps, Property.Sound ps ∧ ps.flatMap Property.bytes = region ∧
        ∀ p ∈ ps, p.id = .reasonString ∨ p.id = .userProperty := by
  simp only [Walk.within, Bool.and_eq_true, Option.isNone_iff_eq_none, List.all_eq_true,
    Ack.mayCarry_iff]
  constructor
  · rintro ⟨hfault, hall⟩
    exact ⟨_, Property.sound_walk region, Property.flatMap_walk hfault, hall⟩
  · rintro ⟨ps, hsound, rfl, hall⟩
    rw [Property.walk_flatMap hsound]
    exact ⟨rfl, hall⟩

/-- The region is read if there is one. -/
theorem readRegion_iff {b left region : Bytes} :
    (version.hasProperties = true ∧ Ack.readDiagnostics b = .ok (region, left) ∨
        ¬version.hasProperties = true ∧ region = [] ∧ left = b) ↔
      (Property.walk region).within Ack.mayCarry = true ∧ Property.RegionFits version region ∧
        b = Property.regionField version region ++ left := by
  have hread : Ack.readDiagnostics b = .ok (region, left) ↔ _ := Property.readWithin_eq_ok
  rw [hread, Property.regionFits_iff, Property.regionField]
  cases version with
  | v311 =>
    simp only [Version.hasProperties]
    constructor
    · rintro (⟨h, -⟩ | ⟨-, rfl, rfl⟩)
      · cases h
      · exact ⟨rfl, by simp, rfl⟩
    · rintro ⟨-, hfits, rfl⟩
      exact .inr ⟨Bool.false_ne_true, hfits.2 trivial, rfl⟩
  | v5 => simp [Version.hasProperties]

theorem kindBits_firstByte (htype : type = .suback ∨ type = .unsuback)
    (hfirst : PacketType.ofFirstByte? packet.firstByte = some type) :
    kindBits packet.firstByte = type.firstByte := by
  rw [PacketType.kindBits_eq hfirst]
  rcases htype with rfl | rfl <;> rfl

/-- An answer is decoded if it is one of the grammar, and only then. -/
theorem decode_eq_ok (htype : type = .suback ∨ type = .unsuback)
    (hfirst : PacketType.ofFirstByte? packet.firstByte = some type) :
    decode version packet = .ok s ↔ IsIn type version packet s := by
  obtain ⟨id, codes, region⟩ := s
  have hwants : ∀ codes : Bytes, ¬((type.firstByte == PacketType.suback.firstByte ||
      version.hasProperties) == codes.isEmpty) = true ↔
      (codes ≠ [] ↔ type = .suback ∨ version = .v5) := by
    intro codes
    rcases htype with rfl | rfl <;> cases version <;> cases codes <;>
      simp [Version.hasProperties, PacketType.firstByte]
  rw [decode, Reader.run'_eq_ok, kindBits_firstByte htype hfirst]
  simp only [read, Reader.bind_eq_ok, Reader.word_eq_ok, Reader.check_eq_ok,
    Reader.announced_eq_ok, Reader.rest_eq_ok, Reader.pure_eq_ok, Prod.mk.injEq, Suback.mk.injEq,
    hwants, readRegion_iff, within_iff]
  constructor
  · rintro ⟨left, _, b, hdata, hid, _, b', ⟨hsound, hfits, rfl⟩, _, _, ⟨rfl, rfl⟩, hcoded,
      ⟨rfl, rfl, rfl⟩, rfl⟩
    exact ⟨by rw [hdata, body, List.append_assoc], hid, hfits, hsound, hcoded⟩
  · rintro ⟨hdata, hid, hfits, hsound, hcoded⟩
    rw [body, List.append_assoc] at hdata
    exact ⟨_, _, _, hdata, hid, _, _, ⟨hsound, hfits, rfl⟩, _, _, ⟨rfl, rfl⟩, hcoded,
      ⟨rfl, rfl, rfl⟩, rfl⟩

/-- The fields of an answer are found again in its bytes. -/
theorem body_inj {s' : Suback} (h : Property.RegionFits version s.properties)
    (h' : Property.RegionFits version s'.properties) (hbody : s.body version = s'.body version) :
    s = s' := by
  rw [body, body, List.append_assoc, List.append_assoc] at hbody
  have hword := (Reader.word_eq_ok.mpr rfl).symm.trans (Reader.word_eq_ok.mpr hbody)
  obtain ⟨hid, hrest⟩ := Prod.mk.inj (Except.ok.inj hword)
  have hregion := ((Reader.reads_properties version _ _ _).mpr ⟨h, rfl⟩).symm.trans
    ((Reader.reads_properties version _ _ _).mpr ⟨h', hrest⟩)
  obtain ⟨hproperties, hcodes⟩ := Prod.mk.inj (Except.ok.inj hregion)
  cases s
  cases s'
  cases hid
  cases hproperties
  cases hcodes
  rfl

/-! ## What is reported -/

/-- Two bodies are the same but for the order of the codes. -/
def Reordered (version : Version) (b b' : Bytes) : Prop :=
  ∃ (s : Suback) (codes : Bytes), Property.RegionFits version s.properties ∧
    codes.Perm s.codes ∧ b = s.body version ∧ b' = { s with codes }.body version

theorem WellFormed.perm {codes : Bytes} (h : s.WellFormed type version)
    (hperm : codes.Perm s.codes) : { s with codes }.WellFormed type version := by
  refine ⟨h.named, h.region, h.sound, Iff.trans ?_ h.coded⟩
  simp only [ne_eq, ← List.isEmpty_iff, hperm.isEmpty_eq]

section
variable (htype : type = .suback ∨ type = .unsuback)
  (hfirst : PacketType.ofFirstByte? packet.firstByte = some type)
include htype hfirst

theorem event?_of_isIn (h : IsIn type version packet s) :
    event? version packet = (s.verdict type.firstByte version).map (s.event packet) := by
  rw [event?, (decode_eq_ok htype hfirst).mpr h, kindBits_firstByte htype hfirst]

theorem event?_of_not_isIn (h : ∀ s, ¬IsIn type version packet s) :
    event? version packet = none := by
  rw [event?]
  cases hdecode : decode version packet with
  | error fault => rfl
  | ok s => exact absurd ((decode_eq_ok htype hfirst).mp hdecode) (h s)

/-- A packet is refused if it is malformed or has a code that is not known. -/
theorem event?_eq_none_iff :
    event? version packet = none ↔ (¬∃ s, IsIn type version packet s) ∨
      ∃ s, IsIn type version packet s ∧ ∃ c ∈ s.codes, c ∉ known type version := by
  simp only [← verdict_eq_none_iff htype]
  constructor
  · intro hnone
    refine or_iff_not_imp_left.mpr fun hform => ?_
    obtain ⟨s, hs⟩ := not_not.mp hform
    rw [event?_of_isIn htype hfirst hs, Option.map_eq_none_iff] at hnone
    exact ⟨s, hs, hnone⟩
  · rintro (hform | ⟨s, hs, hverdict⟩)
    · exact event?_of_not_isIn htype hfirst (not_exists.mp hform)
    · rw [event?_of_isIn htype hfirst hs, hverdict]
      rfl

/-- The same is reported of a packet whatever the order of its codes. -/
theorem event?_reordered {packet' : Packet} (h : Reordered version packet.data packet'.data)
    (hsame : packet'.firstByte = packet.firstByte) :
    event? version packet' =
      (event? version packet).map fun e => { e with packet := packet' } := by
  obtain ⟨s, codes, hfits, hperm, hdata, hdata'⟩ := h
  have hfirst' := hsame ▸ hfirst
  by_cases hform : s.WellFormed type version
  · rw [event?_of_isIn htype hfirst ⟨hdata, hform⟩,
      event?_of_isIn htype hfirst' ⟨hdata', hform.perm hperm⟩,
      verdict_perm hperm, Option.map_map]
    rfl
  · -- The fields are determined by the bytes, so no others are well formed either.
    rw [event?_of_not_isIn htype hfirst, event?_of_not_isIn htype hfirst']
    · rfl
    · rintro s' ⟨hs', hform'⟩
      cases body_inj (s := { s with codes }) hfits hform'.region (hdata'.symm.trans hs')
      exact hform (hform'.perm hperm.symm)
    · rintro s' ⟨hs', hform'⟩
      cases body_inj hfits hform'.region (hdata.symm.trans hs')
      exact hform hform'

end

end

end Suback

end MqttClient
