import MqttClient.Proofs.Agreed
import MqttClient.Proofs.Connecting

/-!
# The grammar of CONNACK

Which answers to CONNECT are well formed does not depend on what they say: the grammar
(`Connack.WellFormed`) names the codes of both revisions and the properties of MQTT 5 with the
values that each may have. Every complete body is one answer of the grammar or none. In the first
case its code alone tells consent from refusal, and in the second case it is `badResponse`,
whatever code it carries (`Connack.decode_classifies`).
-/
namespace MqttClient

/-- A region that is walked without a fault is the properties that the walk finds. -/
theorem Property.flatMap_walk {region : Bytes} (h : (walk region).fault = none) :
    (walk region).properties.flatMap bytes = region := by
  obtain ⟨-, rest, hregion, hend⟩ := walkFrom_inv [] (le_refl region.length)
  rcases hend with ⟨-, rfl⟩ | ⟨hfault, -⟩
  · exact (hregion.trans (List.append_nil _)).symm
  · exact absurd (h.symm.trans hfault) nofun

namespace Connack

/-! ## The grammar -/

/-- The properties that an answer may have, and the values of each. Response information has to
have been asked for. -/
def Allows (responseInfo : Bool) : Property → Prop
  | ⟨.receiveMax, v⟩ | ⟨.maxPacketSize, v⟩ => v ≠ 0
  | ⟨.maxQos, v⟩ => v ≤ 1
  | ⟨.retainAvailable, v⟩ | ⟨.wildcardAvailable, v⟩ | ⟨.subscriptionIdAvailable, v⟩
  | ⟨.sharedSubscriptionAvailable, v⟩ => v = 0 ∨ v = 1
  | ⟨.responseInfo, _⟩ => responseInfo = true
  | ⟨.sessionExpiry, _⟩ | ⟨.topicAliasMax, _⟩ | ⟨.serverKeepAlive, _⟩ | ⟨.assignedClientId, _⟩
  | ⟨.reasonString, _⟩ | ⟨.serverReference, _⟩ | ⟨.authMethod, _⟩ | ⟨.authData, _⟩
  | ⟨.userProperty, _⟩ => True
  | _ => False

/-- The codes of an answer. -/
def Knows (version : Version) (code : UInt8) : Prop :=
  match version with
  | .v311 => code ≤ 5
  | .v5 => code = Reason.success ∨ code ∈ Reason.connackRefusals

/-- The grammar of answers, given whether response information has been asked for. -/
structure WellFormed (version : Version) (responseInfo : Bool) (c : Connack) : Prop where
  /-- A session is present with consent only. -/
  fresh : c.sessionPresent = true → c.reason = Reason.success
  known : Knows version c.reason
  region : Property.RegionFits version c.properties
  /-- The region is one property after another, none of which recurs that must not. -/
  sound : ∃ ps, Property.Sound ps ∧ ps.flatMap Property.bytes = c.properties ∧
    ∀ p ∈ ps, Allows responseInfo p

/-! ## Codes -/

variable {version : Version} {c : Connack}

theorem knows_iff {code : UInt8} :
    Knows version code ↔ Reason.connack version code ≠ none := by
  cases version <;> simp only [Knows, Reason.connack, Reason.success]
  · by_cases h : code = 0 <;> simp [h]
  · by_cases h : code = 0 <;> simp [h]

/-- A known code is consent or refusal. -/
theorem judge_of_knows (h : Knows version c.reason) :
    c.judge version = if c.reason = Reason.success then .ok c else .error .serverRefused := by
  rw [knows_iff] at h
  rw [judge]
  split
  · rename_i hverdict
    rw [if_pos]
    simp only [Reason.connack] at hverdict
    split at hverdict
    · assumption
    · cases version <;> simp at hverdict
  · rename_i hverdict
    rw [if_neg]
    intro hsuccess
    simp only [Reason.connack, if_pos hsuccess] at hverdict
    cases hverdict
  · exact absurd ‹_› h

end Connack

/-! ## Properties -/

namespace Negotiated
variable {n n' : Negotiated} {p : Property}

/-- A property is applied if the grammar has it, and only then. -/
theorem applyConnackProperty_ok_iff :
    (∃ n', n.applyConnackProperty p = .ok n') ↔ Connack.Allows n.requestResponseInfo p := by
  have hflag : ∀ {v : UInt8} {f : Bool → Negotiated},
      (∃ n', (do let b ← brokerFlag v; return f b) = .ok n') ↔ v = 0 ∨ v = 1 := by
    intro v f
    simp only [brokerFlag_bind_eq_ok, exists_and_left, exists_eq, and_true]
  obtain ⟨id, v⟩ := p
  cases id
  case retainAvailable | wildcardAvailable | subscriptionIdAvailable |
      sharedSubscriptionAvailable =>
    exact hflag
  all_goals
    simp only [applyConnackProperty, Connack.Allows]
    first
    | split_ifs <;> simp [*]
    | simp

/-- What the client has asked for stays what it is. -/
theorem requestResponseInfo_of_apply (h : n.applyConnackProperty p = .ok n') :
    n'.requestResponseInfo = n.requestResponseInfo := by
  obtain ⟨id, v⟩ := p
  cases id
  case retainAvailable | wildcardAvailable | subscriptionIdAvailable |
      sharedSubscriptionAvailable =>
    rw [(brokerFlag_bind_eq_ok.mp h).2]
  all_goals
    simp only [applyConnackProperty] at h
    first
    | split_ifs at h <;> cases h <;> rfl
    | cases h <;> rfl

theorem applyAll_connack_iff {ps : List Property} :
    (applyAll applyConnackProperty n ps).1 = none ↔
      ∀ p ∈ ps, Connack.Allows n.requestResponseInfo p := by
  induction ps generalizing n with
  | nil => simp [applyAll]
  | cons p ps ih =>
    rw [applyAll, List.forall_mem_cons, ← applyConnackProperty_ok_iff]
    split
    · rename_i next happly
      rw [ih, requestResponseInfo_of_apply happly]
      exact ⟨fun h => ⟨⟨next, happly⟩, h⟩, fun h => h.2⟩
    · rename_i happly
      simp [happly]

/-- A region is applied if the grammar has it, and only then. -/
theorem applyConnack_ok_iff {region : Bytes} :
    (n.applyConnack region).1 = .ok () ↔
      ∃ ps, Property.Sound ps ∧ ps.flatMap Property.bytes = region ∧
        ∀ p ∈ ps, Connack.Allows n.requestResponseInfo p := by
  have hregion : (n.applyConnack region).1 = .ok () ↔
      (Property.walk region).fault = none ∧
        ∀ p ∈ (Property.walk region).properties, Connack.Allows n.requestResponseInfo p := by
    rw [← applyAll_connack_iff, applyConnack, applyRegion]
    split <;> rename_i happly <;> simp [happly]
  rw [hregion]
  constructor
  · rintro ⟨hfault, hallowed⟩
    exact ⟨_, Property.sound_walk region, Property.flatMap_walk hfault, hallowed⟩
  · rintro ⟨ps, hsound, rfl, hallowed⟩
    rw [Property.walk_flatMap hsound]
    exact ⟨rfl, hallowed⟩

end Negotiated

/-! ## Whole answers -/

namespace Connack
variable {version : Version} {n : Negotiated} {c : Connack} {packet : Packet}

theorem length_body_v311 (c : Connack) : (c.body .v311).length = 2 := rfl

/-- An answer of the grammar is judged by its code. -/
theorem decode_of_wellFormed (hwhole : packet.data.length = packet.remaining)
    (hdata : packet.data = c.body version) (h : WellFormed version n.requestResponseInfo c) :
    (decode version packet n).1 = c.judge version := by
  have hplain : ¬((!version.hasProperties) = true ∧ packet.remaining ≠ 2) := by
    rintro ⟨hversion, hremaining⟩
    cases version with
    | v311 => exact hremaining (by rw [← hwhole, hdata, length_body_v311])
    | v5 => cases hversion
  have hread : (read version).run' packet.data = .ok c :=
    Reader.run'_eq_ok.mpr ⟨[], read_eq_ok.mpr
      ⟨h.fresh, h.region, by rw [hdata, List.append_nil], fun _ => rfl⟩⟩
  have happly := Negotiated.applyConnack_ok_iff.mpr h.sound
  rw [decode, if_neg hplain, hread]
  dsimp only
  split
  · rename_i hfault
    rw [hfault] at happly
    cases happly
  · rfl

/-- What is not malformed is an answer of the grammar. -/
theorem wellFormed_of_decode (hwhole : packet.data.length = packet.remaining)
    (h : (decode version packet n).1 ≠ .error .badResponse) :
    ∃ c, packet.data = c.body version ∧ WellFormed version n.requestResponseInfo c := by
  rw [decode] at h
  split_ifs at h with hplain
  · exact absurd rfl h
  cases hread : (read version).run' packet.data with
  | error fault =>
    rw [hread, (read_strict version).run' hread] at h
    exact absurd rfl h
  | ok c =>
  rw [hread] at h
  dsimp only at h
  obtain ⟨left, hread⟩ := Reader.run'_eq_ok.mp hread
  obtain ⟨hfresh, hregion, hdata, hleft⟩ := read_eq_ok.mp hread
  have hleft : left = [] := by
    cases version with
    | v5 => exact hleft rfl
    | v311 =>
      have hremaining : packet.remaining = 2 := by simpa [Version.hasProperties] using hplain
      rw [hremaining, hdata, List.length_append, length_body_v311] at hwhole
      exact List.length_eq_zero_iff.mp (by omega)
  split at h
  · rename_i fault n' happly
    rw [Negotiated.applyRegion_error
      (fun _ _ _ => Negotiated.applyConnackProperty_error) happly] at h
    exact absurd rfl h
  · rename_i n' happly
    have hknown : Knows version c.reason := by
      refine knows_iff.mpr fun hnone => h ?_
      simp only [judge, hnone]
    exact ⟨c, by rw [hdata, hleft, List.append_nil], hfresh, hknown, hregion,
      Negotiated.applyConnack_ok_iff.mp (by rw [happly])⟩

/-- What is accepted is an answer of the grammar with the code of success, to its last byte. -/
theorem wellFormed_of_decode_ok {n' : Negotiated} (hwhole : packet.data.length = packet.remaining)
    (h : decode version packet n = (.ok c, n')) :
    packet.data = c.body version ∧ WellFormed version n.requestResponseInfo c ∧
      c.reason = Reason.success := by
  obtain ⟨c', hdata, hform⟩ := wellFormed_of_decode (n := n) hwhole (by rw [h]; nofun)
  have hjudge := decode_of_wellFormed hwhole hdata hform
  rw [h, judge_of_knows hform.known] at hjudge
  split_ifs at hjudge with hsuccess
  cases hjudge
  exact ⟨hdata, hform, hsuccess⟩

/-- **The grammar decides.** A complete body is accepted if it is an answer of the grammar with
the code of success, and refused by the server if it is one with another code. If there is no such
answer it is a malformed packet, even where it carries the code of a refusal. -/
theorem decode_classifies (version : Version) (n : Negotiated) (firstByte : UInt8) (length : ℕ)
    (body : Bytes) :
    let packet : Packet := { firstByte, remaining := body.length, length, data := body }
    let IsAnswer := fun c : Connack =>
      body = c.body version ∧ WellFormed version n.requestResponseInfo c
    (∀ c, (decode version packet n).1 = .ok c ↔ IsAnswer c ∧ c.reason = Reason.success) ∧
      ((decode version packet n).1 = .error .serverRefused ↔
        ∃ c, IsAnswer c ∧ c.reason ≠ Reason.success) ∧
      ((decode version packet n).1 = .error .badResponse ↔ ¬∃ c, IsAnswer c) := by
  intro packet IsAnswer
  have hjudge : ∀ c, IsAnswer c → (decode version packet n).1 =
      if c.reason = Reason.success then .ok c else .error .serverRefused := by
    rintro c ⟨hbody, hform⟩
    rw [decode_of_wellFormed rfl hbody hform, judge_of_knows hform.known]
  have hanswer : (decode version packet n).1 ≠ .error .badResponse → ∃ c, IsAnswer c :=
    wellFormed_of_decode rfl
  refine ⟨fun c => ⟨fun h => ?_, ?_⟩, ⟨fun h => ?_, ?_⟩, ⟨?_, ?_⟩⟩
  · obtain ⟨c', hc'⟩ := hanswer (by rw [h]; nofun)
    rw [hjudge c' hc'] at h
    split_ifs at h with hsuccess
    cases h
    exact ⟨hc', hsuccess⟩
  · rintro ⟨hc, hsuccess⟩
    rw [hjudge c hc, if_pos hsuccess]
  · obtain ⟨c, hc⟩ := hanswer (by rw [h]; nofun)
    rw [hjudge c hc] at h
    split_ifs at h with hsuccess
    exact ⟨c, hc, hsuccess⟩
  · rintro ⟨c, hc, hrefusal⟩
    rw [hjudge c hc, if_neg hrefusal]
  · rintro h ⟨c, hc⟩
    rw [hjudge c hc] at h
    split_ifs at h
    all_goals cases h
  · intro hnone
    by_contra h
    exact hnone (hanswer h)

/-- A refusal does not hide a property that no answer may have. -/
example : (decode .v5 ⟨⟨0x20, 6, 2⟩, [0, 0x87, 3, 0x21, 0, 0]⟩ .default).1 =
    .error .badResponse := by decide +kernel

end Connack

end MqttClient
