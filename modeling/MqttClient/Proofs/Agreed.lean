import MqttClient.Packet.Connack
import MqttClient.Packet.Connect
import MqttClient.Proofs.Property.Walking
import MqttClient.Proofs.Running
import MqttClient.Proofs.Wire.Requests

/-!
# What is agreed on

The values that hold for a connection come from the properties of its CONNECT and of the CONNACK,
and from nothing else (`Negotiated.agreed`). The properties are applied one after another. Since
none of these may occur twice, the value of one stands when all are applied.
-/
namespace MqttClient

/-- The value of a property of a request. -/
def Connect.property? (c : Connect) (id : PropertyId) : Option id.shape.Value :=
  Property.find? id (Property.walk c.properties).properties

namespace Property
variable {id : PropertyId} {p : Property} {ps : List Property}

@[simp] theorem find?_nil (id : PropertyId) : find? id [] = none := rfl

@[simp] theorem find?_cons_self (v : id.shape.Value) : find? id (⟨id, v⟩ :: ps) = some v :=
  dif_pos rfl

theorem find?_cons_of_ne (h : p.id ≠ id) : find? id (p :: ps) = find? id ps := dif_neg h

theorem find?_eq_none (h : ∀ p ∈ ps, p.id ≠ id) : find? id ps = none := by
  induction ps with
  | nil => rfl
  | cons p ps ih =>
    obtain ⟨hp, hps⟩ := List.forall_mem_cons.mp h
    rw [find?_cons_of_ne hp, ih hps]

/-- What may occur only once does not occur again. -/
theorem Sound.find?_tail (h : Sound (p :: ps)) (honce : p.id.repeatable = false) :
    find? p.id ps = none := by
  refine find?_eq_none fun q hq heq => ?_
  have hrepeats := (List.pairwise_cons.mp h.once).1 q hq heq.symm
  rw [PropertyId.repeatable_iff.mpr hrepeats] at honce
  cases honce

theorem Sound.tail (h : Sound (p :: ps)) : Sound ps :=
  ⟨(List.forall_mem_cons.mp h.fits).2, (List.pairwise_cons.mp h.once).2⟩

theorem sound_walk (region : Bytes) : Sound (walk region).properties :=
  (soundAfter_start.mp (walkFrom_inv [] (le_refl region.length)).1)

end Property

namespace Negotiated

/-- Values by property, some of which are given. -/
abbrev Given := (id : PropertyId) → Option id.shape.Value

/-- What a client and its broker agree on, from the values in the CONNECT and in the CONNACK. What
is not given has its default. The client's half is what the client asks for, but for the expiry of
the session, on which the broker has the last word. -/
def agreed (asked told : Given) : Negotiated where
  sessionExpiry := (told .sessionExpiry).getD ((asked .sessionExpiry).getD default.sessionExpiry)
  receiveMax := (asked .receiveMax).getD default.receiveMax
  maxPacketSize := (asked .maxPacketSize).getD default.maxPacketSize
  topicAliasMax := (asked .topicAliasMax).getD default.topicAliasMax
  requestResponseInfo :=
    ((asked .requestResponseInfo).map (· != (0 : UInt8))).getD default.requestResponseInfo
  requestProblemInfo :=
    ((asked .requestProblemInfo).map (· != (0 : UInt8))).getD default.requestProblemInfo
  serverReceiveMax := (told .receiveMax).getD default.serverReceiveMax
  serverMaxQos := (told .maxQos).getD default.serverMaxQos
  retainAvailable := ((told .retainAvailable).map (· != (0 : UInt8))).getD default.retainAvailable
  serverMaxPacketSize := (told .maxPacketSize).getD default.serverMaxPacketSize
  serverTopicAliasMax := (told .topicAliasMax).getD default.serverTopicAliasMax
  wildcardAvailable :=
    ((told .wildcardAvailable).map (· != (0 : UInt8))).getD default.wildcardAvailable
  subscriptionIdAvailable :=
    ((told .subscriptionIdAvailable).map (· != (0 : UInt8))).getD default.subscriptionIdAvailable
  sharedSubscriptionAvailable :=
    ((told .sharedSubscriptionAvailable).map (· != (0 : UInt8))).getD
      default.sharedSubscriptionAvailable
  serverKeepAlive := told .serverKeepAlive

/-- The values after those of a CONNECT have been applied. -/
def withAsked (n : Negotiated) (asked : Given) : Negotiated :=
  { n with
    sessionExpiry := (asked .sessionExpiry).getD n.sessionExpiry
    receiveMax := (asked .receiveMax).getD n.receiveMax
    maxPacketSize := (asked .maxPacketSize).getD n.maxPacketSize
    topicAliasMax := (asked .topicAliasMax).getD n.topicAliasMax
    requestResponseInfo :=
      ((asked .requestResponseInfo).map (· != (0 : UInt8))).getD n.requestResponseInfo
    requestProblemInfo :=
      ((asked .requestProblemInfo).map (· != (0 : UInt8))).getD n.requestProblemInfo }

/-- The values after those of a CONNACK have been applied. -/
def withTold (n : Negotiated) (told : Given) : Negotiated :=
  { n with
    sessionExpiry := (told .sessionExpiry).getD n.sessionExpiry
    serverReceiveMax := (told .receiveMax).getD n.serverReceiveMax
    serverMaxQos := (told .maxQos).getD n.serverMaxQos
    retainAvailable := ((told .retainAvailable).map (· != (0 : UInt8))).getD n.retainAvailable
    serverMaxPacketSize := (told .maxPacketSize).getD n.serverMaxPacketSize
    serverTopicAliasMax := (told .topicAliasMax).getD n.serverTopicAliasMax
    wildcardAvailable :=
      ((told .wildcardAvailable).map (· != (0 : UInt8))).getD n.wildcardAvailable
    subscriptionIdAvailable :=
      ((told .subscriptionIdAvailable).map (· != (0 : UInt8))).getD n.subscriptionIdAvailable
    sharedSubscriptionAvailable :=
      ((told .sharedSubscriptionAvailable).map (· != (0 : UInt8))).getD
        n.sharedSubscriptionAvailable
    serverKeepAlive := (told .serverKeepAlive).or n.serverKeepAlive }

theorem agreed_eq (asked told : Given) :
    agreed asked told = (default.withAsked asked).withTold told := by
  simp [agreed, withAsked, withTold, default]

variable {n n' : Negotiated} {ps : List Property}

/-- A region is applied without a fault when it has none and no property is refused. -/
theorem applyRegion_ok {step : Negotiated → Property → Except Fault Negotiated}
    {malformed : Fault} {region : Bytes} (h : applyRegion step malformed n region = (.ok (), n')) :
    applyAll step n (Property.walk region).properties = (none, n') := by
  simp only [applyRegion] at h
  split at h
  · cases h
  · rename_i m happly
    obtain ⟨-, rfl⟩ := Prod.mk.inj h
    exact happly

/-- Properties that are applied one by one come to what their values come to at once, if one
property always does. -/
theorem applyAll_eq {step : Negotiated → Property → Except Fault Negotiated}
    {given : Negotiated → Given → Negotiated}
    (hnil : ∀ n, given n (Property.find? · []) = n)
    (hstep : ∀ {ps : List Property} {n next : Negotiated} {p : Property},
      (p.id.repeatable = false → Property.find? p.id ps = none) → step n p = .ok next →
        given next (Property.find? · ps) = given n (Property.find? · (p :: ps)))
    (hsound : Property.Sound ps) (h : applyAll step n ps = (none, n')) :
    n' = given n (Property.find? · ps) := by
  induction ps generalizing n with
  | nil =>
    cases h
    exact (hnil _).symm
  | cons p ps ih =>
    rw [applyAll] at h
    split at h
    · rename_i next happlied
      rw [ih hsound.tail h, hstep hsound.find?_tail happlied]
    · cases h

/-- A property stands when those after it are of other kinds. -/
theorem withAsked_step {next : Negotiated} {p : Property}
    (honce : p.id.repeatable = false → Property.find? p.id ps = none)
    (h : n.applyConnectProperty p = .ok next) :
    next.withAsked (Property.find? · ps) = n.withAsked (Property.find? · (p :: ps)) := by
  unfold applyConnectProperty at h
  split at h <;> (try split_ifs at h) <;> cases h
  -- Only a user property may come again, and nothing becomes of it.
  all_goals first
    | simp [withAsked, Property.find?_cons_of_ne, show Property.find? _ ps = none from honce rfl]
    | simp [withAsked, Property.find?_cons_of_ne]

theorem applyAll_connect (hsound : Property.Sound ps)
    (h : applyAll applyConnectProperty n ps = (none, n')) :
    n' = n.withAsked (Property.find? · ps) :=
  applyAll_eq (fun _ => rfl) withAsked_step hsound h

/-- A CONNECT begins from the defaults. -/
theorem applyConnect_default {region : Bytes}
    (h : default.applyConnect region = (.ok (), n')) :
    n' = default.withAsked (Property.find? · (Property.walk region).properties) :=
  applyAll_connect (Property.sound_walk region) (applyRegion_ok h)

/-- A flag that is accepted is zero or one, and is what its byte says. -/
theorem brokerFlag_bind_eq_ok {v : UInt8} {f : Bool → Negotiated} {next : Negotiated} :
    (do let b ← brokerFlag v; return f b) = .ok next ↔ (v = 0 ∨ v = 1) ∧ next = f (v != 0) := by
  rw [bind_eq_ok, brokerFlag]
  by_cases hzero : v = 0
  · simp [hzero, pure, Except.pure, eq_comm]
  by_cases hone : v = 1 <;> simp [hzero, hone, pure, Except.pure, eq_comm]

theorem withTold_step {next : Negotiated} {p : Property}
    (honce : p.id.repeatable = false → Property.find? p.id ps = none)
    (h : n.applyConnackProperty p = .ok next) :
    next.withTold (Property.find? · ps) = n.withTold (Property.find? · (p :: ps)) := by
  unfold applyConnackProperty at h
  split at h <;> (try split_ifs at h) <;> (try replace h := (brokerFlag_bind_eq_ok.mp h).2) <;>
    cases h
  all_goals first
    | simp [withTold, Property.find?_cons_of_ne, show Property.find? _ ps = none from honce rfl]
    | simp [withTold, Property.find?_cons_of_ne]

theorem applyAll_connack (hsound : Property.Sound ps)
    (h : applyAll applyConnackProperty n ps = (none, n')) :
    n' = n.withTold (Property.find? · ps) :=
  applyAll_eq (fun _ => rfl) withTold_step hsound h

end Negotiated

namespace Connack
variable {version : Version} {connack : Connack}

/-- The bytes of a CONNACK after its header. -/
def body (version : Version) (c : Connack) : Bytes :=
  [if c.sessionPresent then 1 else 0, c.reason] ++ Property.regionField version c.properties

/-- A CONNACK on the wire. -/
def wire (version : Version) (c : Connack) : Bytes :=
  PacketType.connack.firstByte :: VarInt.bytes (c.body version).length ++ c.body version

/-- Without a property region no value is given. -/
theorem property?_of_nil (h : connack.properties = []) : connack.property? = fun _ => none := by
  funext id
  rw [property?, h]
  rfl

/-- A byte of flags without any but the lowest is that flag. -/
theorem flags_eq {flags : UInt8} (h : ¬flags &&& 0xFE ≠ 0) :
    flags = if flags &&& 0x01 != 0 then 1 else 0 := by
  have hbytes : ∀ i : Fin 256, ¬UInt8.ofNat i &&& 0xFE ≠ 0 →
      UInt8.ofNat i = if UInt8.ofNat i &&& 0x01 != 0 then 1 else 0 := by decide +kernel
  simpa using hbytes ⟨flags.toNat, flags.toNat_lt⟩ (by simpa using h)

/-- The byte of a flag has no other flags, and the flag is what it says. -/
theorem flags_of_present (present : Bool) :
    ¬(if present then 1 else 0 : UInt8) &&& 0xFE ≠ 0 ∧
      ((if present then 1 else 0 : UInt8) &&& 0x01 != 0) = present := by
  cases present <;> decide

/-- A CONNACK is read off its form, and on MQTT 5 its region ends with it. -/
theorem read_eq_ok {b left : Bytes} :
    read version b = .ok (connack, left) ↔
      (connack.sessionPresent = true → connack.reason = Reason.success) ∧
        Property.RegionFits version connack.properties ∧
          b = connack.body version ++ left ∧ (version = .v5 → left = []) := by
  have hregion : ∀ {b : Bytes}, readRegion version b = .ok (connack.properties, left) ↔
      Property.RegionFits version connack.properties ∧
        b = Property.regionField version connack.properties ++ left ∧
          (version = .v5 → left = []) := by
    intro b
    cases version with
    | v311 =>
      simp only [readRegion, Reader.pure_eq_ok, Prod.mk.injEq, Property.regionFits_iff,
        Property.regionField, Version.hasProperties]
      grind
    | v5 =>
      simp only [readRegion, Reader.bind_eq_ok, Reader.region_eq_ok, Reader.done_eq_ok,
        Reader.pure_eq_ok, Prod.mk.injEq, Property.regionFits_iff, Property.regionField,
        Version.hasProperties]
      grind
  simp only [read, Reader.bind_eq_ok, Reader.byte_eq_ok, Reader.check_eq_ok, Reader.pure_eq_ok]
  constructor
  · rintro ⟨flags, b, rfl, hflags, reason, b', rfl, hfresh, region, b'', hread, h⟩
    cases h
    obtain ⟨hfits, rfl, hleft⟩ := hregion.mp hread
    refine ⟨by simpa using hfresh, hfits, ?_, hleft⟩
    rw [body, ← flags_eq hflags]
    rfl
  · rintro ⟨hfresh, hfits, rfl, hleft⟩
    obtain ⟨hflags, hpresent⟩ := flags_of_present connack.sessionPresent
    refine ⟨_, _, rfl, hflags, _, _, rfl, ?_, _, _, hregion.mpr ⟨hfits, rfl, hleft⟩, ?_⟩
    · rw [hpresent]
      exact fun h => h.2 (hfresh h.1)
    · rw [hpresent]

/-- The properties of a CONNACK that is accepted are applied. -/
theorem negotiated_of_decode {packet : Packet} {n n' : Negotiated}
    (h : decode version packet n = (.ok connack, n')) : n' = n.withTold connack.property? := by
  rw [decode] at h
  split_ifs at h
  · cases h
  split at h
  · cases h
  rename_i c _
  split at h
  · cases h
  rename_i m happly
  obtain ⟨hjudge, rfl⟩ := Prod.mk.inj h
  have hc : c = connack := by
    simp only [judge] at hjudge
    split at hjudge <;> cases hjudge
    rfl
  subst hc
  exact Negotiated.applyAll_connack (Property.sound_walk _) (Negotiated.applyRegion_ok happly)

end Connack

end MqttClient
