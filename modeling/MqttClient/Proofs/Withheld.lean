import MqttClient.Proofs.Alongside
import MqttClient.Proofs.Batches
import MqttClient.Proofs.Runs

/-!
# What the broker withholds

A broker may say in its CONNACK that it takes no wildcard subscriptions, no shared ones and no
subscription identifiers. The first two are heeded: a request that names such a filter is refused
before anything has been done. The third is remembered only: no request is refused for the
identifier in its properties, and none would have gone otherwise if the broker had said something
else about identifiers (`Step.subscribe_withheld`).
-/
namespace MqttClient

namespace Session
variable {s : Session} {subscriptions : List Subscription} {id : UInt16}

/-- A subscription is of a kind that the broker has said it does not take. -/
def Withholds (s : Session) (subscription : Subscription) : Prop :=
  s.negotiated.wildcardAvailable = false ∧ Topic.hasWildcard subscription.filter = true ∨
    s.negotiated.sharedSubscriptionAvailable = false ∧ Topic.isShared subscription.filter = true

theorem brokerTakesFilter_iff (hversion : s.version = .v5) (subscription : Subscription) :
    s.brokerTakesFilter subscription.filter = true ↔ ¬s.Withholds subscription := by
  simp only [brokerTakesFilter, hversion, Version.hasProperties, Withholds]
  cases s.negotiated.wildcardAvailable <;> cases s.negotiated.sharedSubscriptionAvailable <;> simp

/-- What a session looks at before it asks for subscriptions. -/
theorem maySubscribe_iff (hversion : s.version = .v5) :
    s.maySubscribe subscriptions id = true ↔ id ≠ 0 ∧
      (∀ subscription ∈ subscriptions, subscription.qos.isTracked = true →
        s.exchanges.incomingCapacity ≠ 0) ∧
      ∀ subscription ∈ subscriptions, ¬s.Withholds subscription := by
  have htaken : (subscriptions.all fun sub => s.brokerTakesFilter sub.filter) = true ↔
      ∀ sub ∈ subscriptions, ¬s.Withholds sub := by
    rw [List.all_eq_true]
    exact forall₂_congr fun sub _ => brokerTakesFilter_iff hversion sub
  simp only [maySubscribe, Bool.and_eq_true, htaken]
  by_cases hcapacity : s.exchanges.incomingCapacity = 0 <;> simp [hcapacity, and_assoc]

/-- A request for something that the broker withholds is refused. -/
theorem runOn_subscribe_withheld {ω : Type} [Host ω] {σ : Scene ω}
    (hversion : σ.session.version = .v5) {subscription : Subscription}
    (hmem : subscription ∈ subscriptions) (hwithheld : σ.session.Withholds subscription)
    (properties : Bytes) (id : UInt16) :
    (subscribe subscriptions properties id).runOn σ = some (.error .badParameter, σ) := by
  have hmay : σ.session.maySubscribe subscriptions id = false := by
    by_contra hmay
    exact ((maySubscribe_iff hversion).mp (Bool.eq_true_of_not_eq_false hmay)).2.2 _ hmem hwithheld
  rw [subscribe, Act.runOn_bind_of_ok (Act.runOn_session σ), hmay]
  rfl

/-- What has been negotiated, with another word on whether subscription identifiers are taken. -/
def numbering (available : Bool) (n : Negotiated) : Negotiated :=
  { n with subscriptionIdAvailable := available }

/-- **Subscribing does not look at identifiers.** Whatever the broker had said about them, the call
would have done the same, with the same result. -/
theorem subscribe_numbering {ω : Type} [Host ω] (available : Bool)
    (subscriptions : List Subscription) (properties : Bytes) (id : UInt16) (σ : Scene ω) :
    (subscribe subscriptions properties id).runOn (σ.renegotiated (numbering available)) =
      ((subscribe subscriptions properties id).runOn σ).map fun ending =>
        (ending.1, ending.2.renegotiated (numbering available)) := by
  have hmirrors : Act.Mirrors
      (fun σ σ' : Scene ω => σ' = σ.renegotiated (numbering available)) (· = ·)
      (subscribe subscriptions properties id) (subscribe subscriptions properties id) :=
    (sendsAlike_renegotiated (numbering available)).subscribe (by
      rintro σ _ rfl
      exact ⟨rfl, rfl, rfl⟩)
  exact hmirrors.runOn_eq σ

/-- A request that passes the checks goes out, all of it unless sending fails. -/
theorem subscribe_goes_out {ω : Type} [Host ω] {σ τ : Scene (Watched ω)} {r : Except Fault Unit}
    {properties : Bytes} {size : PacketSize}
    (hmay : σ.session.maySubscribe subscriptions id = true)
    (hsize : Subscribe.size σ.session.version subscriptions properties
      σ.session.negotiated.serverMaxPacketSize = .ok size)
    (h : (subscribe subscriptions properties id).runOn σ = some (r, τ)) :
    ∃ packet calls, Subscribe.serialize σ.session.version subscriptions properties id size
        size.total = .ok packet ∧ τ.host.calls = calls ++ σ.host.calls ∧
      (r = .ok () ∧ written calls = packet ∨
        r = .error .sendFailed ∧ written calls <+: packet) := by
  have hid : id ≠ 0 := by
    intro hzero
    simp [maySubscribe, hzero] at hmay
  obtain ⟨head, hhead, hpacket⟩ := (FilterRequest.subscribe subscriptions).serialize_eq_batches hid
    hsize le_rfl
  rw [subscribe, Act.runOn_bind_of_ok (Act.runOn_session σ), hmay, hsize] at h
  simp only [Bool.not_true, Bool.false_eq_true, if_false] at h
  rw [Act.runOn_bind_of_ok (Act.runOn_ofResult _ σ), show Subscribe.head .subscribe _ _ _ _ = _
    from hhead, Act.runOn_bind_of_ok (Act.runOn_ofResult _ σ)] at h
  obtain ⟨calls, hcalls, hends⟩ := sendAll_ends h
  exact ⟨_, calls, hpacket, hcalls, hends.imp_right fun ⟨hr, hfails⟩ => ⟨hr, hfails.front⟩⟩

end Session

variable {ω : Type} [Host ω]

/-- **What is withheld and what is asked for.** If a filter has a wildcard, or is shared, and the
broker takes none such, nothing at all is done. If none is withheld, a request that passes the other
checks goes out whole unless sending fails, whatever its properties hold. What the broker has said
about subscription identifiers makes no difference. -/
theorem Step.subscribe_withheld {s : Step ω} {subscriptions : List Subscription}
    {properties : Bytes} {id : UInt16} (hcall : s.call = .subscribe subscriptions properties id)
    (hversion : s.before.session.version = .v5) :
    ((∃ subscription ∈ subscriptions, s.before.session.Withholds subscription) →
      s.result = .error .badParameter ∧ s.after = s.before) ∧
    (∀ size, id ≠ 0 →
      (∀ subscription ∈ subscriptions, subscription.qos.isTracked = true →
        s.before.session.exchanges.incomingCapacity ≠ 0) →
      (∀ subscription ∈ subscriptions, ¬s.before.session.Withholds subscription) →
      Subscribe.size .v5 subscriptions properties
        s.before.session.negotiated.serverMaxPacketSize = .ok size →
      ∃ packet, Subscribe.serialize .v5 subscriptions properties id size size.total = .ok packet ∧
        (s.result = .ok .done ∧ written s.calls = packet ∨
          s.result = .error .sendFailed ∧ written s.calls <+: packet)) ∧
    ∀ available, s.call.perform.runOn
        (s.before.renegotiated (Session.numbering available)) =
      some (s.result, s.after.renegotiated (Session.numbering available)) := by
  obtain ⟨call, σ, result, τ, hperform⟩ := s
  cases hcall
  obtain ⟨r, hsubscribe, rfl⟩ := Act.runOn_bind_pure_inv hperform
  refine ⟨?_, ?_, ?_⟩
  · intro hwithheld
    obtain ⟨subscription, hmem, hwithheld⟩ := hwithheld
    have hrefused : (Session.subscribe subscriptions properties id).runOn σ =
        some (.error .badParameter, σ) :=
      Session.runOn_subscribe_withheld hversion hmem hwithheld properties id
    cases hrefused.symm.trans hsubscribe
    exact ⟨rfl, rfl⟩
  · intro size hid hcapacity htaken hsize
    have hmay : σ.session.maySubscribe subscriptions id = true :=
      (Session.maySubscribe_iff hversion).mpr ⟨hid, hcapacity, htaken⟩
    rw [← hversion] at hsize ⊢
    obtain ⟨packet, calls, hpacket, hcalls, hends⟩ :=
      Session.subscribe_goes_out hmay hsize hsubscribe
    rw [Step.calls_eq hcalls]
    refine ⟨packet, hpacket, ?_⟩
    rcases hends with ⟨rfl, hwritten⟩ | ⟨rfl, hwritten⟩
    · exact .inl ⟨rfl, hwritten⟩
    · exact .inr ⟨rfl, hwritten⟩
  · intro available
    have hother := Session.subscribe_numbering available subscriptions properties id σ
    rw [hsubscribe] at hother
    cases r with
    | error fault => exact Act.runOn_bind_of_error hother _
    | ok _ => exact Act.runOn_bind_of_ok hother _

/-- A broker says that it takes neither wildcards nor identifiers. The client asks for a filter
under an identifier, and for one with a wildcard. -/
def asking : List (Step Scripted) :=
  stepsFrom
    { session := .create 16 (.empty 1 1) .v5 {}
      host := { host := { incoming := [0x20, 7, 0, 0, 4, 0x28, 0, 0x29, 0] } } }
    [.connect { clientId := "c" } 1000, .subscribe [{ filter := "a" }] [0x0B, 5] 7,
      .subscribe [{ filter := "a/#" }] [] 8]

/-- The identifier goes out, and the wildcard does not. -/
theorem Step.subscribe_withheld_asking :
    (∃ s ∈ asking, s.call = .subscribe [{ filter := "a" }] [0x0B, 5] 7 ∧
      s.before.session.status = .connected ∧
      s.before.session.negotiated.subscriptionIdAvailable = false ∧
      s.result = .ok .done ∧ written s.calls = [0x82, 9, 0, 7, 2, 0x0B, 5, 0, 1, 97, 0] ∧
      s.call.perform.runOn (s.before.renegotiated (Session.numbering true)) =
        some (.ok .done, s.after.renegotiated (Session.numbering true))) ∧
    ∃ s ∈ asking, s.call = .subscribe [{ filter := "a/#" }] [] 8 ∧
      s.before.session.status = .connected ∧
      s.before.session.negotiated.wildcardAvailable = false ∧
      s.result = .error .badParameter ∧ s.after = s.before := by
  constructor
  · obtain ⟨s, hs, hcall, hversion, hstatus, hids, hcapacity, htaken, hsize, hresult⟩ :
        ∃ s ∈ asking, s.call = .subscribe [{ filter := "a" }] [0x0B, 5] 7 ∧
          s.before.session.version = .v5 ∧ s.before.session.status = .connected ∧
          s.before.session.negotiated.subscriptionIdAvailable = false ∧
          s.before.session.exchanges.incomingCapacity ≠ 0 ∧
          s.before.session.maySubscribe [{ filter := "a" }] 7 = true ∧
          Subscribe.size .v5 [{ filter := "a" }] [0x0B, 5]
            s.before.session.negotiated.serverMaxPacketSize = .ok ⟨9, 11⟩ ∧
          s.result = .ok .done := by decide +kernel
    obtain ⟨-, hgoes, hsame⟩ := Step.subscribe_withheld hcall hversion
    obtain ⟨packet, hpacket, hends⟩ := hgoes ⟨9, 11⟩ (by decide) (fun _ _ _ => hcapacity)
      ((Session.maySubscribe_iff hversion).mp htaken).2.2 hsize
    have hform : Subscribe.serialize .v5 [{ filter := "a" }] [0x0B, 5] 7 ⟨9, 11⟩ 11 =
        .ok [0x82, 9, 0, 7, 2, 0x0B, 5, 0, 1, 97, 0] := by decide +kernel
    cases hform.symm.trans hpacket
    rw [hresult] at hends hsame
    rcases hends with ⟨-, hwritten⟩ | ⟨hfailed, -⟩
    · exact ⟨s, hs, hcall, hstatus, hids, hresult, hwritten, hsame true⟩
    · cases hfailed
  · obtain ⟨s, hs, hcall, hversion, hstatus, hwildcard⟩ :
        ∃ s ∈ asking, s.call = .subscribe [{ filter := "a/#" }] [] 8 ∧
          s.before.session.version = .v5 ∧ s.before.session.status = .connected ∧
          s.before.session.negotiated.wildcardAvailable = false := by decide +kernel
    obtain ⟨hrefused, -, -⟩ := Step.subscribe_withheld hcall hversion
    obtain ⟨hresult, hafter⟩ := hrefused
      ⟨_, List.mem_singleton_self _, .inl ⟨hwildcard, by decide⟩⟩
    exact ⟨s, hs, hcall, hstatus, hwildcard, hresult, hafter⟩

end MqttClient
