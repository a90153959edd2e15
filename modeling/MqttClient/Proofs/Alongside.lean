import Mathlib.Data.Nat.Notation
import MqttClient.Proofs.Running
import MqttClient.Session.Connecting
import MqttClient.Session.Publishing
import MqttClient.Session.Subscribing

/-!
# Sending side by side

Sending looks at the session for one limit, and at the clock to see how much time has passed. So two
scenes send alike when their hosts take the same writes and their clocks stay a fixed distance apart
(`Session.OffersAlike`). When the exchanges and the patience of the hosts are the same as well, that
carries over to all that is made of sending and updating the exchanges (`Session.SendsAlike`).
-/
namespace MqttClient

/-- The time that has passed is the same on both clocks. -/
theorem sub_ahead (k now start : UInt32) : (now + k) - (start + k) = now - start := by grind

/-- Two calls of hosts that give the same answer. -/
def Host.SameAnswer {ω α : Type} (H : ω → ω → Prop) (called called' : α × ω) : Prop :=
  called.1 = called'.1 ∧ H called.2 called'.2

/-- Hosts of which the second has its clock `k` milliseconds ahead take the same bytes, and stay
such when they are called alike. -/
structure Host.TakesAlike {ω : Type} [Host ω] (k : UInt32) (H : ω → ω → Prop) : Prop where
  write : ∀ spans h h', H h h' → SameAnswer H (Host.write spans h) (Host.write spans h')
  flush : ∀ h h', H h h' → SameAnswer H (Host.flush h) (Host.flush h')
  now : ∀ h h', H h h' → (Host.now h').1 = (Host.now h).1 + k ∧ H (Host.now h).2 (Host.now h').2
  enter : ∀ h h', H h h' → H (Host.enter h) (Host.enter h')
  exit : ∀ h h', H h h' → H (Host.exit h) (Host.exit h')

/-- Scenes whose sessions belong together, and whose hosts do. -/
structure Scene.Both {ω : Type} (S : Session → Session → Prop) (H : ω → ω → Prop)
    (σ σ' : Scene ω) : Prop where
  session : S σ.session σ'.session
  host : H σ.host σ'.host

/-- A scene in whose session something else has been negotiated. -/
def Scene.renegotiated {ω : Type} (f : Negotiated → Negotiated) (σ : Scene ω) : Scene ω :=
  { σ with session := { σ.session with negotiated := f σ.session.negotiated } }

namespace Session
variable {ω : Type} [Host ω] {k : UInt32} {R : Scene ω → Scene ω → Prop}

open Act (Mirrors Extends Follows)

/-! ## One packet -/

/-- Scenes of which the second has its clock `k` milliseconds ahead, and whose hosts take the same
writes. -/
structure OffersAlike (k : UInt32) (R : Scene ω → Scene ω → Prop) : Prop where
  sendTimeout : ∀ σ σ', R σ σ' →
    σ'.session.settings.sendTimeout = σ.session.settings.sendTimeout
  write : ∀ spans, Mirrors R (· = ·) (Act.guarded (Act.host (Host.write spans)))
    (Act.guarded (Act.host (Host.write spans)))
  flush : Mirrors R (· = ·) (Act.host Host.flush) (Act.host Host.flush)
  now : Mirrors R (fun t t' => t' = t + k) Act.now Act.now
  stamp : ∀ t, Mirrors R (· = ·) (Act.change fun s => { s with lastTx := t })
    (Act.change fun s => { s with lastTx := t + k })

/-- Sending with a number of writes given. -/
def sendWithin (n : ℕ) (spans : List Bytes) : Act ω Unit := do
  let start ← Act.now
  offer (n + Spans.size spans) start (Spans.size spans) spans
  if !(← Act.host Host.flush) then throw .sendFailed
  let now ← Act.now
  Act.change fun s => { s with lastTx := now }

theorem send_eq_sendWithin (spans : List Bytes) (σ : Scene ω) :
    (send spans).runOn σ =
      (sendWithin (Host.patience (Host.now σ.host).2) spans).runOn σ := rfl

/-- A packet that is offered in some number of writes is offered in more just so. -/
theorem offer_extends {n n' : ℕ} (hn : n ≤ n') (start : UInt32) (left : ℕ) (spans : List Bytes) :
    Extends (offer n start left spans : Act ω Unit) (offer n' start left spans) := by
  induction n generalizing n' left spans with
  | zero =>
    rw [offer, offer.eq_def]
    split
    · exact .refl _
    · exact .stall
  | succ n ih =>
    obtain ⟨n', rfl⟩ : ∃ j, n' = j + 1 := ⟨n' - 1, by omega⟩
    have hrest := ih (show n ≤ n' by omega)
    rw [offer, offer]
    refine .ite (.refl _) <| (Extends.refl _).bind fun answer => ?_
    cases answer with
    | none => exact .refl _
    | some count =>
      exact .ite ((Extends.refl _).bind fun _ => (Extends.refl _).bind fun _ =>
        .ite (.refl _) (hrest _ _)) (hrest _ _)

theorem sendWithin_extends {n n' : ℕ} (hn : n ≤ n') (spans : List Bytes) :
    Extends (sendWithin n spans : Act ω Unit) (sendWithin n' spans) :=
  (Extends.refl _).bind fun _ => (offer_extends (by omega) _ _ _).bind fun _ => .refl _

namespace OffersAlike

theorem now_bind {α : Type} {Q : α → α → Prop} (h : OffersAlike k R) {f f' : UInt32 → Act ω α}
    (hf : ∀ t, Mirrors R Q (f t) (f' (t + k))) :
    Mirrors R Q (Act.now >>= f) (Act.now >>= f') :=
  h.now.bind fun t _ ht => ht ▸ hf t

theorem offer (h : OffersAlike k R) (n : ℕ) (start : UInt32) (left : ℕ) (spans : List Bytes) :
    Mirrors R (· = ·) (Session.offer n start left spans)
      (Session.offer n (start + k) left spans) := by
  induction n generalizing left spans with
  | zero =>
    rw [Session.offer, Session.offer]
    exact .ite (.pure rfl) .stall
  | succ n ih =>
    rw [Session.offer, Session.offer]
    refine .ite (.pure rfl) <| (h.write _).bind_eq fun answer => ?_
    cases answer with
    | none => exact .throw _
    | some count =>
      refine .ite (h.now_bind fun t => .sessions_bind fun σ σ' hσ => ?_) (ih _ _)
      rw [sub_ahead, h.sendTimeout σ σ' hσ]
      exact .check (ih _ _)

theorem sendWithin (h : OffersAlike k R) (n : ℕ) (spans : List Bytes) :
    Mirrors R (· = ·) (Session.sendWithin n spans) (Session.sendWithin n spans) :=
  h.now_bind fun start => (h.offer _ start _ _).bind_eq fun _ => h.flush.bind_eq fun _ =>
    .check <| h.now_bind h.stamp

/-- Sessions that remember the time of sending alike. -/
theorem both {S : Session → Session → Prop} {H : ω → ω → Prop} (hH : Host.TakesAlike k H)
    (hsettings : ∀ s s', S s s' → s'.settings = s.settings)
    (hstamp : ∀ s s' t, S s s' → S { s with lastTx := t } { s' with lastTx := t + k }) :
    OffersAlike k (Scene.Both S H) where
  sendTimeout _ _ hσ := congrArg Settings.sendTimeout (hsettings _ _ hσ.session)
  write spans σ σ' hσ := by
    obtain ⟨hanswer, hhost⟩ := hH.write spans _ _ (hH.enter _ _ hσ.host)
    rw [Act.runOn_guarded_host, Act.runOn_guarded_host]
    exact .some ⟨.ok hanswer, hσ.session, hH.exit _ _ hhost⟩
  flush _ _ hσ := .some ⟨.ok (hH.flush _ _ hσ.host).1, hσ.session, (hH.flush _ _ hσ.host).2⟩
  now _ _ hσ := .some ⟨.ok (hH.now _ _ hσ.host).1, hσ.session, (hH.now _ _ hσ.host).2⟩
  stamp t _ _ hσ := .some ⟨.ok rfl, hstamp _ _ t hσ.session, hσ.host⟩

/-- A host with more patience takes what another one takes. -/
theorem send_follows (h : OffersAlike k R) (hpatience : ∀ σ σ', R σ σ' →
    Host.patience (Host.now σ.host).2 ≤ Host.patience (Host.now σ'.host).2) (spans : List Bytes) :
    Follows R (send spans) (send spans) := by
  intro σ σ' r τ hσ hrun
  rw [send_eq_sendWithin] at hrun ⊢
  exact (h.sendWithin _ spans).follows σ σ' r τ hσ
    (sendWithin_extends (hpatience σ σ' hσ) spans σ _ hrun)

end OffersAlike

/-! ## Acknowledging, publishing, subscribing and resuming -/

/-- Besides, the exchanges are the same, and the hosts have the same patience. -/
structure SendsAlike (k : UInt32) (R : Scene ω → Scene ω → Prop) : Prop extends
    OffersAlike k R where
  patience : ∀ σ σ', R σ σ' → Host.patience (Host.now σ'.host).2 = Host.patience (Host.now σ.host).2
  exchanges : ∀ σ σ', R σ σ' → σ.session.exchanges = σ'.session.exchanges
  withExchanges : ∀ σ σ' exchanges, R σ σ' →
    R { σ with session := { σ.session with exchanges } }
      { σ' with session := { σ'.session with exchanges } }
  tracked : ∀ σ σ', R σ σ' → R { σ with host := Act.trackedHost σ.host }
    { σ' with host := Act.trackedHost σ'.host }

namespace SendsAlike

theorem send (h : SendsAlike k R) (spans : List Bytes) :
    Mirrors R (· = ·) (Session.send spans) (Session.send spans) := by
  intro σ σ' hσ
  rw [send_eq_sendWithin, send_eq_sendWithin, h.patience σ σ' hσ]
  exact h.sendWithin _ spans σ σ' hσ

theorem sendAll (h : SendsAlike k R) (packets : List (List Bytes)) :
    Mirrors R (· = ·) (Session.sendAll packets) (Session.sendAll packets) := by
  induction packets with
  | nil => exact .pure rfl
  | cons spans rest ih => exact (h.send spans).bind_eq fun _ => ih

theorem track (h : SendsAlike k R) {α : Type}
    (step : ExchangeTable → Except Fault (α × ExchangeTable)) :
    Mirrors R (· = ·) (Act.track step) (Act.track step) :=
  (Act.Matches.track step h.exchanges
    (fun _ _ exchanges hσ => h.tracked _ _ (h.withExchanges _ _ exchanges hσ)) h.tracked).mirrors

theorem sendAck (h : SendsAlike k R) (id : UInt16) (state : ExchangeState) :
    Mirrors R (· = ·) (Session.sendAck id state) (Session.sendAck id state) := by
  rw [Session.sendAck]
  split
  · exact .pure rfl
  · exact (Mirrors.ofResult _).bind_eq fun _ => (h.send _).bind_eq fun _ =>
      (h.track _).bind_eq fun _ => (Mirrors.ofResult _).bind_eq fun _ => .pure rfl

/-- Publishing looks at the session for nothing but what its checks look at. -/
theorem publish (h : SendsAlike k R) {m : Message} {id : UInt16}
    (hchecks : ∀ σ σ', R σ σ' → σ'.session.mayPublish m id = σ.session.mayPublish m id ∧
      σ'.session.version = σ.session.version ∧
      σ'.session.negotiated.serverMaxPacketSize = σ.session.negotiated.serverMaxPacketSize) :
    Mirrors R (· = ·) (Session.publish m id) (Session.publish m id) := by
  have hopen : Mirrors R (· = ·) (openOutgoing m id) (openOutgoing m id) := by
    refine (h.track _).bind_eq fun result => ?_
    split
    · exact .pure rfl
    · exact .ite (.pure rfl) (.throw _)
  refine .sessions_bind fun σ σ' hσ => ?_
  obtain ⟨hmay, hversion, hmax⟩ := hchecks σ σ' hσ
  rw [hmay, hversion, hmax]
  refine .check <| (Mirrors.ofResult _).bind_eq fun size =>
    (Mirrors.ofResult _).bind_eq fun spans => ?_
  extract_lets afterOpening
  have hafter : ∀ u, Mirrors R (· = ·) (afterOpening u) (afterOpening u) :=
    fun _ => (h.send spans).bind_eq fun _ =>
      .ite ((h.track _).bind_eq fun _ => (Mirrors.ofResult _).bind_eq fun _ => .pure rfl)
        (.pure rfl)
  exact .ite (hopen.bind_eq hafter) (hafter ())

/-- Subscribing looks at the session for nothing but what its checks look at. -/
theorem subscribe (h : SendsAlike k R) {subscriptions : List Subscription} {properties : Bytes}
    {id : UInt16} (hchecks : ∀ σ σ', R σ σ' →
      σ'.session.maySubscribe subscriptions id = σ.session.maySubscribe subscriptions id ∧
      σ'.session.version = σ.session.version ∧
      σ'.session.negotiated.serverMaxPacketSize = σ.session.negotiated.serverMaxPacketSize) :
    Mirrors R (· = ·) (Session.subscribe subscriptions properties id)
      (Session.subscribe subscriptions properties id) := by
  refine .sessions_bind fun σ σ' hσ => ?_
  obtain ⟨hmay, hversion, hmax⟩ := hchecks σ σ' hσ
  rw [hmay, hversion, hmax]
  exact .check <| (Mirrors.ofResult _).bind_eq fun size => (Mirrors.ofResult _).bind_eq fun head =>
    h.sendAll _

theorem resendPubrels (h : SendsAlike k R) (n cursor : ℕ) :
    Mirrors R (· = ·) (Session.resendPubrels n cursor) (Session.resendPubrels n cursor) := by
  induction n generalizing cursor with
  | zero => exact .pure rfl
  | succ n ih =>
    rw [Session.resendPubrels]
    refine .sessions_bind fun σ σ' hσ => ?_
    rw [← h.exchanges σ σ' hσ]
    split
    · exact .pure rfl
    · exact (h.sendAck _ _).bind_eq fun _ => ih _

theorem resume (h : SendsAlike k R) (present : Bool) :
    Mirrors R (· = ·) (Session.resume present) (Session.resume present) := by
  refine .ite (.sessions_bind fun σ σ' hσ => ?_) ((h.track _).bind_eq fun _ => .pure rfl)
  rw [← h.exchanges σ σ' hσ]
  exact h.resendPubrels _ _

end SendsAlike

/-- Sending and updating the exchanges do not look at what has been negotiated. -/
theorem sendsAlike_renegotiated (f : Negotiated → Negotiated) :
    SendsAlike 0 fun σ σ' : Scene ω => σ' = σ.renegotiated f where
  sendTimeout := by
    rintro σ _ rfl
    rfl
  write spans := by
    rintro σ _ rfl
    exact .some ⟨.ok rfl, rfl⟩
  flush := by
    rintro σ _ rfl
    exact .some ⟨.ok rfl, rfl⟩
  now := by
    rintro σ _ rfl
    exact .some ⟨.ok (UInt32.add_zero _).symm, rfl⟩
  stamp t := by
    rintro σ _ rfl
    rw [UInt32.add_zero]
    exact .some ⟨.ok rfl, rfl⟩
  patience := by
    rintro σ _ rfl
    rfl
  exchanges := by
    rintro σ _ rfl
    rfl
  withExchanges exchanges := by
    rintro σ _ rfl
    rfl
  tracked := by
    rintro σ _ rfl
    rfl

end Session

end MqttClient
