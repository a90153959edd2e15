import MqttClient.Proofs.Alongside
import MqttClient.Proofs.Handling
import MqttClient.Proofs.KeepAlive
import MqttClient.Proofs.Status

/-!
# Clocks that wrap

A client looks at its clock only to see how much time has passed, by the distance between two
readings. Let one client be a copy of another one whose clock is `k` milliseconds ahead, by any `k`
and wherever one of the clocks wraps. Then both do the same, operation by operation
(`Act.Mirrors` between scenes that are `Ahead`), and the copy stays just that (`run_ahead`). The
runs are given by what is asked of the client and how its host changes in between (`stepsAmid`), so
that one and the same story can be told of both.
-/
namespace MqttClient

/-! ## Copies with another clock -/

/-- A session that remembers other times. -/
def Session.withTimes (s : Session) (lastTx lastRx pingSentAt : UInt32) : Session :=
  { s with lastTx, lastRx, pingSentAt }

/-- The second session is a copy whose clock is `k` milliseconds ahead. When a ping was sent matters
only as long as it is unanswered. -/
def Session.Ahead (k : UInt32) (s s' : Session) : Prop :=
  ∃ t, s' = s.withTimes (s.lastTx + k) (s.lastRx + k) t ∧
    (s.awaitsPingresp = true → t = s.pingSentAt + k)

/-- A host and a copy of it, whose clock is `k` milliseconds ahead, stay such when they are called
alike, and their answers are the same but for the time. -/
structure Host.ClockAhead {ω : Type} [Host ω] (k : UInt32) (H : ω → ω → Prop) : Prop where
  read : ∀ n h h', H h h' → SameAnswer H (Host.read n h) (Host.read n h')
  write : ∀ spans h h', H h h' → SameAnswer H (Host.write spans h) (Host.write spans h')
  flush : ∀ h h', H h h' → SameAnswer H (Host.flush h) (Host.flush h')
  now : ∀ h h', H h h' → (Host.now h').1 = (Host.now h).1 + k ∧ H (Host.now h).2 (Host.now h').2
  enter : ∀ h h', H h h' → H (Host.enter h) (Host.enter h')
  exit : ∀ h h', H h h' → H (Host.exit h) (Host.exit h')
  tracking : ∀ h h', H h h' → H (Host.tracking h) (Host.tracking h')
  notify : ∀ event h h', H h h' → H (Host.notify event h) (Host.notify event h')
  patience : ∀ h h', H h h' → Host.patience h' = Host.patience h

/-- The second scene is a copy whose clock is `k` milliseconds ahead. -/
structure Scene.Ahead {ω : Type} (k : UInt32) (H : ω → ω → Prop) (σ σ' : Scene ω) : Prop where
  session : σ.session.Ahead k σ'.session
  host : H σ.host σ'.host

variable {ω : Type} [Host ω] {k : UInt32} {H : ω → ω → Prop}

omit [Host ω] in
theorem Host.SameAnswer.inv {α : Type} {called called' : α × ω} (h : SameAnswer H called called') :
    ∃ answer υ υ', called = (answer, υ) ∧ called' = (answer, υ') ∧ H υ υ' :=
  ⟨called.1, called.2, called'.2, rfl, Prod.ext h.1.symm rfl, h.2⟩

namespace Host.ClockAhead
variable {h h' : ω}

theorem readByte (hH : ClockAhead k H) (hh : H h h') :
    SameAnswer H (Host.readByte h) (Host.readByte h') := by
  obtain ⟨answer, υ, υ', hread, hread', hυ⟩ := (hH.read 1 h h' hh).inv
  rw [Host.readByte, Host.readByte, hread, hread']
  cases answer <;> exact ⟨rfl, hυ⟩

theorem readVarIntFrom (hH : ClockAhead k H) (n : ℕ) (p : VarInt.Pending) (hh : H h h') :
    SameAnswer H (Host.readVarIntFrom n p h) (Host.readVarIntFrom n p h') := by
  induction n generalizing p h h' with
  | zero => exact ⟨rfl, hh⟩
  | succ n ih =>
    obtain ⟨answer, υ, υ', hbyte, hbyte', hυ⟩ := (hH.readByte hh).inv
    rw [Host.readVarIntFrom, Host.readVarIntFrom, hbyte, hbyte']
    rcases answer with _ | ⟨count, b⟩
    · exact ⟨rfl, hυ⟩
    · dsimp only
      split
      · split
        · exact ⟨rfl, hυ⟩
        · exact ⟨rfl, hυ⟩
        · exact ih _ hυ
      · exact ⟨rfl, hυ⟩

theorem readHeader (hH : ClockAhead k H) (version : Version) (hh : H h h') :
    SameAnswer H (Host.readHeader version h) (Host.readHeader version h') := by
  obtain ⟨answer, υ, υ', hbyte, hbyte', hυ⟩ := (hH.readByte hh).inv
  rw [Host.readHeader, Host.readHeader, hbyte, hbyte']
  rcases answer with _ | ⟨count, first⟩
  · exact ⟨rfl, hυ⟩
  have hrest : SameAnswer H (Host.readVarInt υ) (Host.readVarInt υ') :=
    hH.readVarIntFrom _ _ hυ
  obtain ⟨result, ν, ν', hremaining, hremaining', hν⟩ := hrest.inv
  dsimp only
  rw [hremaining, hremaining']
  split_ifs
  · exact ⟨rfl, hυ⟩
  · cases result <;> exact ⟨rfl, hν⟩
  · exact ⟨rfl, hυ⟩

end Host.ClockAhead

/-! ## Operations on both -/

namespace Act.Mirrors
variable {α β : Type} {Q : α → α → Prop} {S : β → β → Prop}

omit [Host ω] in
theorem host {g : ω → α × ω} (hg : ∀ h h', H h h' → Host.SameAnswer H (g h) (g h')) :
    Mirrors (Scene.Ahead k H) (· = ·) (Act.host g) (Act.host g) :=
  fun _ _ hσ => .some ⟨.ok (hg _ _ hσ.host).1, hσ.session, (hg _ _ hσ.host).2⟩

omit [Host ω] in
theorem hostDo {g : ω → ω} (hg : ∀ h h', H h h' → H (g h) (g h')) :
    Mirrors (Scene.Ahead k H) (· = ·) (Act.hostDo g) (Act.hostDo g) :=
  fun _ _ hσ => .some ⟨.ok rfl, hσ.session, hg _ _ hσ.host⟩

theorem now_bind (hH : Host.ClockAhead k H) {f f' : UInt32 → Act ω β}
    (hf : ∀ t, Mirrors (Scene.Ahead k H) S (f t) (f' (t + k))) :
    Mirrors (Scene.Ahead k H) S (Act.now >>= f) (Act.now >>= f') := by
  have hnow : Mirrors (Scene.Ahead k H) (fun t t' => t' = t + k) (Act.now : Act ω UInt32)
      Act.now :=
    fun _ _ hσ => .some ⟨.ok (hH.now _ _ hσ.host).1, hσ.session, (hH.now _ _ hσ.host).2⟩
  exact hnow.bind fun t _ ht => ht ▸ hf t

omit [Host ω] in
theorem ahead_bind {f f' : Session → Act ω β}
    (hf : ∀ s s', s.Ahead k s' → Mirrors (Scene.Ahead k H) S (f s) (f' s')) :
    Mirrors (Scene.Ahead k H) S (Act.session >>= f) (Act.session >>= f') :=
  fun σ σ' hσ => hf _ _ hσ.session σ σ' hσ

omit [Host ω] in
/-- Something that does not depend on the times of a session. -/
theorem session_bind {f : Session → Act ω β}
    (htimes : ∀ s tx rx t, f (s.withTimes tx rx t) = f s)
    (hf : ∀ s, Mirrors (Scene.Ahead k H) S (f s) (f s)) :
    Mirrors (Scene.Ahead k H) S (Act.session >>= f) (Act.session >>= f) := by
  refine ahead_bind ?_
  rintro s _ ⟨t, rfl, -⟩
  rw [htimes]
  exact hf s

omit [Host ω] in
theorem change {f f' : Session → Session} (hf : ∀ s s', s.Ahead k s' → (f s).Ahead k (f' s')) :
    Mirrors (Scene.Ahead k H) (· = ·) (Act.change f) (Act.change f') :=
  fun _ _ hσ => .some ⟨.ok rfl, hf _ _ hσ.session, hσ.host⟩

omit [Host ω] in
/-- A change that has nothing to do with the times of a session. -/
theorem change_aside {f : Session → Session}
    (htimes : ∀ s tx rx t, f (s.withTimes tx rx t) = (f s).withTimes tx rx t)
    (hawaits : ∀ s, (f s).awaitsPingresp = true → s.awaitsPingresp = true) :
    Mirrors (Scene.Ahead k H) (· = ·) (Act.change f) (Act.change f) := by
  refine change ?_
  rintro s _ ⟨t, rfl, hping⟩
  have hstill : f s = (f s).withTimes s.lastTx s.lastRx s.pingSentAt := htimes s _ _ _
  have htx : (f s).lastTx = s.lastTx := by rw [hstill]; rfl
  have hrx : (f s).lastRx = s.lastRx := by rw [hstill]; rfl
  have hsent : (f s).pingSentAt = s.pingSentAt := by rw [hstill]; rfl
  refine ⟨t, ?_, fun h => ?_⟩
  · rw [htimes, htx, hrx]
  · rw [hsent]
    exact hping (hawaits s h)

omit [Host ω] in
theorem change_aside_bind {f : Session → Session} {g g' : Unit → Act ω β}
    (htimes : ∀ s tx rx t, f (s.withTimes tx rx t) = (f s).withTimes tx rx t)
    (hawaits : ∀ s, (f s).awaitsPingresp = true → s.awaitsPingresp = true)
    (hg : ∀ u, Mirrors (Scene.Ahead k H) S (g u) (g' u)) :
    Mirrors (Scene.Ahead k H) S (Act.change f >>= g) (Act.change f >>= g') :=
  (change_aside htimes hawaits).bind_eq hg

theorem guarded (hH : Host.ClockAhead k H) {act act' : Act ω α}
    (h : Mirrors (Scene.Ahead k H) Q act act') :
    Mirrors (Scene.Ahead k H) Q (Act.guarded act) (Act.guarded act') :=
  (hostDo hH.enter).bind_eq fun _ => h.bind fun _ _ ha =>
    (hostDo hH.exit).bind_eq fun _ => .pure ha

theorem readInto (hH : Host.ClockAhead k H) (offset n : ℕ) :
    Mirrors (Scene.Ahead k H) (· = ·) (Act.readInto offset n) (Act.readInto offset n) := by
  refine (host (hH.read n)).bind_eq fun answer => ?_
  rcases answer with _ | ⟨count, arrived⟩
  · exact .throw _
  · exact .change_aside_bind (fun _ _ _ _ => rfl) (fun _ => id) fun _ => .pure rfl

end Act.Mirrors

namespace Session

open Act (Mirrors)

/-! ## Sending -/

/-- Sending takes the same course on both. -/
theorem sendsAlike_ahead (hH : Host.ClockAhead k H) :
    SendsAlike k (Scene.Ahead k H) where
  sendTimeout _ _ hσ := by
    obtain ⟨t, hsession, -⟩ := hσ.session
    rw [hsession]
    rfl
  write _ := Mirrors.guarded hH (.host (hH.write _))
  flush := .host hH.flush
  now _ _ hσ := .some ⟨.ok (hH.now _ _ hσ.host).1, hσ.session, (hH.now _ _ hσ.host).2⟩
  stamp _ := .change fun _ _ ⟨t, hs, hping⟩ => ⟨t, by rw [hs]; rfl, hping⟩
  patience _ _ hσ := hH.patience _ _ (hH.now _ _ hσ.host).2
  exchanges _ _ hσ := by
    obtain ⟨t, hsession, -⟩ := hσ.session
    rw [hsession]
    rfl
  withExchanges := by
    rintro ⟨s, h⟩ ⟨_, h'⟩ exchanges ⟨⟨t, rfl, hping⟩, hh⟩
    exact ⟨⟨t, rfl, hping⟩, hh⟩
  tracked _ _ hσ := ⟨hσ.session, hH.exit _ _ (hH.tracking _ _ (hH.enter _ _ hσ.host))⟩

theorem send_mirrors (hH : Host.ClockAhead k H) (spans : List Bytes) :
    Mirrors (Scene.Ahead k H) (· = ·) (send spans : Act ω Unit) (send spans) :=
  (sendsAlike_ahead hH).send spans

/-! ## Filling -/

theorem fillFrom_mirrors (hH : Host.ClockAhead k H) (n length received : ℕ) (progress : UInt32) :
    Mirrors (Scene.Ahead k H) (· = ·) (fillFrom n length received progress : Act ω ℕ)
      (fillFrom n length received (progress + k)) := by
  induction n generalizing received progress with
  | zero =>
    rw [fillFrom, fillFrom]
    exact .ite (.pure rfl) .stall
  | succ n ih =>
    rw [fillFrom, fillFrom]
    refine .ite (.pure rfl) <| (Mirrors.readInto hH _ _).bind_eq fun count =>
      .now_bind hH fun now => .ite ?_ (ih _ _)
    refine .ahead_bind ?_
    rintro s _ ⟨t, rfl, -⟩
    rw [sub_ahead]
    exact .ite (.pure rfl) (ih _ _)

theorem fill_mirrors (hH : Host.ClockAhead k H) (length : ℕ) :
    Mirrors (Scene.Ahead k H) (· = ·) (fill length : Act ω ℕ) (fill length) := by
  refine .get_bind fun σ σ' hσ => ?_
  have hcapacity : σ'.session.capacity = σ.session.capacity := by
    obtain ⟨t, hsession, -⟩ := hσ.session
    rw [hsession]
    rfl
  rw [hcapacity, hH.patience _ _ hσ.host]
  exact .now_bind hH fun start => fillFrom_mirrors hH _ _ _ _

theorem drain_mirrors (hH : Host.ClockAhead k H) (n remaining : ℕ) :
    Mirrors (Scene.Ahead k H) (· = ·) (drain n remaining : Act ω Unit) (drain n remaining) := by
  induction n generalizing remaining with
  | zero =>
    rw [drain]
    exact .ite (.pure rfl) .stall
  | succ n ih =>
    rw [drain]
    exact .ite (.pure rfl) <| .session_bind (fun _ _ _ _ => rfl) fun _ =>
      (fill_mirrors hH _).bind_eq fun _ => .check (ih _)

theorem discard_mirrors (hH : Host.ClockAhead k H) (remaining : ℕ) :
    Mirrors (Scene.Ahead k H) (· = ·) (discard remaining : Act ω Unit) (discard remaining) :=
  (Mirrors.outcome <| .session_bind (fun _ _ _ _ => rfl) fun _ =>
    .check (drain_mirrors hH _ _)).bind_eq fun result =>
      .change_aside_bind (fun _ _ _ _ => rfl) (fun _ => id) fun _ => .ofResult result

/-! ## Receiving -/

/-- Comparing runs on both goes through all that handling a packet is made of. -/
theorem handles_mirrors (hH : Host.ClockAhead k H) :
    Handles fun α (act act' : Act ω α) => Mirrors (Scene.Ahead k H) (· = ·) act act' where
  pure _ := .pure rfl
  throw := .throw
  bind h hf := h.bind_eq hf
  session_bind h := .ahead_bind fun s s' ⟨_, hs, _⟩ =>
    h s s' (by rw [hs]; rfl) (by rw [hs]; rfl)
  report event := .hostDo (hH.notify event)
  track := (sendsAlike_ahead hH).track
  sendAck := (sendsAlike_ahead hH).sendAck
  answered := .change_aside (fun _ _ _ _ => rfl) fun _ h => nomatch h
  ended := .change_aside (fun _ _ _ _ => rfl) fun _ => id

theorem handleFront_mirrors (hH : Host.ClockAhead k H) (managed : Bool) (header : Header) :
    Mirrors (Scene.Ahead k H) (· = ·) (handleFront managed header : Act ω Progress)
      (handleFront managed header) := by
  refine .session_bind (fun _ _ _ _ => rfl) fun s =>
    (Mirrors.outcome ((handles_mirrors hH).dispatch managed _)).bind_eq fun result =>
      .change_aside_bind (fun _ _ _ _ => rfl) (fun _ => id) fun _ =>
        (Mirrors.ofResult result).bind_eq fun _ => .now_bind hH fun now =>
          Mirrors.bind_eq (.change ?_) fun _ => .pure rfl
  rintro s _ ⟨t, rfl, hping⟩
  exact ⟨t, rfl, hping⟩

theorem handleBuffered_mirrors (hH : Host.ClockAhead k H) (managed : Bool) :
    Mirrors (Scene.Ahead k H) (· = ·) (handleBuffered managed : Act ω Progress)
      (handleBuffered managed) := by
  refine .session_bind (fun _ _ _ _ => rfl) fun s => .ite (.pure rfl) ?_
  split
  · exact .pure rfl
  · exact .throw _
  · exact .ite ((discard_mirrors hH _).bind_eq fun _ => .pure rfl)
      (.ite (.pure rfl) (handleFront_mirrors hH managed _))

omit [Host ω] in
/-- Both find the same to do. -/
theorem duty_ahead {s s' : Session} (h : s.Ahead k s') (now : UInt32) :
    (s'.timers (now + k)).duty = (s.timers now).duty := by
  obtain ⟨t, rfl, hping⟩ := h
  cases hawaits : s.awaitsPingresp with
  | true => simp only [Timers.duty, timers, withTimes, hawaits, if_true, hping hawaits, sub_ahead]
  | false =>
    simp only [Timers.duty, timers, withTimes, hawaits, sub_ahead, txLimit, Bool.false_eq_true,
      if_false]

theorem ping_mirrors (hH : Host.ClockAhead k H) :
    Mirrors (Scene.Ahead k H) (· = ·) (ping : Act ω Unit) ping := by
  refine (send_mirrors hH _).bind_eq fun _ => .change ?_
  rintro s _ ⟨t, rfl, -⟩
  exact ⟨_, rfl, fun _ => rfl⟩

theorem receive_mirrors (hH : Host.ClockAhead k H) (managed : Bool) :
    Mirrors (Scene.Ahead k H) (· = ·) (receive managed : Act ω Progress) (receive managed) := by
  have hduty : Mirrors (Scene.Ahead k H) (· = ·) (keepAliveDuty : Act ω Unit) keepAliveDuty := by
    refine .now_bind hH fun now => .ahead_bind fun s s' hs => ?_
    rw [duty_ahead hs]
    split
    · exact .pure rfl
    · exact ping_mirrors hH
    · exact .throw _
  refine .session_bind (fun _ _ _ _ => rfl) fun s => (Mirrors.readInto hH _ _).bind_eq fun _ =>
    .change_aside_bind (fun _ _ _ _ => rfl) (fun _ => id) fun _ => ?_
  exact .ite (hduty.bind_eq fun _ => handleBuffered_mirrors hH managed)
    (handleBuffered_mirrors hH managed)

/-! ## Connecting -/

theorem connackOverdue_mirrors (hH : Host.ClockAhead k H) (start timeout : UInt32)
    (attempts : ℕ) :
    Mirrors (Scene.Ahead k H) (· = ·) (connackOverdue start timeout attempts : Act ω Bool)
      (connackOverdue (start + k) timeout attempts) := by
  refine .ite (.now_bind hH fun now => ?_) (.session_bind (fun _ _ _ _ => rfl) fun _ => .pure rfl)
  rw [sub_ahead]
  exact .pure rfl

theorem awaitHeader_mirrors (hH : Host.ClockAhead k H) (n : ℕ) (start timeout : UInt32)
    (attempts : ℕ) :
    Mirrors (Scene.Ahead k H) (· = ·) (awaitHeader n start timeout attempts : Act ω Header)
      (awaitHeader n (start + k) timeout attempts) := by
  induction n generalizing attempts with
  | zero => exact .stall
  | succ n ih =>
    rw [awaitHeader, awaitHeader]
    refine .ahead_bind ?_
    rintro s _ ⟨t, rfl, -⟩
    refine (Mirrors.host fun _ _ hh => hH.readHeader _ hh).bind_eq fun result => ?_
    split
    · exact .pure rfl
    · exact (connackOverdue_mirrors hH _ _ _).bind_eq fun _ => .check (ih _)
    · exact .throw _

omit [Host ω] in
theorem acceptConnack_mirrors (header : Header) :
    Mirrors (Scene.Ahead k H) (· = ·) (acceptConnack header : Act ω Bool)
      (acceptConnack header) :=
  .session_bind (fun _ _ _ _ => rfl) fun _ =>
    .change_aside_bind (fun _ _ _ _ => rfl) (fun _ => id) fun _ =>
      (Mirrors.ofResult _).bind_eq fun _ =>
        .change_aside_bind (fun _ _ _ _ => rfl) (fun _ => id) fun _ => .pure rfl

theorem receiveConnack_mirrors (hH : Host.ClockAhead k H) (timeout : UInt32) :
    Mirrors (Scene.Ahead k H) (· = ·) (receiveConnack timeout : Act ω Bool)
      (receiveConnack timeout) := by
  refine .now_bind hH fun start => .get_bind ?_
  rintro ⟨s, h⟩ ⟨_, h'⟩ ⟨⟨t, rfl, -⟩, hh⟩
  dsimp only
  rw [hH.patience _ _ hh]
  refine (awaitHeader_mirrors hH _ _ _ _).bind_eq fun header => .check <| .ite ?_ ?_
  · exact (discard_mirrors hH _).bind_eq fun _ => .throw_bind _
  · exact (fill_mirrors hH _).bind_eq fun _ => .check (acceptConnack_mirrors header)

theorem connect_mirrors (hH : Host.ClockAhead k H) (c : Connect) (timeout : UInt32) :
    Mirrors (Scene.Ahead k H) (· = ·) (connect c timeout : Act ω Bool) (connect c timeout) := by
  have hestablish : Mirrors (Scene.Ahead k H) (· = ·) (establish c : Act ω Unit)
      (establish c) := by
    refine Mirrors.bind_eq (.change ?_) fun _ => .now_bind hH fun now => .change ?_
    · rintro s _ ⟨t, rfl, -⟩
      exact ⟨0, rfl, fun h => nomatch h⟩
    · rintro s _ ⟨t, rfl, hping⟩
      exact ⟨t, rfl, hping⟩
  have hhandshake : Mirrors (Scene.Ahead k H) (· = ·) (handshake c timeout : Act ω Bool)
      (handshake c timeout) :=
    .session_bind (fun _ _ _ _ => rfl) fun s => (Mirrors.ofResult _).bind_eq fun negotiated =>
      (Mirrors.ofResult _).bind_eq fun size =>
        .change_aside_bind (fun _ _ _ _ => rfl) (fun _ => id) fun _ =>
          (Mirrors.ofResult _).bind_eq fun spans => (send_mirrors hH spans).bind_eq fun _ =>
            (receiveConnack_mirrors hH timeout).bind_eq fun present =>
              (Mirrors.ofResult _).bind_eq fun _ => .pure rfl
  rw [connect_eq]
  exact hhandshake.bind_eq fun present => ((sendsAlike_ahead hH).resume present).bind_eq fun _ =>
    hestablish.bind_eq fun _ => .pure rfl

/-! ## Publishing and all else -/

theorem publish_mirrors (hH : Host.ClockAhead k H) (m : Message) (id : UInt16) :
    Mirrors (Scene.Ahead k H) (· = ·) (publish m id : Act ω Unit) (publish m id) :=
  (sendsAlike_ahead hH).publish fun _ _ hσ => by
    obtain ⟨t, hsession, -⟩ := hσ.session
    rw [hsession]
    exact ⟨rfl, rfl, rfl⟩

theorem subscribe_mirrors (hH : Host.ClockAhead k H) (subscriptions : List Subscription)
    (properties : Bytes) (id : UInt16) :
    Mirrors (Scene.Ahead k H) (· = ·) (subscribe subscriptions properties id : Act ω Unit)
      (subscribe subscriptions properties id) :=
  (sendsAlike_ahead hH).subscribe fun _ _ hσ => by
    obtain ⟨t, hsession, -⟩ := hσ.session
    rw [hsession]
    exact ⟨rfl, rfl, rfl⟩

theorem unsubscribe_mirrors (hH : Host.ClockAhead k H) (filters : List String)
    (properties : Bytes) (id : UInt16) :
    Mirrors (Scene.Ahead k H) (· = ·) (unsubscribe filters properties id : Act ω Unit)
      (unsubscribe filters properties id) :=
  .session_bind (fun _ _ _ _ => rfl) fun _ => .check <| (Mirrors.ofResult _).bind_eq fun _ =>
    (Mirrors.ofResult _).bind_eq fun _ => (sendsAlike_ahead hH).sendAll _

omit [Host ω] in
theorem close_mirrors :
    Mirrors (Scene.Ahead k H) (· = ·) (Act.change close : Act ω Unit) (Act.change close) :=
  .change_aside (fun _ _ _ _ => rfl) fun _ h => nomatch h

theorem disconnect_mirrors (hH : Host.ClockAhead k H) :
    Mirrors (Scene.Ahead k H) (· = ·) (disconnect : Act ω Unit) disconnect :=
  (send_mirrors hH _).bind_eq fun _ => close_mirrors

theorem disconnectWithReason_mirrors (hH : Host.ClockAhead k H) (reason : UInt8)
    (properties : Bytes) :
    Mirrors (Scene.Ahead k H) (· = ·) (disconnectWithReason reason properties : Act ω Unit)
      (disconnectWithReason reason properties) :=
  .session_bind (fun _ _ _ _ => rfl) fun _ => .check <| (Mirrors.ofResult _).bind_eq fun _ =>
    (Mirrors.ofResult _).bind_eq fun _ => (send_mirrors hH _).bind_eq fun _ => close_mirrors

end Session

/-- A call does the same on both. -/
theorem Call.perform_mirrors (hH : Host.ClockAhead k H) (call : Call) :
    Act.Mirrors (Scene.Ahead k H) (· = ·) (call.perform : Act ω Answer) call.perform := by
  cases call with
  | connect c timeout => exact (Session.connect_mirrors hH c timeout).bind_eq fun _ => .pure rfl
  | publish m id => exact (Session.publish_mirrors hH m id).bind_eq fun _ => .pure rfl
  | subscribe subscriptions properties id =>
    exact (Session.subscribe_mirrors hH subscriptions properties id).bind_eq fun _ => .pure rfl
  | unsubscribe filters properties id =>
    exact (Session.unsubscribe_mirrors hH filters properties id).bind_eq fun _ => .pure rfl
  | disconnect => exact (Session.disconnect_mirrors hH).bind_eq fun _ => .pure rfl
  | disconnectWithReason reason properties =>
    exact (Session.disconnectWithReason_mirrors hH reason properties).bind_eq fun _ => .pure rfl
  | ping => exact (Session.ping_mirrors hH).bind_eq fun _ => .pure rfl
  | takePacketId =>
    exact .session_bind (fun _ _ _ _ => rfl) fun _ =>
      .change_aside_bind (fun _ _ _ _ => rfl) (fun _ => id) fun _ => .pure rfl
  | receive managed => exact (Session.receive_mirrors hH managed).bind_eq fun _ => .pure rfl

/-! ## Runs of both -/

namespace HostCall

/-- What a call is on a clock that is `k` milliseconds ahead. -/
def ahead (k : UInt32) : HostCall → HostCall
  | now time => now (time + k)
  | c => c

@[simp] theorem taken_ahead (c : HostCall) : (c.ahead k).taken = c.taken := by
  cases c <;> rfl

@[simp] theorem event?_ahead (c : HostCall) : (c.ahead k).event? = c.event? := by
  cases c <;> rfl

end HostCall

theorem written_ahead (calls : List HostCall) :
    written (calls.map (HostCall.ahead k)) = written calls := by
  induction calls with
  | nil => rfl
  | cons c calls ih => rw [List.map_cons, written_cons, written_cons, ih, HostCall.taken_ahead]

theorem reported_ahead (calls : List HostCall) :
    reported (calls.map (HostCall.ahead k)) = reported calls := by
  induction calls with
  | nil => rfl
  | cons c calls ih => rw [List.map_cons, reported_cons, reported_cons, ih, HostCall.event?_ahead]

/-- Of two watched hosts the second is a copy whose clock is `k` milliseconds ahead, and both have
been called alike since the calls in `base` and `base'`. -/
structure Watched.Ahead (k : UInt32) (H : ω → ω → Prop) (base base' : List HostCall)
    (w w' : Watched ω) : Prop where
  host : H w.host w'.host
  calls : ∃ calls, w.calls = calls ++ base ∧ w'.calls = calls.map (HostCall.ahead k) ++ base'

omit [Host ω] in
/-- Both are called once more. -/
theorem Watched.Ahead.called {base base' : List HostCall} {w w' : Watched ω}
    (h : Watched.Ahead k H base base' w w') {host host' : ω} (hhost : H host host')
    {c c' : HostCall} (hc : c' = c.ahead k) :
    Watched.Ahead k H base base' ⟨host, c :: w.calls⟩ ⟨host', c' :: w'.calls⟩ := by
  obtain ⟨calls, hcalls, hcalls'⟩ := h.calls
  exact ⟨hhost, c :: calls, by rw [hcalls, List.cons_append],
    by rw [hcalls', hc, List.map_cons, List.cons_append]⟩

/-- Watching makes no difference. -/
theorem Host.ClockAhead.watched (hH : Host.ClockAhead k H) (base base' : List HostCall) :
    Host.ClockAhead k (Watched.Ahead k H base base') where
  read n _ _ hw :=
    have ⟨hanswer, hhost⟩ := hH.read n _ _ hw.host
    ⟨hanswer, hw.called hhost (congrArg (HostCall.read n) hanswer.symm)⟩
  write spans _ _ hw :=
    have ⟨hanswer, hhost⟩ := hH.write spans _ _ hw.host
    ⟨hanswer, hw.called hhost (congrArg (HostCall.write spans) hanswer.symm)⟩
  flush _ _ hw :=
    have ⟨hanswer, hhost⟩ := hH.flush _ _ hw.host
    ⟨hanswer, hw.called hhost (congrArg HostCall.flush hanswer.symm)⟩
  now _ _ hw :=
    have ⟨htime, hhost⟩ := hH.now _ _ hw.host
    ⟨htime, hw.called hhost (congrArg HostCall.now htime)⟩
  enter _ _ hw := hw.called (hH.enter _ _ hw.host) rfl
  exit _ _ hw := hw.called (hH.exit _ _ hw.host) rfl
  tracking _ _ hw := hw.called (hH.tracking _ _ hw.host) rfl
  notify event _ _ hw := hw.called (hH.notify event _ _ hw.host) rfl
  patience _ _ hw := hH.patience _ _ hw.host

/-- Two steps that ask for the same, answer the same and make the same calls, but for the time. The
second is one of a copy whose clock is `k` milliseconds ahead, before the step and after it. -/
structure Step.Ahead (k : UInt32) (H : ω → ω → Prop) (s s' : Step ω) : Prop where
  call : s'.call = s.call
  result : s'.result = s.result
  calls : s'.calls = s.calls.map (HostCall.ahead k)
  before : s.before.session.Ahead k s'.before.session
  after : s.after.session.Ahead k s'.after.session
  host : H s.after.host.host s'.after.host.host

/-- Two clients, of which the second is a copy with its clock ahead, take the same steps for as long
as the same is asked of both, and their hosts change alike in between. -/
theorem stepsAmid_ahead (hH : Host.ClockAhead k H) {plan plan' : List ((ω → ω) × Call)}
    (hplan : List.Forall₂ (fun p p' => p'.2 = p.2 ∧ ∀ h h', H h h' → H (p.1 h) (p'.1 h'))
      plan plan') {σ σ' : Scene (Watched ω)} (hsession : σ.session.Ahead k σ'.session)
    (hhost : H σ.host.host σ'.host.host) :
    List.Forall₂ (Step.Ahead k H) (stepsAmid σ plan) (stepsAmid σ' plan') := by
  induction hplan generalizing σ σ' with
  | nil => exact .nil
  | @cons first first' rest rest' hfirst _ ih =>
    obtain ⟨change, c⟩ := first
    obtain ⟨change', c'⟩ := first'
    obtain ⟨hsame, hchange⟩ := hfirst
    cases (show c' = c from hsame)
    have hstart : Scene.Ahead k (Watched.Ahead k H σ.host.calls σ'.host.calls)
        (σ.meanwhile change) (σ'.meanwhile change') :=
      ⟨hsession, hchange _ _ hhost, [], rfl, rfl⟩
    have hends := Call.perform_mirrors (hH.watched σ.host.calls σ'.host.calls) c _ _ hstart
    generalize hrun : c.perform.runOn (σ.meanwhile change) = ending,
      hrun' : c.perform.runOn (σ'.meanwhile change') = ending' at hends
    cases hends with
    | none =>
      rw [stepsAmid_of_none hrun, stepsAmid_of_none hrun']
      exact .nil
    | some hends =>
      obtain ⟨hresult, hafter, hwatched⟩ := hends
      obtain ⟨calls, hcalls, hcalls'⟩ := hwatched.calls
      rw [stepsAmid_of_some hrun, stepsAmid_of_some hrun']
      refine .cons ⟨rfl, hresult.eq.symm, ?_, hsession, hafter, hwatched.host⟩
        (ih hafter hwatched.host)
      rw [Step.calls_eq hcalls', Step.calls_eq hcalls]

/-- **A clock that wraps makes no difference.** A client that has just connected and a copy of it
whose clock is `k` milliseconds ahead, on hosts that stay alike but for the clock, give the same
results, make the same calls at times that are `k` apart, write the same bytes and report the same
packets, whatever is asked of both. Where one gives no answer, so does the other. -/
theorem run_ahead (hH : Host.ClockAhead k H) {opening : Step ω} (hopens : opening.Connects)
    {copy : Scene (Watched ω)}
    (hcopy : copy.session = { opening.after.session with
      lastTx := opening.after.session.lastTx + k, lastRx := opening.after.session.lastRx + k })
    (hhost : H opening.after.host.host copy.host.host) {plan plan' : List ((ω → ω) × Call)}
    (hplan : List.Forall₂ (fun p p' => p'.2 = p.2 ∧ ∀ h h', H h h' → H (p.1 h) (p'.1 h'))
      plan plan') :
    List.Forall₂ (fun s s' => s.Ahead k H s' ∧ written s'.calls = written s.calls ∧
      reported s'.calls = reported s.calls)
      (stepsAmid opening.after plan) (stepsAmid copy plan') := by
  have hawaits : opening.after.session.awaitsPingresp = false := by
    obtain ⟨c, timeout, present, hcall, hresult⟩ := hopens
    exact Session.awaitsPingresp_of_connect (opening.connects_ok hcall hresult)
  have hsession : opening.after.session.Ahead k copy.session :=
    ⟨_, hcopy, fun h => absurd (hawaits.symm.trans h) (by decide)⟩
  refine (stepsAmid_ahead hH hplan hsession hhost).imp fun s s' h => ⟨h, ?_, ?_⟩
  · rw [h.calls, written_ahead]
  · rw [h.calls, reported_ahead]

namespace Scripted

/-- A scripted host with its clock ahead. -/
def ahead (k : UInt32) (h : Scripted) : Scripted := { h with clock := h.clock + k }

variable (h : Scripted)

theorem read_ahead (asked : ℕ) :
    (h.ahead k).read asked = ((h.read asked).1, (h.read asked).2.ahead k) := by
  obtain ⟨incoming, reads⟩ := h
  rcases reads with _ | ⟨turn, reads⟩
  · rfl
  · cases turn <;> rfl

theorem writeRun_ahead (offered : Bytes) (lengths : Option (List ℕ)) :
    writeRun offered lengths (h.ahead k) =
      ((h.writeRun offered lengths).1, (h.writeRun offered lengths).2.ahead k) := by
  obtain ⟨incoming, reads, writes⟩ := h
  rcases writes with _ | ⟨turn, writes⟩
  · rfl
  · cases turn <;> rfl

theorem write_ahead (spans : List Bytes) :
    write spans (h.ahead k) = ((h.write spans).1, (h.write spans).2.ahead k) := by
  have hgathers : (h.ahead k).gathers = h.gathers := rfl
  rw [write, write, hgathers, writeRun_ahead]
  split
  · rfl
  · cases firstSpan? spans with
    | none => rfl
    | some span => exact writeRun_ahead h span none

theorem now_ahead : (h.ahead k).now = (h.now.1 + k, h.now.2.ahead k) := by
  obtain ⟨incoming, reads, writes, writeLimit, gathers, flushFails, guards, clock, ticks⟩ := h
  have hcomm : ∀ tick, (clock + k) + tick = (clock + tick) + k := by grind
  cases ticks <;> simp only [now, ahead, hcomm]

theorem guardMark_ahead (s : Sighting) :
    (h.ahead k).guardMark s = (h.guardMark s).ahead k := by
  obtain ⟨incoming, reads, writes, writeLimit, gathers, flushFails, guards⟩ := h
  cases guards <;> rfl

/-- A scripted host does the same on a clock that is ahead. -/
theorem clockAhead (k : UInt32) : Host.ClockAhead k fun h h' : Scripted => h' = h.ahead k where
  read n h _ hh := by
    rw [hh]
    exact ⟨(congrArg Prod.fst (read_ahead h n)).symm, congrArg Prod.snd (read_ahead h n)⟩
  write spans h _ hh := by
    rw [hh]
    exact ⟨(congrArg Prod.fst (write_ahead h spans)).symm, congrArg Prod.snd (write_ahead h spans)⟩
  flush h _ hh := by
    rw [hh]
    exact ⟨rfl, rfl⟩
  now h _ hh := by
    rw [hh]
    exact ⟨congrArg Prod.fst (now_ahead h), congrArg Prod.snd (now_ahead h)⟩
  enter h _ hh := hh ▸ guardMark_ahead h _
  exit h _ hh := hh ▸ guardMark_ahead h _
  tracking h _ hh := hh ▸ rfl
  notify event h _ hh := hh ▸ rfl
  patience h _ hh := hh ▸ rfl

end Scripted

/-- A client connects. -/
def opened : List (Step Scripted) :=
  stepsFrom
    { session := .create 16 (.empty 2 2) .v311 {}
      host := { host := { incoming := [0x20, 2, 0, 0] } } }
    [.connect { clientId := "c", keepAlive := 10 } 1000]

/-- Ten seconds go by, and the broker answers the ping. Then a message is published, the client
connects anew, and another ping is never answered. -/
def wrapPlan : List ((Scripted → Scripted) × Call) :=
  [(fun h => { h with ticks := [10000] }, .receive true),
    (fun h => { h with incoming := [0xD0, 0] }, .receive true),
    (id, .publish { topic := "a", qos := .atLeastOnce } 3),
    (fun h => { h with incoming := [0x20, 2, 0, 0] }, .connect { clientId := "c" } 1000),
    (id, .ping),
    (fun h => { h with ticks := [60000] }, .receive true)]

/-- The clock of the copy wraps during the first call. -/
theorem run_ahead_wrapping :
    ∃ opening ∈ opened, ∃ copy : Scene (Watched Scripted), opening.Connects ∧
      opening.after.session.lastTx = 8 ∧ copy.session.lastTx = 4294960008 ∧
      (stepsAmid opening.after wrapPlan).map Step.result =
        [.ok (.progress .noData), .ok (.progress (.packet 0xD0)), .ok .done,
          .ok (.session false), .ok .done, .error .keepAliveTimeout] ∧
      List.Forall₂ (fun s s' =>
        s.Ahead 4294960000 (fun h h' => h' = h.ahead 4294960000) s' ∧
          written s'.calls = written s.calls ∧ reported s'.calls = reported s.calls)
        (stepsAmid opening.after wrapPlan) (stepsAmid copy wrapPlan) := by
  obtain ⟨opening, hopening, hcall, hresult, htx, hresults⟩ : ∃ s ∈ opened,
      s.call = .connect { clientId := "c", keepAlive := 10 } 1000 ∧
        s.result = .ok (.session false) ∧ s.after.session.lastTx = 8 ∧
        (stepsAmid s.after wrapPlan).map Step.result =
          [.ok (.progress .noData), .ok (.progress (.packet 0xD0)), .ok .done,
            .ok (.session false), .ok .done, .error .keepAliveTimeout] := by decide +kernel
  have hopens : opening.Connects := ⟨_, _, _, hcall, hresult⟩
  have hplan : List.Forall₂ (fun p p' => p'.2 = p.2 ∧
      ∀ h h', h' = Scripted.ahead 4294960000 h → p'.1 h' = (p.1 h).ahead 4294960000)
      wrapPlan wrapPlan := by
    refine List.forall₂_same.mpr fun p hp => ⟨rfl, ?_⟩
    simp only [wrapPlan, List.mem_cons, List.not_mem_nil, or_false] at hp
    rcases hp with rfl | rfl | rfl | rfl | rfl | rfl <;> rintro h _ rfl <;> rfl
  refine ⟨opening, hopening, ⟨_, ⟨opening.after.host.host.ahead 4294960000, []⟩⟩, hopens, htx, ?_,
    hresults, run_ahead (Scripted.clockAhead _) hopens rfl rfl hplan⟩
  simp only [htx]
  decide

end MqttClient
