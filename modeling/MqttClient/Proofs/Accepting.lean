import MqttClient.Proofs.Sending

/-!
# Transports that accept writes

On a transport that takes every write in full and can be flushed, sending a packet succeeds.
-/
namespace MqttClient
variable {ω : Type} [Host ω]

/-- Hosts of this kind take every write in full and can be flushed, and stay of this kind, whatever
they are asked for but reads. -/
structure AcceptsWrites (P : ω → Prop) : Prop where
  write : ∀ h b, P h → b ≠ [] → (Host.write [b] h).1 = some b.length ∧ P (Host.write [b] h).2
  flush : ∀ h, P h → (Host.flush h).1 = true ∧ P (Host.flush h).2
  now : ∀ h, P h → P (Host.now h).2
  enter : ∀ h, P h → P (Host.enter h)
  exit : ∀ h, P h → P (Host.exit h)
  tracking : ∀ h, P h → P (Host.tracking h)
  notify : ∀ h event, P h → P (Host.notify event h)

namespace AcceptsWrites
variable {P : ω → Prop}

theorem track (hP : AcceptsWrites P) {h : ω} (hh : P h) : P (Act.trackedHost h) :=
  hP.exit _ (hP.tracking _ (hP.enter h hh))

/-- One write takes a span that is offered alone. -/
theorem offer (hP : AcceptsWrites P) {υ : Scene (Watched ω)} (hυ : P υ.host.host) {b : Bytes}
    (hne : b ≠ []) (n : ℕ) (start : UInt32) :
    (Session.offer (n + 1) start b.length [b]).runOn υ =
      some (.ok (), { υ with host := Host.exit (Host.write [b] (Host.enter υ.host)).2 }) := by
  have htaken : (Host.write [b] (Host.enter υ.host)).1 = some b.length :=
    (hP.write _ b (hP.enter _ hυ) hne).1
  have hspans : [b].dropWhile List.isEmpty = [b] := by simp [hne]
  rw [Session.offer, if_neg (by simpa using hne)]
  simp only [hspans]
  rw [Act.runOn_bind_of_ok (Act.runOn_guarded_host _ _), htaken]
  simp only [Nat.min_self, Nat.lt_irrefl, if_false, Nat.sub_self]
  exact Session.runOn_offer_zero n start _ _

/-- A packet in one span is sent. -/
theorem send (hP : AcceptsWrites P) {σ : Scene (Watched ω)} (hσ : P σ.host.host) {b : Bytes}
    (hne : b ≠ []) :
    ∃ τ t, (Session.send [b]).runOn σ = some (.ok (), τ) ∧
      τ.session = { σ.session with lastTx := t } ∧ P τ.host.host ∧
      written τ.host.calls = written σ.host.calls ++ b ∧
      reported τ.host.calls = reported σ.host.calls := by
  have hnow := hP.now _ hσ
  have hexit := hP.exit _ (hP.write _ b (hP.enter _ hnow) hne).2
  obtain ⟨hflushed, hflush⟩ := hP.flush _ hexit
  have hend := hP.now _ hflush
  -- The host as the writes leave it.
  obtain ⟨w, hw⟩ : ∃ w, w = Host.exit (Host.write [b] (Host.enter (Host.now σ.host).2)).2 :=
    ⟨_, rfl⟩
  have hrun : ∃ τ, (Session.send [b]).runOn σ = some (.ok (), τ) ∧ P τ.host.host := by
    obtain ⟨m, hm⟩ := Nat.exists_eq_add_one.mpr (List.length_pos_iff.mpr hne)
    have hsize : Spans.size [b] = b.length := by simp [Spans.size]
    have hbound : ∀ n, n + b.length = n + m + 1 := by omega
    have hflushed' : (Host.flush w).1 = true := hw ▸ hflushed
    refine ⟨⟨{ σ.session with lastTx := (Host.now (Host.flush w).2).1 },
      (Host.now (Host.flush w).2).2⟩, ?_, hw ▸ hend⟩
    rw [Session.send, Act.runOn_bind_of_ok (Act.runOn_now _)]
    rw [Act.runOn_bind_of_ok (Act.runOn_get _), hsize, hbound]
    rw [Act.runOn_bind_of_ok (hP.offer hnow hne _ _), ← hw]
    rw [Act.runOn_bind_of_ok (Act.runOn_host _ _), hflushed']
    rfl
  obtain ⟨τ, hrun, hτ⟩ := hrun
  obtain ⟨k, calls, hcalls, hsend, -, ⟨-, hk, t, hsession⟩ | ⟨hr, -⟩⟩ := Session.send_inv hrun
  · refine ⟨τ, t, hrun, hsession, hτ, ?_, ?_⟩
    · rw [hcalls, written_append, hsend.taken, hk, List.take_length]
      simp
    · rw [hcalls, reported_append, reported_eq_nil_of_sending hsend.sending, List.append_nil]
  · cases hr

/-- An acknowledgement that its exchange owes is sent and noted. -/
theorem sendAck (hP : AcceptsWrites P) {σ : Scene (Watched ω)} (hσ : P σ.host.host) {id : UInt16}
    {state next : ExchangeState} {ack : AckKind} {exchanges : ExchangeTable}
    (hack : state.ackToSend = some ack) (hid : id ≠ 0)
    (hnote : σ.session.exchanges.onAck id ack .sent = .ok (next, exchanges)) :
    ∃ τ, (Session.sendAck id state).runOn σ = some (.ok (), τ) ∧
      τ.session.exchanges = exchanges := by
  obtain ⟨υ, t, hsend, hsession, -⟩ := hP.send hσ (Ack.wire_ne_nil ack id)
  have hnote' : υ.session.exchanges.onAck id ack .sent = .ok (next, exchanges) := by
    rw [hsession]
    exact hnote
  rw [Session.sendAck_of_some hack hid, Act.runOn_bind_of_ok hsend,
    Act.runOn_bind_of_ok (Act.runOn_track_ok hnote')]
  exact ⟨_, rfl, rfl⟩

end AcceptsWrites

end MqttClient
