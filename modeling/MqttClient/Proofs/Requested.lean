import MqttClient.Proofs.Silence

/-!
# The exchanges along a run

Whatever a program asks of its client, and whatever arrives, the table of open exchanges changes
only as the requests change it that a table may be asked for (`Requested`). So what holds of a
table after any requests holds before every call of a new client: its identifiers are distinct and
not zero, its records stay in their flows, and they are no more than there is room for.
-/
namespace MqttClient
variable {ω : Type}

/-- From one scene to the other the exchanges have only been asked for something. -/
def Requested (σ τ : Scene ω) : Prop :=
  ∃ requests, τ.session.exchanges = σ.session.exchanges.run requests

namespace Requested
variable {σ τ : Scene ω}

theorem of_eq (h : τ.session.exchanges = σ.session.exchanges) : Requested σ τ := ⟨[], h⟩

theorem of_after {request : ExchangeTable.Request}
    (h : τ.session.exchanges = σ.session.exchanges.after request) : Requested σ τ := ⟨[request], h⟩

/-- A table as it should be stays one, with the same room. -/
theorem valid (h : Requested σ τ) (hvalid : σ.session.exchanges.Valid) :
    τ.session.exchanges.Valid := by
  obtain ⟨requests, h⟩ := h
  rw [h]
  exact (hvalid.run requests).1

end Requested

instance : IsPreorder (Scene ω) Requested where
  refl _ := .of_eq rfl
  trans _ _ _ := by
    rintro ⟨requests, h⟩ ⟨later, h'⟩
    exact ⟨requests ++ later, by rw [h', h, ExchangeTable.run_append]⟩

theorem Silent.requested {σ τ : Scene (Watched ω)} (h : Silent σ τ) : Requested σ τ :=
  .of_eq h.exchanges

variable [Host ω]

namespace Session

theorem listens_requested : Listens (@Requested (Watched ω)) where
  toInward := inward_silent.mono fun _ _ => Silent.requested
  send spans := (send_silent spans).mono fun _ _ => Silent.requested
  track hstep := .track (fun σ a t h => by
    obtain ⟨request, ht⟩ := hstep σ.session.exchanges a t h
    exact .of_after ht) fun _ => .of_eq rfl
  report _ := .hostDo fun _ => .of_eq rfl
  grow _ := .change fun _ => .of_eq rfl
  wait := .change fun _ => .of_eq rfl
  answer := .change fun _ => .of_eq rfl
  consume _ := .change fun _ => .of_eq rfl
  stamp _ := .change fun _ => .of_eq rfl

theorem connect_requested (c : Connect) (timeout : UInt32) :
    Act.Keeps (@Requested (Watched ω)) (connect c timeout) := by
  have hhandshake := (handshake_silent (ω := ω) c timeout).mono fun _ _ => Silent.requested
  have hestablish := (establish_silent (ω := ω) c).mono fun _ _ => Silent.requested
  rw [connect_eq]
  exact hhandshake.bind fun _ => (listens_requested.resume _).bind fun _ =>
    hestablish.bind fun _ => .pure _

end Session

/-- No call changes the exchanges in any other way. -/
theorem Step.requested (s : Step ω) : Requested s.before s.after :=
  s.call.perform_keeps Session.listens_requested.toOutward
    (fun _ _ _ => Session.connect_requested _ _) (fun _ => .change fun _ => .of_eq rfl)
    (fun _ => Session.listens_requested.ping) (.change fun _ => .of_eq rfl)
    (fun _ _ => Session.listens_requested.receive _ (.change fun _ => .of_eq rfl))
    s.before s.result s.after s.performed

/-- Along the run of a client that begins without exchanges, the table is as it should be. -/
theorem valid_of_isRun {steps : List (Step ω)} (hrun : IsRun steps)
    (hnew : ∀ s ∈ steps.head?, ∃ capacity m n version settings,
      s.before.session = .create capacity (.empty m n) version settings) :
    ∀ s ∈ steps, s.before.session.exchanges.Valid := by
  refine before_of_isRun (P := fun s => s.exchanges.Valid) hrun (fun s hs => ?_)
    fun s _ => s.requested.valid
  obtain ⟨capacity, m, n, version, settings, hcreate⟩ := hnew s hs
  rw [hcreate]
  exact ExchangeTable.valid_empty m n

end MqttClient
