import MqttClient.Proofs.Acknowledgements
import MqttClient.Proofs.Alternating
import MqttClient.Proofs.Status
import MqttClient.Proofs.Wire.Suback

/-!
# What becomes of an answer to a subscription

A SUBACK or an UNSUBACK is reported, and nothing else comes of it: no exchange moves on, and the
status of the client stays what it is. One that is malformed or has an unknown code is refused and
not reported (`Step.hears_verdict`).
-/
namespace MqttClient
variable {ω : Type} [Host ω]

namespace Session

theorem dispatch_suback {packet : Packet} {type : PacketType} (managed : Bool)
    (htype : type = .suback ∨ type = .unsuback)
    (hfirst : PacketType.ofFirstByte? packet.firstByte = some type) :
    (dispatch managed packet : Act ω Unit) = handleSuback packet := by
  rw [dispatch, hfirst]
  rcases htype with rfl | rfl <;> rfl

/-- Handling an answer is reporting it, if it is not refused. -/
theorem handleSuback_inv {packet : Packet} {σ τ : Scene (Watched ω)} {r : Except Fault Unit}
    (h : (handleSuback packet).runOn σ = some (r, τ)) :
    let event? := Suback.event? σ.session.version packet
    r = event?.elim (.error .badResponse) (fun _ => .ok ()) ∧
      τ.session.exchanges = σ.session.exchanges ∧
      τ.host.calls = event?.toList.map .notify ++ σ.host.calls := by
  rw [handleSuback, Act.runOn_bind_of_ok (Act.runOn_session _)] at h
  dsimp only [Suback.event?] at h ⊢
  cases hdecode : Suback.decode σ.session.version packet with
  | error fault =>
    rw [hdecode, Suback.decode_error hdecode] at h
    cases h
    exact ⟨rfl, rfl, rfl⟩
  | ok s =>
    rw [hdecode, Act.runOn_bind_of_ok (Act.runOn_ofResult _ _)] at h
    dsimp only
    generalize s.verdict (kindBits packet.firstByte) σ.session.version = verdict? at h ⊢
    cases verdict? <;> cases h <;> exact ⟨rfl, rfl, rfl⟩

/-- A call that dispatches an answer does not change the status. -/
theorem status_of_receive_suback {managed : Bool} {packet : Packet} {σ υ τ : Scene (Watched ω)}
    {type : PacketType} {r : Except Fault Progress} (h : Dispatches managed packet σ υ)
    (htype : type = .suback ∨ type = .unsuback)
    (hfirst : PacketType.ofFirstByte? packet.firstByte = some type)
    (hrun : (receive managed).runOn σ = some (r, τ)) :
    τ.session.status = σ.session.status := by
  rcases status_of_receive hrun with ⟨⟨packet', υ', h', hends, -⟩, -⟩ | ⟨-, hstatus⟩
  · cases h.arrives.symm.trans h'.arrives
    cases h.whole.symm.trans h'.whole
    rw [hfirst] at hends
    rcases htype with rfl | rfl <;> cases hends
  · exact hstatus

end Session

namespace Step
variable {s : Step ω} {managed : Bool} {packet : Packet} {υ : Scene (Watched ω)}
  {type : PacketType}

/-- A call that dispatches an answer reports it or refuses it, and that is all. -/
theorem ends_suback (hcall : s.call = .receive managed)
    (hdispatches : Session.Dispatches managed packet s.before υ)
    (htype : type = .suback ∨ type = .unsuback)
    (hfirst : PacketType.ofFirstByte? packet.firstByte = some type) :
    let event? := Suback.event? s.before.session.version packet
    s.result = event?.elim (.error .badResponse)
        (fun _ => .ok (.progress (.packet packet.firstByte))) ∧
      reported s.calls = event?.toList ∧
      s.after.session.exchanges = s.before.session.exchanges ∧
      s.after.session.status = s.before.session.status ∧
      ∃ before after k, υ.host.calls = before ++ s.before.host.calls ∧
        s.after.host.calls = after ++ υ.host.calls ∧ written before = Ping.request.take k ∧
        written after = [] := by
  dsimp only
  obtain ⟨r, hreceive, hresult⟩ := s.receives_map hcall
  obtain ⟨hversion, -, hexchanges, k, before, hbefore, hsilent, hping⟩ :=
    Session.arrive_keeps hdispatches.arrives
  obtain ⟨r', τ', later, hdispatch, hr, hsame, hlater, hwritten, hreported⟩ :=
    hdispatches.receive_inv hreceive
  rw [Session.dispatch_suback managed htype hfirst] at hdispatch
  obtain ⟨hr', hkept, hcalls⟩ := Session.handleSuback_inv hdispatch
  rw [hversion] at hr' hcalls
  generalize Suback.event? s.before.session.version packet = event? at hr' hcalls ⊢
  have hnotified : reported (event?.toList.map .notify) = event?.toList ∧
      written (event?.toList.map .notify) = [] := by
    cases event? <;> exact ⟨rfl, rfl⟩
  have hafter : s.after.host.calls = (later ++ event?.toList.map .notify) ++ υ.host.calls := by
    rw [hlater, hcalls, List.append_assoc]
  have hall : s.calls = (later ++ event?.toList.map .notify) ++ before :=
    s.calls_eq (by simp only [hafter, hbefore, List.append_assoc])
  refine ⟨?_, ?_, hsame.trans (hkept.trans hexchanges),
    Session.status_of_receive_suback hdispatches htype hfirst hreceive, before, _, k, hbefore,
    hafter, hping, ?_⟩
  · rw [hresult, hr, hr']
    cases event? <;> rfl
  · simp only [hall, reported_append, hsilent, hreported, hnotified.1, List.append_nil,
      List.nil_append]
  · rw [written_append, hwritten, hnotified.2]
    rfl

/-- **What an answer to a subscription says.** A call that dispatches a SUBACK or an UNSUBACK fails
with `badResponse`, and reports nothing, just when the packet is malformed or has an unknown code.
If not, it reports the packet once, as refused if there are codes and all of them deny a request.
Handling it writes nothing and leaves the exchanges; the order of the codes does not matter. -/
theorem hears_verdict (hcall : s.call = .receive managed)
    (hdispatches : Session.Dispatches managed packet s.before υ)
    (htype : type = .suback ∨ type = .unsuback)
    (hfirst : PacketType.ofFirstByte? packet.firstByte = some type) :
    let version := s.before.session.version
    (s.result = .error .badResponse ∧ reported s.calls = [] ↔
      (¬∃ a, Suback.IsIn type version packet a) ∨
        ∃ a, Suback.IsIn type version packet a ∧ ∃ c ∈ a.codes, c ∉ Suback.known type version) ∧
    (∀ a, Suback.IsIn type version packet a → (∀ c ∈ a.codes, c ∈ Suback.known type version) →
      ∃ verdict, s.result = .ok (.progress (.packet packet.firstByte)) ∧
        reported s.calls = [a.event packet verdict] ∧
        (verdict = .accepted ↔ a.codes = [] ∨ ∃ c ∈ a.codes, c ∈ Suback.grants type) ∧
        (verdict = .refused ↔
          a.codes ≠ [] ∧ ∀ c ∈ a.codes, c ∈ Suback.denials type version)) ∧
    (s.after.session.exchanges = s.before.session.exchanges ∧
      s.after.session.status = s.before.session.status ∧
      ∃ before after k, υ.host.calls = before ++ s.before.host.calls ∧
        s.after.host.calls = after ++ υ.host.calls ∧ written before = Ping.request.take k ∧
        written after = []) ∧
    ∀ (s' : Step ω) managed' packet' υ', s'.call = .receive managed' →
      Session.Dispatches managed' packet' s'.before υ' → s'.before.session.version = version →
      packet'.firstByte = packet.firstByte →
      Suback.Reordered version packet.data packet'.data →
      s'.result = s.result ∧
        reported s'.calls = (reported s.calls).map fun e => { e with packet := packet' } := by
  intro version
  obtain ⟨hresult, hreported, hkept⟩ := ends_suback hcall hdispatches htype hfirst
  refine ⟨?_, fun a ha hknown => ?_, hkept, ?_⟩
  · rw [← Suback.event?_eq_none_iff htype hfirst, hresult, hreported]
    cases Suback.event? s.before.session.version packet <;> simp
  · have hevent := Suback.event?_of_isIn htype hfirst ha
    obtain ⟨verdict, hverdict⟩ : ∃ verdict, a.verdict type.firstByte version = some verdict := by
      rw [← Option.ne_none_iff_exists', ne_eq, Suback.verdict_eq_none_iff htype]
      rintro ⟨c, hc, hunknown⟩
      exact hunknown (hknown c hc)
    have haccepted := Suback.verdict_eq_accepted_iff htype hknown
    have hrefused := Suback.verdict_eq_refused_iff htype hknown
    rw [hverdict, Option.some_inj] at haccepted hrefused
    rw [hverdict] at hevent
    rw [hevent] at hresult hreported
    exact ⟨verdict, hresult, hreported, haccepted, hrefused⟩
  · intro s' managed' packet' υ' hcall' hdispatches' hversion hsame hreordered
    obtain ⟨hresult', hreported', -⟩ := ends_suback hcall' hdispatches' htype (hsame ▸ hfirst)
    have hevent := Suback.event?_reordered htype hfirst hreordered hsame
    rw [hversion, hevent] at hresult' hreported'
    rw [hresult', hreported', hresult, hreported, hsame]
    cases Suback.event? s.before.session.version packet <;> exact ⟨rfl, rfl⟩

end Step

/-- A connection to an MQTT 5 server that then sends a SUBACK with two codes. -/
def answeredWith (codes : Bytes) : List (Step Scripted) :=
  stepsFrom
    { session := .create 8 (.empty 1 0) .v5 {}
      host := { host := { incoming := [0x20, 3, 0, 0, 0, 0x90, 5, 0, 7, 0] ++ codes } } }
    [.connect { clientId := "c" } 1000, .receive false]

/-- This SUBACK, under identifier 7. -/
def sevenAnswered (codes : Bytes) : Packet :=
  { firstByte := 0x90, remaining := 5, length := 2, data := [0, 7, 0] ++ codes }

/-- Whichever of the filters is refused, the subscription is reported as accepted. -/
theorem hears_verdict_mixed :
    ∃ s ∈ answeredWith [1, 0x87], ∃ s' ∈ answeredWith [0x87, 1],
      s.result = .ok (.progress (.packet 0x90)) ∧ s'.result = s.result ∧
      reported s.calls = [Suback.event ⟨7, [1, 0x87], []⟩ (sevenAnswered [1, 0x87]) .accepted] ∧
      reported s'.calls = [Suback.event ⟨7, [0x87, 1], []⟩ (sevenAnswered [0x87, 1]) .accepted] ∧
      s.after.session.status = .connected := by
  have hfinds : ∀ codes ∈ ([[1, 0x87], [0x87, 1]] : List Bytes), ∃ s ∈ answeredWith codes,
      s.call = .receive false ∧ s.before.session.version = .v5 ∧
        s.before.session.status = .connected ∧
        Session.finds s = some (.ok (), some (sevenAnswered codes), true) := by decide +kernel
  obtain ⟨s, hs, hcall, hversion, hconnected, hfound⟩ := hfinds [1, 0x87] (by decide)
  obtain ⟨s', hs', hcall', hversion', -, hfound'⟩ := hfinds [0x87, 1] (by decide)
  obtain ⟨υ, hdispatches, -⟩ := Session.dispatches_of_finds hfound
  obtain ⟨υ', hdispatches', -⟩ := Session.dispatches_of_finds hfound'
  obtain ⟨-, hknown, ⟨-, hstatus, -⟩, horder⟩ :=
    Step.hears_verdict hcall hdispatches (.inl rfl) (by decide)
  rw [hversion] at hknown horder
  have hregion : Property.RegionFits .v5 [] := ⟨fun _ => by decide, nofun⟩
  have hanswer : Suback.IsIn .suback .v5 (sevenAnswered [1, 0x87]) ⟨7, [1, 0x87], []⟩ :=
    ⟨by decide, by decide, hregion, ⟨[], ⟨by simp, .nil⟩, rfl, by simp⟩, by simp⟩
  obtain ⟨verdict, hresult, hreported, haccepted, -⟩ := hknown _ hanswer (by decide +kernel)
  obtain rfl : verdict = .accepted := haccepted.mpr (.inr ⟨1, by decide, by decide⟩)
  have hreordered : Suback.Reordered .v5 (sevenAnswered [1, 0x87]).data
      (sevenAnswered [0x87, 1]).data :=
    ⟨⟨7, [1, 0x87], []⟩, [0x87, 1], hregion, .swap _ _ _, by decide, by decide⟩
  obtain ⟨hresult', hreported'⟩ :=
    horder s' false _ υ' hcall' hdispatches' hversion' rfl hreordered
  refine ⟨s, hs, s', hs', hresult, hresult', hreported, ?_, hstatus.trans hconnected⟩
  rw [hreported', hreported]
  rfl

end MqttClient
