import MqttClient.Proofs.Faultless
import MqttClient.Proofs.Handling

/-!
# Handling packets in lockstep

Handling a packet looks neither at the network buffer nor at the times of the last packets. On a
faultless transport it therefore does the same to two scenes that differ in nothing else
(`dispatch_matches`), and it leaves the buffer and the bytes that are still to arrive alone.
-/
namespace MqttClient

/-- A session apart from its network buffer and the times of its last packets. -/
def Session.course (s : Session) : Session :=
  { s with buffer := [], filled := 0, lastTx := 0, lastRx := 0 }

/-- What receiving works on: the network buffer and the bytes that are still to arrive. -/
structure Inbox where
  version : Version
  buffer : Bytes
  filled : ℕ
  unread : Bytes
  pauses : ℕ

variable {ω : Type}

/-- The same has been reported and written on both sides, and the sessions have taken the same
course. -/
structure Alike (σ σ' : Scene (Watched ω)) : Prop where
  course : σ.session.course = σ'.session.course
  reported : reported σ.host.calls = reported σ'.host.calls
  written : written σ.host.calls = written σ'.host.calls

/-- The inbox of a scene. -/
def Stream.inbox (s : Stream ω) (σ : Scene (Watched ω)) : Inbox where
  version := σ.session.version
  buffer := σ.session.buffer
  filled := σ.session.filled
  unread := s.unread σ.host.host
  pauses := s.pauses σ.host.host

/-- Two scenes alike, both with a working transport. The inbox of the first is given. -/
structure Abreast (s : Stream ω) (inbox : Inbox) (σ σ' : Scene (Watched ω)) : Prop
    extends Alike σ σ' where
  works : s.Works σ.host.host
  works' : s.Works σ'.host.host
  inbox_eq : s.inbox σ = inbox

namespace Abreast
variable {s : Stream ω} {inbox : Inbox} {σ σ' τ τ' : Scene (Watched ω)}

/-- Two steps that report and write the same and leave the inbox alone. -/
theorem step (h : Abreast s inbox σ σ') (events : List Event) (bytes : Bytes)
    (hcourse : τ.session.course = τ'.session.course)
    (hversion : τ.session.version = σ.session.version)
    (hbuffer : τ.session.buffer = σ.session.buffer) (hfilled : τ.session.filled = σ.session.filled)
    (hstill : s.Still σ.host.host τ.host.host) (hstill' : s.Still σ'.host.host τ'.host.host)
    (hreported : reported τ.host.calls = reported σ.host.calls ++ events)
    (hreported' : reported τ'.host.calls = reported σ'.host.calls ++ events)
    (hwritten : written τ.host.calls = written σ.host.calls ++ bytes)
    (hwritten' : written τ'.host.calls = written σ'.host.calls ++ bytes) :
    Abreast s inbox τ τ' where
  course := hcourse
  reported := by rw [hreported, hreported', h.reported]
  written := by rw [hwritten, hwritten', h.written]
  works := hstill.works
  works' := hstill'.works
  inbox_eq := by
    rw [← h.inbox_eq]
    simp only [Stream.inbox, hversion, hbuffer, hfilled, hstill.unread, hstill.pauses]

end Abreast

namespace Session
variable [Host ω] {s : Stream ω} {inbox : Inbox}

omit [Host ω] in
/-- What handling a packet asks of a session is the same on both sides. -/
theorem session_matches :
    Act.Matches (Abreast s inbox)
      (fun a a' => a'.version = a.version ∧ a'.negotiated = a.negotiated)
      Act.session Act.session := by
  intro σ σ' h
  refine ⟨_, σ, _, σ', rfl, rfl, .ok ⟨?_, ?_⟩, h⟩
  · exact (congrArg Session.version h.course :).symm
  · exact (congrArg Session.negotiated h.course :).symm

omit [Host ω] in
/-- A change of the session that has nothing to do with the inbox. -/
theorem change_matches {f : Session → Session}
    (hcourse : ∀ a a' : Session, a.course = a'.course → (f a).course = (f a').course)
    (hinbox : ∀ a, (f a).version = a.version ∧ (f a).buffer = a.buffer ∧
      (f a).filled = a.filled) :
    Act.Matches (Abreast s inbox) (· = ·) (Act.change f) (Act.change f) := by
  intro σ σ' h
  refine ⟨_, _, _, _, Act.runOn_change f σ, Act.runOn_change f σ', .ok rfl, ?_⟩
  obtain ⟨hversion, hbuffer, hfilled⟩ := hinbox σ.session
  exact h.step [] [] (hcourse _ _ h.course) hversion hbuffer hfilled ⟨h.works, rfl, rfl⟩
    ⟨h.works', rfl, rfl⟩ (by simp) (by simp) (by simp) (by simp)

theorem report_matches (hs : s.Faultless) (event : Event) :
    Act.Matches (Abreast s inbox) (· = ·) (report event) (report event) := by
  intro σ σ' h
  refine ⟨_, _, _, _, rfl, rfl, .ok rfl, ?_⟩
  exact h.step [event] [] h.course rfl rfl rfl (hs.notify _ _ h.works) (hs.notify _ _ h.works')
    (by simp [HostCall.event?]) (by simp [HostCall.event?]) (by simp [HostCall.taken])
    (by simp [HostCall.taken])

theorem track_matches (hs : s.Faultless) {α : Type}
    (step : ExchangeTable → Except Fault (α × ExchangeTable)) :
    Act.Matches (Abreast s inbox) (· = ·) (Act.track step) (Act.track step) := by
  have htracked : ∀ w : Watched ω,
      reported (Act.trackedHost w).calls = reported w.calls ++ [] ∧
      written (Act.trackedHost w).calls = written w.calls ++ [] := by
    intro w
    simp [Act.trackedHost, HostCall.event?, HostCall.taken]
  refine Act.Matches.track step ?_ ?_ ?_
  · intro σ σ' h
    exact congrArg (·.exchanges) h.course
  · intro σ σ' exchanges h
    refine h.step [] [] ?_ rfl rfl rfl (hs.track h.works) (hs.track h.works') (htracked _).1
      (htracked _).1 (htracked _).2 (htracked _).2
    exact congrArg (fun t : Session => { t with exchanges }) h.course
  · intro σ σ' h
    exact h.step [] [] h.course rfl rfl rfl (hs.track h.works) (hs.track h.works') (htracked _).1
      (htracked _).1 (htracked _).2 (htracked _).2

theorem send_matches (hs : s.Faultless) {b : Bytes} (hne : b ≠ []) :
    Act.Matches (Abreast s inbox) (· = ·) (send [b]) (send [b]) := by
  intro σ σ' h
  obtain ⟨τ, t, hrun, hsession, hstill, hwritten, hreported⟩ := hs.send h.works hne
  obtain ⟨τ', t', hrun', hsession', hstill', hwritten', hreported'⟩ := hs.send h.works' hne
  refine ⟨_, τ, _, τ', hrun, hrun', .ok rfl, ?_⟩
  refine h.step [] b ?_ (by rw [hsession]) (by rw [hsession]) (by rw [hsession]) hstill hstill'
    (by simp [hreported]) (by simp [hreported']) hwritten hwritten'
  rw [hsession, hsession']
  exact h.course

theorem sendAck_matches (hs : s.Faultless) (id : UInt16) (state : ExchangeState) :
    Act.Matches (Abreast s inbox) (· = ·) (sendAck id state) (sendAck id state) := by
  refine sendAck_elim id state (.pure rfl) (fun _ => .throw _) fun ack _ => ?_
  refine (send_matches hs (Ack.wire_ne_nil ack id)).bind ?_
  rintro _ _ -
  refine (track_matches hs _).bind ?_
  rintro result _ rfl
  refine (Act.Matches.ofResult result).bind ?_
  rintro _ _ -
  exact .pure rfl

/-- Comparing runs of scenes abreast goes through all that handling a packet is made of. -/
theorem handles_matches (hs : s.Faultless) :
    Handles fun α (act act' : Act (Watched ω) α) =>
      Act.Matches (Abreast s inbox) (· = ·) act act' where
  pure _ := .pure rfl
  throw := .throw
  bind h hf := h.bind fun a _ ha => ha ▸ hf a
  session_bind h := session_matches.bind fun s s' hs => h s s' hs.1 hs.2
  report := report_matches hs
  track := track_matches hs
  sendAck := sendAck_matches hs
  answered := change_matches
    (fun _ _ h => congrArg (fun t : Session => { t with awaitsPingresp := false }) h)
    fun _ => ⟨rfl, rfl, rfl⟩
  ended := change_matches
    (fun _ _ h => congrArg (fun t : Session => { t with status := .notConnected }) h)
    fun _ => ⟨rfl, rfl, rfl⟩

/-- Handling a packet does the same to two scenes abreast. -/
theorem dispatch_matches (hs : s.Faultless) (managed : Bool) (packet : Packet) :
    Act.Matches (Abreast s inbox) (· = ·) (dispatch managed packet)
      (dispatch managed packet) :=
  (handles_matches hs).dispatch managed packet

end Session

end MqttClient
