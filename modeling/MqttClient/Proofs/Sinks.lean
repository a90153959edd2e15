import MqttClient.Proofs.Outward
import MqttClient.Proofs.Sending

/-!
# What the far end of a stream gets

A `Sink` is a view of a host from the far end of its stream. It is `Sink.Truthful` if each write
brings a front part of what it is offered and reports how long that is. Through such a stream a
packet gets to the far end from its first byte on, with no byte missing and none repeated, however
its writes are cut (`Session.send_exact`). Scripted hosts are truthful unless their scripts make
them claim counts, whether or not they gather spans.
-/
namespace MqttClient

/-- A view of a host from the far end of its stream. -/
structure Sink (ω : Type) where
  /-- Whether the stream reports what it does. -/
  Works : ω → Prop
  /-- The bytes that have been accepted. -/
  accepted : ω → Bytes

namespace Sink
variable {ω : Type} {s : Sink ω}

/-- A call leaves the stream working and brings it nothing. -/
structure Still (s : Sink ω) (h h' : ω) : Prop where
  works : s.Works h'
  accepted : s.accepted h' = s.accepted h

/-- A stream whose writes bring as many of the offered bytes as they report, from the first one
on. A write that fails brings none. -/
structure Truthful [Host ω] (s : Sink ω) : Prop where
  write : ∀ h spans, s.Works h → s.Works (Host.write spans h).2 ∧
    s.accepted (Host.write spans h).2 =
      s.accepted h ++ (HostCall.write spans (Host.write spans h).1).taken
  flush : ∀ h, s.Works h → s.Still h (Host.flush h).2
  now : ∀ h, s.Works h → s.Still h (Host.now h).2
  enter : ∀ h, s.Works h → s.Still h (Host.enter h)
  exit : ∀ h, s.Works h → s.Still h (Host.exit h)

end Sink

/-! ## Scripted hosts -/

theorem prefix_of_firstSpan? {spans : List Bytes} {span : Bytes}
    (h : firstSpan? spans = some span) : span <+: spans.flatten := by
  obtain ⟨-, before, after, rfl, hbefore⟩ := List.find?_eq_some_iff_append.mp h
  have hempty : before.flatten = [] := by
    rw [List.flatten_eq_nil_iff]
    intro b hb
    simpa using hbefore b hb
  rw [List.flatten_append, hempty, List.nil_append, List.flatten_cons]
  exact List.prefix_append _ _

/-- The bytes that a write took, whatever it claimed. -/
def Sighting.taken : Sighting → Bytes
  | write taken _ _ => taken
  | _ => []

namespace Scripted

/-- The far end of a scripted host's stream. -/
def sink : Sink Scripted where
  Works h := ∀ count, .claim count ∉ h.writes
  accepted h := h.seen.flatMap Sighting.taken

variable {h : Scripted}

@[simp] theorem accepted_see (h : Scripted) (s : Sighting) :
    sink.accepted (h.see s) = sink.accepted h ++ s.taken := by
  simp [sink, seen, see]

theorem still_see_sink (hworks : sink.Works h) {s : Sighting} (htaken : s.taken = []) :
    sink.Still h (h.see s) :=
  ⟨hworks, by rw [accepted_see, htaken, List.append_nil]⟩

theorem still_guardMark_sink (hworks : sink.Works h) {s : Sighting} (htaken : s.taken = []) :
    sink.Still h (h.guardMark s) := by
  unfold guardMark
  split
  · exact still_see_sink hworks htaken
  · exact ⟨hworks, rfl⟩

theorem still_now_sink (hworks : sink.Works h) : sink.Still h h.now.2 := by
  unfold now
  split <;> exact ⟨hworks, rfl⟩

/-- A front part of what a write is offered is taken, and the count says how long it is. -/
theorem take_truthful (h : Scripted) {offered : Bytes} {spans : List Bytes}
    (hfront : offered <+: spans.flatten) (lengths : Option (List ℕ)) (limit : Option ℕ) :
    sink.accepted (h.take offered lengths limit).2 =
      sink.accepted h ++ (HostCall.write spans (h.take offered lengths limit).1).taken := by
  obtain ⟨taken, htaken, heq⟩ : ∃ taken, taken <+: offered ∧
      h.take offered lengths limit = (some taken.length, h.see (.write taken lengths none)) := by
    cases limit with
    | none => exact ⟨offered, List.prefix_rfl, rfl⟩
    | some n => exact ⟨offered.take n, List.take_prefix n offered, rfl⟩
  rw [heq, accepted_see, HostCall.taken, ← List.prefix_iff_eq_take.mp (htaken.trans hfront)]
  rfl

theorem writeRun_truthful (hworks : sink.Works h) {offered : Bytes} {spans : List Bytes}
    (hfront : offered <+: spans.flatten) (lengths : Option (List ℕ)) :
    sink.Works (h.writeRun offered lengths).2 ∧
      sink.accepted (h.writeRun offered lengths).2 =
        sink.accepted h ++ (HostCall.write spans (h.writeRun offered lengths).1).taken := by
  rw [writeRun]
  cases hwrites : h.writes with
  | nil => exact ⟨hworks, take_truthful h hfront lengths h.writeLimit⟩
  | cons turn rest =>
    have hrest : sink.Works { h with writes := rest } := fun count hclaim =>
      hworks count (hwrites ▸ List.mem_cons_of_mem turn hclaim)
    cases turn with
    | move limit => exact ⟨hrest, take_truthful { h with writes := rest } hfront lengths limit⟩
    | fail => exact ⟨hrest, accepted_see { h with writes := rest } .writeFailed⟩
    | claim count => exact absurd (hwrites ▸ List.mem_cons_self) (hworks count)

theorem truthful_sink : sink.Truthful where
  write h spans hworks := by
    change sink.Works (h.write spans).2 ∧ sink.accepted (h.write spans).2 =
      sink.accepted h ++ (HostCall.write spans (h.write spans).1).taken
    rw [write]
    split
    · exact writeRun_truthful hworks List.prefix_rfl _
    · cases hspan : firstSpan? spans with
      | some span => exact writeRun_truthful hworks (prefix_of_firstSpan? hspan) none
      | none => exact ⟨hworks, by simp [HostCall.taken]⟩
  flush h hworks := still_see_sink hworks rfl
  now h hworks := still_now_sink hworks
  enter h hworks := still_guardMark_sink hworks rfl
  exit h hworks := still_guardMark_sink hworks rfl

end Scripted

/-! ## Sending -/

namespace Sink
variable {ω : Type} [Host ω] {s : Sink ω}

/-- What the calls have written, as far as the host says, is what has been accepted. -/
def Accepts (s : Sink ω) (σ τ : Scene (Watched ω)) : Prop :=
  s.Works σ.host.host → s.Works τ.host.host ∧ ∃ calls, τ.host.calls = calls ++ σ.host.calls ∧
    s.accepted τ.host.host = s.accepted σ.host.host ++ written calls

instance : IsPreorder (Scene (Watched ω)) s.Accepts where
  refl σ hworks := ⟨hworks, [], rfl, (List.append_nil _).symm⟩
  trans σ υ τ h h' hworks := by
    obtain ⟨hworks, calls, hcalls, haccepted⟩ := h hworks
    obtain ⟨hworks, later, hlater, haccepted'⟩ := h' hworks
    refine ⟨hworks, later ++ calls, ?_, ?_⟩
    · rw [hlater, hcalls, List.append_assoc]
    · rw [haccepted', haccepted, written_append, List.append_assoc]

omit [Host ω] in
theorem Still.accepts {σ τ : Scene (Watched ω)} {call : HostCall}
    (h : s.Works σ.host.host → s.Still σ.host.host τ.host.host)
    (hcalls : τ.host.calls = call :: σ.host.calls) (htaken : call.taken = []) : s.Accepts σ τ := by
  intro hworks
  obtain ⟨hworks, haccepted⟩ := h hworks
  refine ⟨hworks, [call], hcalls, ?_⟩
  rw [haccepted, written_cons, htaken, written_nil, List.append_nil, List.append_nil]

/-- Through a truthful stream, what is written is accepted. -/
theorem Truthful.send_accepts (hs : s.Truthful) (spans : List Bytes) :
    Act.Keeps s.Accepts (Session.send spans) := by
  refine Session.send_keeps (fun offered => ?_) (.host fun σ => ?_) (.host fun σ => ?_)
    (fun t => .change fun σ hworks => ⟨hworks, [], rfl, (List.append_nil _).symm⟩) spans
  · refine .guarded (.hostDo fun σ => ?_) (.host fun σ hworks => ?_) (.hostDo fun σ => ?_)
    · exact Still.accepts (hs.enter _) (Watched.calls_enter σ.host) rfl
    · obtain ⟨hworks, haccepted⟩ := hs.write σ.host.host offered hworks
      refine ⟨hworks, [_], Watched.calls_write offered σ.host, haccepted.trans ?_⟩
      rw [written_cons, written_nil, List.nil_append]
    · exact Still.accepts (hs.exit _) (Watched.calls_exit σ.host) rfl
  · exact Still.accepts (hs.now _) (Watched.calls_now σ.host) rfl
  · exact Still.accepts (hs.flush _) (Watched.calls_flush σ.host) rfl

end Sink

/-- **Sending is exact.** What a truthful stream accepts while a packet is being sent is at every
moment a front part of the packet. It is all of it when `send` succeeds, and then the flush has
succeeded too. A `send` that fails has seen a write or the flush fail, or it has looked at the
clock after an incomplete write and found the time up. (A `send` that is kept waiting for ever has
no end to speak of, but up to any moment it goes like one whose stream fails afterwards.) -/
theorem Session.send_exact {ω : Type} [Host ω] {s : Sink ω} (hs : s.Truthful)
    {spans : List Bytes} {σ τ : Scene (Watched ω)} {r : Except Fault Unit}
    (hworks : s.Works σ.host.host) (h : (send spans).runOn σ = some (r, τ)) :
    ∃ start calls, τ.host.calls = calls ++ .now start :: σ.host.calls ∧
      s.accepted τ.host.host = s.accepted σ.host.host ++ written calls ∧
      (∀ later earlier, calls = later ++ earlier → written earlier <+: spans.flatten) ∧
      (r = .ok () ∧ written calls = spans.flatten ∧
          (∃ t earlier, calls = .now t :: .flush true :: earlier) ∨
        r = .error .sendFailed ∧ SendFails σ.session.settings.sendTimeout start
          (spans.flatten.length - (written calls).length) calls) := by
  obtain ⟨start, k, calls, hcalls, hsend, -, hends⟩ := send_ends h
  obtain ⟨-, all, hall, haccepted⟩ := hs.send_accepts spans σ r τ h hworks
  have hsame : all = calls ++ [.now start] := by
    refine List.append_cancel_right (hall.symm.trans (hcalls.trans ?_))
    rw [List.append_assoc]
    rfl
  have hwritten : written all = written calls := by
    rw [hsame, written_append]
    rfl
  refine ⟨start, calls, hcalls, hwritten ▸ haccepted, ?_, ?_⟩
  · rintro later earlier rfl
    have hfront : written earlier <+: written (later ++ earlier) := by
      rw [written_append]
      exact List.prefix_append _ _
    exact hfront.trans (hsend.taken ▸ List.take_prefix k _)
  · rcases hends with ⟨hr, rfl, t, earlier, hlast, -⟩ | ⟨hr, -, hfails⟩
    · exact .inl ⟨hr, hsend.taken.trans List.take_length, t, earlier, hlast⟩
    · exact .inr ⟨hr, hsend.left ▸ hfails⟩

/-- A stream that takes one span at a time and pauses in between, and one that takes three of the
five bytes in a write that lasts too long. -/
theorem Session.send_exact_cut :
    let spans : List Bytes := [[1, 2], [], [3, 4, 5]]
    let on (host : Scripted) : Scene (Watched Scripted) :=
      ⟨.create 8 (.empty 1 1) .v311 {}, { host }⟩
    let slow : Scripted := { writes := [.move 1, .move 0, .move 9] }
    let late : Scripted := { writes := [.move 3], gathers := true, step := 20000 }
    Scripted.sink.Works slow ∧ Scripted.sink.Works late ∧
      (∃ τ, (send spans).runOn (on slow) = some (.ok (), τ) ∧
        Scripted.sink.accepted τ.host.host = spans.flatten) ∧
      ∃ τ start calls, (send spans).runOn (on late) = some (.error .sendFailed, τ) ∧
        Scripted.sink.accepted τ.host.host = [1, 2, 3] ∧
        τ.host.calls = calls ++ [.now start] ∧ SendFails 20000 start 2 calls := by
  intro spans on slow late
  have hslow : Scripted.sink.Works slow := by simp [Scripted.sink, slow]
  have hlate : Scripted.sink.Works late := by simp [Scripted.sink, late]
  refine ⟨hslow, hlate, ?_, ?_⟩
  · have hends : ((send spans).runOn (on slow)).map Prod.fst = some (.ok ()) := by decide +kernel
    obtain ⟨⟨_, τ⟩, hrun, rfl⟩ := Option.map_eq_some_iff.mp hends
    obtain ⟨-, calls, -, haccepted, -, ⟨-, hwritten, -⟩ | ⟨hr, -⟩⟩ :=
      send_exact Scripted.truthful_sink hslow hrun
    · exact ⟨τ, hrun, haccepted.trans hwritten⟩
    · cases hr
  · have hends : ((send spans).runOn (on late)).map
        (fun ending => (ending.1, Scripted.sink.accepted ending.2.host.host)) =
          some (.error .sendFailed, [1, 2, 3]) := by decide +kernel
    obtain ⟨⟨r, τ⟩, hrun, hends⟩ := Option.map_eq_some_iff.mp hends
    obtain ⟨rfl, htaken⟩ := Prod.ext_iff.mp hends
    obtain ⟨start, calls, hcalls, haccepted, -, ⟨hr, -⟩ | ⟨-, hfails⟩⟩ :=
      send_exact Scripted.truthful_sink hlate hrun
    · cases hr
    · have hwritten : written calls = [1, 2, 3] := haccepted.symm.trans htaken
      rw [hwritten] at hfails
      exact ⟨τ, start, calls, hrun, htaken, hcalls, hfails⟩

end MqttClient
