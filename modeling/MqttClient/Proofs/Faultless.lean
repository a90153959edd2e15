import MqttClient.Proofs.Accepting

/-!
# Faultless transports

A `Stream` is a view of a host as a transport: the bytes that are still to arrive and how often
it may keep its caller waiting for them. `Stream.Faultless` says that the transport reports true
counts, never fails, and takes every write in full; how it cuts the bytes into reads is left
open. Scripted hosts whose reads only move bytes are faultless.
-/
namespace MqttClient

/-- A view of a host as a transport. -/
structure Stream (ω : Type) where
  /-- Whether the transport works. -/
  Works : ω → Prop
  /-- The bytes that are still to arrive. -/
  unread : ω → Bytes
  /-- How many reads may give nothing although bytes are still to arrive. -/
  pauses : ω → ℕ

namespace Stream
variable {ω : Type}

/-- A call leaves the transport working and takes nothing from it. -/
structure Still (s : Stream ω) (h h' : ω) : Prop where
  works : s.Works h'
  unread : s.unread h' = s.unread h
  pauses : s.pauses h' = s.pauses h

theorem Still.refl {s : Stream ω} {h : ω} (hworks : s.Works h) : s.Still h h :=
  ⟨hworks, rfl, rfl⟩

theorem Still.trans {s : Stream ω} {h h' h'' : ω} (hfirst : s.Still h h')
    (hsecond : s.Still h' h'') : s.Still h h'' where
  works := hsecond.works
  unread := hsecond.unread.trans hfirst.unread
  pauses := hsecond.pauses.trans hfirst.pauses

variable [Host ω]

/-- A transport that reports true counts, never fails and takes every write in full. -/
structure Faultless (s : Stream ω) : Prop where
  read : ∀ h n, s.Works h → ∃ k, k ≤ n ∧ k ≤ (s.unread h).length ∧
    (Host.read n h).1 = some (k, (s.unread h).take k) ∧
    s.Works (Host.read n h).2 ∧ s.unread (Host.read n h).2 = (s.unread h).drop k ∧
    s.pauses (Host.read n h).2 ≤ s.pauses h ∧
    (k = 0 → 0 < n → s.unread h ≠ [] → s.pauses (Host.read n h).2 < s.pauses h)
  write : ∀ h b, s.Works h → b ≠ [] →
    (Host.write [b] h).1 = some b.length ∧ s.Still h (Host.write [b] h).2
  flush : ∀ h, s.Works h → (Host.flush h).1 = true ∧ s.Still h (Host.flush h).2
  now : ∀ h, s.Works h → s.Still h (Host.now h).2
  enter : ∀ h, s.Works h → s.Still h (Host.enter h)
  exit : ∀ h, s.Works h → s.Still h (Host.exit h)
  tracking : ∀ h, s.Works h → s.Still h (Host.tracking h)
  notify : ∀ h event, s.Works h → s.Still h (Host.notify event h)

namespace Faultless
variable {s : Stream ω}

/-- Such a transport accepts writes, and takes nothing from the stream by them. -/
theorem acceptsWrites (hs : s.Faultless) (h : ω) : AcceptsWrites (s.Still h) where
  write h' b hstill hne := (hs.write h' b hstill.works hne).imp_right hstill.trans
  flush h' hstill := (hs.flush h' hstill.works).imp_right hstill.trans
  now h' hstill := hstill.trans (hs.now h' hstill.works)
  enter h' hstill := hstill.trans (hs.enter h' hstill.works)
  exit h' hstill := hstill.trans (hs.exit h' hstill.works)
  tracking h' hstill := hstill.trans (hs.tracking h' hstill.works)
  notify h' event hstill := hstill.trans (hs.notify h' event hstill.works)

theorem track (hs : s.Faultless) {h : ω} (hworks : s.Works h) :
    s.Still h (Act.trackedHost h) := (hs.acceptsWrites h).track (.refl hworks)

/-- A packet in one span is sent. -/
theorem send (hs : s.Faultless) {σ : Scene (Watched ω)} (hworks : s.Works σ.host.host) {b : Bytes}
    (hne : b ≠ []) :
    ∃ τ t, (Session.send [b]).runOn σ = some (.ok (), τ) ∧
      τ.session = { σ.session with lastTx := t } ∧ s.Still σ.host.host τ.host.host ∧
      written τ.host.calls = written σ.host.calls ++ b ∧
      reported τ.host.calls = reported σ.host.calls :=
  (hs.acceptsWrites σ.host.host).send (.refl hworks) hne

end Faultless

end Stream

namespace Scripted

/-- The transport of a scripted host. It works as long as nothing else is scripted than how many
bytes the next reads move. -/
def stream : Stream Scripted where
  Works h := (∀ turn ∈ h.reads, ∃ limit, turn = .move limit) ∧ h.writes = [] ∧
    h.writeLimit = none ∧ h.flushFails = false
  unread h := h.incoming
  pauses h := h.reads.length

variable {h : Scripted}

/-- What is seen does not matter to the transport. -/
theorem still_see (hworks : stream.Works h) (sighting : Sighting) :
    stream.Still h (h.see sighting) := ⟨hworks, rfl, rfl⟩

theorem still_guardMark (hworks : stream.Works h) (sighting : Sighting) :
    stream.Still h (h.guardMark sighting) := by
  unfold guardMark
  split
  · exact still_see hworks sighting
  · exact ⟨hworks, rfl, rfl⟩

theorem still_now (hworks : stream.Works h) : stream.Still h h.now.2 := by
  unfold now
  split <;> exact ⟨hworks, rfl, rfl⟩

theorem still_write (hworks : stream.Works h) {b : Bytes} (hne : b ≠ []) :
    (h.write [b]).1 = some b.length ∧ stream.Still h (h.write [b]).2 := by
  obtain ⟨hreads, hwrites, hlimit, hflush⟩ := hworks
  have hspan : firstSpan? [b] = some b := by simp [firstSpan?, hne]
  unfold write
  split
  · rw [List.flatten_singleton, writeRun, hwrites]
    simp only [take, hlimit]
    exact ⟨trivial, still_see ⟨hreads, hwrites, hlimit, hflush⟩ _⟩
  · rw [hspan]
    simp only [writeRun, hwrites, take, hlimit]
    exact ⟨trivial, still_see ⟨hreads, hwrites, hlimit, hflush⟩ _⟩

theorem faultless_stream : stream.Faultless where
  read h n hworks := by
    obtain ⟨hreads, hwrites, hlimit, hflush⟩ := hworks
    cases hturns : h.reads with
    | nil =>
      have hread : h.read n = h.deliver n (min n h.incoming.length) (min n h.incoming.length) := by
        rw [Scripted.read, hturns]
      refine ⟨min n h.incoming.length, Nat.min_le_left .., Nat.min_le_right .., ?_⟩
      simp only [Host.read, hread]
      refine ⟨rfl, ⟨hreads, hwrites, hlimit, hflush⟩, rfl, Nat.le_refl _, ?_⟩
      intro hzero hpos hne
      have := List.length_pos_iff.mpr hne
      simp only [stream] at this
      omega
    | cons turn rest =>
      obtain ⟨limit, rfl⟩ := hreads turn (by simp [hturns])
      have hread : h.read n = { h with reads := rest }.deliver n
          (min (min n h.incoming.length) limit) (min (min n h.incoming.length) limit) := by
        rw [Scripted.read, hturns]
      refine ⟨min (min n h.incoming.length) limit, by omega, ?_, ?_⟩
      · simp only [stream]
        omega
      simp only [Host.read, hread]
      have hrest : ∀ turn ∈ rest, ∃ limit, turn = .move limit := fun turn hturn =>
        hreads turn (by simp [hturns, hturn])
      refine ⟨rfl, ⟨hrest, hwrites, hlimit, hflush⟩, rfl, ?_, ?_⟩
      · simp [stream, deliver, see, hturns]
      · intros
        simp [stream, deliver, see, hturns]
  write h b hworks hne := still_write hworks hne
  flush h hworks := ⟨by simp [Host.flush, hworks.2.2.2], still_see hworks _⟩
  now h hworks := still_now hworks
  enter h hworks := still_guardMark hworks _
  exit h hworks := still_guardMark hworks _
  tracking h hworks := still_see hworks _
  notify h event hworks := still_see hworks _

end Scripted

end MqttClient
