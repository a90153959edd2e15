import MqttClient.Proofs.Framing
import MqttClient.Proofs.Oversized
import MqttClient.Proofs.Pieces
import MqttClient.Proofs.Silence

/-!
# Skipping packets that are too large

The rest of a packet that the network buffer cannot hold is dropped a `Chunk` at a time, as much as
the buffer holds, and every chunk comes in pieces with pauses between them. As long as no pause is
too long, the whole of the packet is dropped and not a byte more (`Session.discard_of_answers`). So
the call that comes upon the packet leaves the client as it was and the stream at the first byte
behind the packet (`Session.receive_skips`).
-/
namespace MqttClient
variable {ω : Type}

/-! ## Streams that say what they deliver -/

namespace Host
variable [Host ω]

/-- A watched host answers as the host does that is watched, and records it. -/
theorem ask_watched (c : HostCall) (w : Watched ω) :
    c.ask w = ((c.ask w.host).1, ⟨(c.ask w.host).2, (c.ask w.host).1 :: w.calls⟩) := by
  cases c <;> rfl

theorem after_watched {calls : List HostCall} {w : Watched ω} (hall : Answers calls w) :
    Answers calls w.host ∧ (after calls w).host = after calls w.host := by
  induction calls generalizing w with
  | nil => exact ⟨trivial, rfl⟩
  | cons c calls ih =>
    obtain ⟨hanswer, hpatience, hrest⟩ := hall
    have hask := ask_watched c w
    rw [hask] at hanswer hrest
    obtain ⟨hcalls, hafter⟩ := ih hrest
    refine ⟨⟨hanswer, hpatience, hcalls⟩, ?_⟩
    rw [after_cons, after_cons, hask]
    exact hafter

end Host

namespace Stream

/-- Whatever the host is asked for, a read brings the bytes that are next in the stream and says how
many they are, and nothing else takes bytes from it. -/
def Truthful [Host ω] (s : Stream ω) : Prop :=
  ∀ (c : HostCall) (h : ω), s.Works h → s.Works (c.ask h).2 ∧ (c.ask h).1.IsHonest ∧
    s.unread h = (c.ask h).1.delivered ++ s.unread (c.ask h).2

/-- From one scene to the other the reads have brought what was next in the stream. -/
def Delivers (s : Stream ω) (σ τ : Scene (Watched ω)) : Prop :=
  s.Works σ.host.host → s.Works τ.host.host ∧ ∃ calls, τ.host.calls = calls ++ σ.host.calls ∧
    Honest calls ∧ s.unread σ.host.host = received calls ++ s.unread τ.host.host

variable {s : Stream ω}

/-- Where the host has not been asked for anything. -/
theorem Delivers.of_eq {σ τ : Scene (Watched ω)} (h : τ.host = σ.host) : s.Delivers σ τ := by
  intro hworks
  rw [h]
  exact ⟨hworks, [], by simp, by simp [Honest], by simp⟩

instance : IsPreorder (Scene (Watched ω)) s.Delivers where
  refl _ := .of_eq rfl
  trans σ υ τ h h' := by
    intro hworks
    obtain ⟨hworks, calls, hcalls, hhonest, hunread⟩ := h hworks
    obtain ⟨hworks, later, hlater, hhonest', hunread'⟩ := h' hworks
    refine ⟨hworks, later ++ calls, ?_, honest_append.mpr ⟨hhonest', hhonest⟩, ?_⟩
    · rw [hlater, hcalls, List.append_assoc]
    · rw [hunread, hunread', received_append, List.append_assoc]

variable [Host ω]

namespace Truthful

theorem call (hs : s.Truthful) {σ τ : Scene (Watched ω)} (c : HostCall)
    (h : τ.host = (c.ask σ.host).2) : s.Delivers σ τ := by
  intro hworks
  obtain ⟨hworks, hhonest, hunread⟩ := hs c σ.host.host hworks
  rw [h, Host.ask_watched]
  exact ⟨hworks, [(c.ask σ.host.host).1], by simp, by simpa [Honest] using hhonest,
    by simpa using hunread⟩

theorem send (hs : s.Truthful) (spans : List Bytes) :
    Act.Keeps s.Delivers (Session.send spans) := by
  apply Session.send_keeps
  · intro spans
    apply Act.Keeps.guarded
    · exact .hostDo fun _ => hs.call .enter rfl
    · exact .host fun _ => hs.call (.write spans none) rfl
    · exact .hostDo fun _ => hs.call .exit rfl
  · exact .host fun _ => hs.call (.now 0) rfl
  · exact .host fun _ => hs.call (.flush true) rfl
  · exact fun _ => .change fun _ => .of_eq rfl

/-- All steps of which receiving is made bring what is next in the stream, if anything. -/
theorem listens (hs : s.Truthful) : Session.Listens s.Delivers := by
  have hread : ∀ n, Act.Keeps s.Delivers (Act.host (Host.read n)) := by
    intro n
    exact .host fun _ => hs.call (.read n none) rfl
  have hchange : ∀ f : Session → Session, Act.Keeps s.Delivers (Act.change f) := by
    intro f
    exact .change fun _ => .of_eq rfl
  -- The exchanges are updated under guard, with three calls that are no reads.
  have htracked : ∀ σ : Scene (Watched ω),
      s.Delivers σ { σ with host := Act.trackedHost σ.host } := by
    intro σ
    have hentered := hs.call (σ := σ) (τ := { σ with host := Host.enter σ.host }) .enter rfl
    have hupdated := hs.call (σ := { σ with host := Host.enter σ.host })
      (τ := { σ with host := Host.tracking (Host.enter σ.host) }) .tracking rfl
    exact trans_of s.Delivers (trans_of s.Delivers hentered hupdated) (hs.call .exit rfl)
  exact {
    read := fun _ n => .readInto (hread n) fun _ => hchange _
    now := .host fun _ => hs.call (.now 0) rfl
    header := .readHeader hread
    reset := hchange _
    blank := fun _ => hchange _
    negotiate := fun _ => hchange _
    send := hs.send
    track := fun _ => .track
      (fun σ _ _ _ => trans_of s.Delivers (htracked σ) (.of_eq rfl)) htracked
    report := fun event => .hostDo fun _ => hs.call (.notify event) rfl
    grow := fun _ => hchange _
    wait := hchange _
    answer := hchange _
    consume := fun _ => hchange _
    stamp := fun _ => hchange _ }

/-- What the reads among calls bring is next in the stream before, and gone from it after them. -/
theorem after (hs : s.Truthful) {calls : List HostCall} {h : ω} (hworks : s.Works h)
    (hall : Host.Answers calls h) :
    s.Works (Host.after calls h) ∧
      s.unread h = calls.flatMap HostCall.delivered ++ s.unread (Host.after calls h) := by
  induction calls generalizing h with
  | nil => simpa using hworks
  | cons c calls ih =>
    obtain ⟨hanswer, -, hrest⟩ := hall
    obtain ⟨hworks, -, hunread⟩ := hs c h hworks
    obtain ⟨hworks, hlater⟩ := ih hworks hrest
    refine ⟨hworks, ?_⟩
    rw [hunread, hlater, hanswer, List.flatMap_cons, Host.after_cons, List.append_assoc]

end Truthful

end Stream

/-! ## Dropping chunks -/

/-- A part of a packet that is dropped, no more than the network buffer holds. -/
structure Chunk where
  /-- When reading it begins. -/
  start : UInt32
  /-- The pieces in which it comes, each with the time at which it is there. One without bytes is a
  pause. -/
  pieces : List (Bytes × UInt32)
  deriving DecidableEq

namespace Chunk

/-- The bytes of a chunk. -/
def body (c : Chunk) : Bytes := (c.pieces.map Prod.fst).flatten

/-- The calls by which it is read. -/
def calls (c : Chunk) : List HostCall := .now c.start :: Arrival.pieceCalls c.body.length c.pieces

/-- Every pause ends in time, counted from the last bytes, or from the beginning of the chunk. -/
def InTime (limit : UInt32) (c : Chunk) : Prop := Arrival.PiecesInTime limit c.start c.pieces

instance (limit : UInt32) (c : Chunk) : Decidable (c.InTime limit) :=
  inferInstanceAs (Decidable (Arrival.PiecesInTime _ _ _))

/-- Chunks bring `n` bytes, and all but the last one as many as the network buffer holds. -/
def Cut (capacity : ℕ) : ℕ → List Chunk → Prop
  | n, [] => n = 0
  | n, c :: rest => 0 < n ∧ c.body.length = min n capacity ∧ Cut capacity (n - c.body.length) rest

instance decidableCut (capacity n : ℕ) (chunks : List Chunk) : Decidable (Cut capacity n chunks) :=
  match chunks with
  | [] => inferInstanceAs (Decidable (n = 0))
  | c :: rest =>
    have := decidableCut capacity (n - c.body.length) rest
    inferInstanceAs (Decidable (_ ∧ _ ∧ _))

theorem Cut.length_eq {capacity n : ℕ} {chunks : List Chunk} (h : Cut capacity n chunks) :
    (chunks.flatMap body).length = n := by
  induction chunks generalizing n with
  | nil => simpa [Cut] using h.symm
  | cons c rest ih =>
    obtain ⟨-, hlength, hrest⟩ := h
    have := ih hrest
    rw [List.flatMap_cons, List.length_append]
    omega

theorem delivered_pieceCalls (left : ℕ) (pieces : List (Bytes × UInt32)) :
    (Arrival.pieceCalls left pieces).flatMap HostCall.delivered =
      (pieces.map Prod.fst).flatten := by
  induction pieces generalizing left with
  | nil => simp [Arrival.pieceCalls]
  | cons first rest ih => simp [Arrival.pieceCalls, HostCall.delivered, ih]

/-- The reads of chunks bring their bytes. -/
theorem delivered_calls (chunks : List Chunk) :
    (chunks.flatMap calls).flatMap HostCall.delivered = chunks.flatMap body := by
  induction chunks with
  | nil => simp
  | cons c rest ih =>
    rw [List.flatMap_cons, List.flatMap_append, ih, List.flatMap_cons, calls, List.flatMap_cons,
      delivered_pieceCalls]
    rfl

end Chunk

namespace Session
variable [Host ω] {σ : Scene ω} {chunks : List Chunk}

/-- Chunks that come in time are dropped one after another. The induction is on the chunks; each of
them leaves the network buffer as large as it is. -/
theorem drain_of_answers {n remaining : ℕ} (hn : remaining ≤ n) (hpos : 0 < σ.session.capacity)
    (hcut : Chunk.Cut σ.session.capacity remaining chunks)
    (hintime : ∀ c ∈ chunks, c.InTime σ.session.settings.recvPollingTimeout)
    (hall : Host.Answers (chunks.flatMap Chunk.calls) σ.host) :
    ∃ buffer, buffer.length = σ.session.capacity ∧ (drain n remaining).runOn σ = some (.ok (),
      ⟨{ σ.session with buffer }, Host.after (chunks.flatMap Chunk.calls) σ.host⟩) := by
  induction chunks generalizing n remaining σ with
  | nil =>
    have hzero : remaining = 0 := hcut
    refine ⟨σ.session.buffer, rfl, ?_⟩
    rw [drain.eq_def, if_pos hzero]
    simp
  | cons c rest ih =>
    obtain ⟨hremaining, hlength, hcut⟩ := hcut
    obtain ⟨hfirst, hlater⟩ := List.forall_mem_cons.mp hintime
    rw [List.flatMap_cons] at hall ⊢
    obtain ⟨hchunk, hrest⟩ := hall.append
    obtain ⟨n, rfl⟩ : ∃ j, n = j + 1 := Nat.exists_eq_succ_of_ne_zero (by omega)
    have hbody : (c.pieces.map Prod.fst).flatten = c.body := rfl
    have hfill := fill_of_answers (σ := σ) hbody (by omega) hfirst hchunk
    have hcapacity : (σ.session.readAt 0 c.body).capacity = σ.session.capacity :=
      capacity_readAt c.body (by omega)
    obtain ⟨buffer, hbuffer, hdrain⟩ :=
      ih (σ := ⟨σ.session.readAt 0 c.body, Host.after c.calls σ.host⟩)
        (show remaining - c.body.length ≤ n by omega) (hcapacity ▸ hpos) (hcapacity.symm ▸ hcut)
        hlater hrest
    refine ⟨buffer, hbuffer.trans hcapacity, ?_⟩
    rw [drain, if_neg (by omega), Act.runOn_bind_of_ok (Act.runOn_session _), ← hlength,
      Act.runOn_bind_of_ok hfill, if_neg (Nat.lt_irrefl _), Host.after_append]
    exact hdrain

/-- A packet that comes in time is dropped to its end, and the network buffer is cleared. -/
theorem discard_of_answers {remaining : ℕ} (hpos : 0 < σ.session.capacity)
    (hcut : Chunk.Cut σ.session.capacity remaining chunks)
    (hintime : ∀ c ∈ chunks, c.InTime σ.session.settings.recvPollingTimeout)
    (hall : Host.Answers (chunks.flatMap Chunk.calls) σ.host) :
    (discard remaining).runOn σ = some (.ok (),
      ⟨σ.session.resetBuffer, Host.after (chunks.flatMap Chunk.calls) σ.host⟩) := by
  obtain ⟨buffer, hbuffer, hdrain⟩ := drain_of_answers (le_refl remaining) hpos hcut hintime hall
  have hroom : ¬σ.session.capacity = 0 := by omega
  rw [discard, Act.runOn_bind_of_ok (a := .ok ())
    (τ := ⟨{ σ.session with buffer }, Host.after (chunks.flatMap Chunk.calls) σ.host⟩)]
  · rw [Act.runOn_bind_of_ok (Act.runOn_change _ _), Act.runOn_ofResult]
    simp only [resetBuffer, hbuffer, capacity]
  · rw [Act.runOn_outcome, Act.runOn_bind_of_ok (Act.runOn_session _), if_neg hroom]
    exact congrArg (Option.map _) hdrain

/-- A header at the front of the network buffer tells that the packet is too large for it. -/
theorem handleBuffered_large {managed : Bool} {header : Header} {τ : Scene ω}
    (hfilled : σ.session.filled ≠ 0)
    (hdecode : Header.decode σ.session.version σ.session.pending = .ok header)
    (hlarge : σ.session.capacity < header.total)
    (hdiscard : (discard (header.total - σ.session.filled)).runOn σ = some (.ok (), τ)) :
    (handleBuffered managed).runOn σ = some (.ok .noData, τ) := by
  have hfront : Header.decode σ.session.version (σ.session.buffer.take σ.session.filled) =
      .ok header := hdecode
  rw [handleBuffered, Act.runOn_bind_of_ok (Act.runOn_session _), if_neg hfilled, hfront]
  simp only [if_pos hlarge]
  rw [Act.runOn_bind_of_ok hdiscard, Act.runOn_pure]

end Session

/-! ## Skipping a packet -/

namespace Session
variable [Host ω] {s : Stream ω} {σ υ τ : Scene (Watched ω)}

/-- What has been received and what is still in the stream is the same bytes before a read and after
it. -/
theorem stream_arrive (hs : s.Truthful) {managed : Bool} {r : Except Fault Unit}
    (hworks : s.Works σ.host.host) (hfilled : σ.session.filled ≤ σ.session.capacity)
    (harrive : (arrive managed).runOn σ = some (r, υ)) :
    s.Works υ.host.host ∧ υ.session.pending ++ s.unread υ.host.host =
      σ.session.pending ++ s.unread σ.host.host := by
  obtain ⟨hworks, calls, hcalls, hhonest, hunread⟩ := hs.listens.arrive managed σ _ υ harrive hworks
  obtain ⟨calls', hcalls', -, hpending⟩ := arrive_receives hfilled harrive
  have hsame : calls' = calls := List.append_cancel_right (hcalls'.symm.trans hcalls)
  rw [hsame] at hpending
  refine ⟨hworks, ?_⟩
  rw [hpending hhonest, hunread, List.append_assoc]

/-- Before it looks at a packet a call has done no more than read, or it has sent a PINGREQ. -/
theorem arrive_alike {managed : Bool} (harrive : (arrive managed).runOn σ = some (.ok (), υ)) :
    Alike υ σ ∨ managed = true ∧ WritesPing Ping.request.length σ υ := by
  have hread : (fetch σ).host.calls = .read (σ.session.capacity - σ.session.filled)
    (firstAnswer σ).1 :: σ.host.calls := rfl
  have hcourse : (fetch σ).session.course = σ.session.course := by
    rw [fetch]
    cases (firstAnswer σ).1 <;> rfl
  cases hanswer : (firstAnswer σ).1 with
  | none =>
    rw [arrive_none hanswer] at harrive
    cases harrive
  | some answer =>
    obtain ⟨count, arrived⟩ := answer
    rw [arrive_some hanswer] at harrive
    by_cases hquiet : min count (σ.session.capacity - σ.session.filled) = 0 ∧ managed = true
    · rw [if_pos hquiet, keepAliveDuty, Act.runOn_bind_of_ok (Act.runOn_now _),
        Act.runOn_bind_of_ok (Act.runOn_session _)] at harrive
      split at harrive
      · cases harrive
        refine .inl ⟨hcourse, ?_, ?_⟩
        · simp [hread, HostCall.event?]
        · simp [hread, HostCall.taken]
      · obtain ⟨k, hwrites, ⟨-, hk, -⟩ | ⟨hr, -⟩⟩ := ping_inv harrive
        · have hclock : WritesPing k (fetch σ) υ := hwrites.after (Watched.calls_now _) rfl rfl
          exact .inr ⟨hquiet.2, hk ▸ hclock.after hread rfl rfl⟩
        · cases hr
      · cases harrive
    · rw [if_neg hquiet] at harrive
      cases harrive
      refine .inl ⟨hcourse, ?_, ?_⟩
      · simp [hread, HostCall.event?]
      · simp [hread, HostCall.taken]

/-- Dropping a packet neither reports nor writes anything, and has no part in the course that the
session takes. -/
theorem discard_alike {n : ℕ} {r : Except Fault Unit} (hdiscard : (discard n).runOn υ = some (r, τ))
    (hsession : τ.session = υ.session.resetBuffer) : Alike τ υ := by
  obtain ⟨calls, hcalls, hsilent⟩ := (inward_silent.discard n υ r τ hdiscard).unheard
  obtain ⟨calls', hcalls', hmute⟩ :=
    (inward_makes (P := fun c => ¬c.IsWrite) (fun _ _ => id) fun _ => id).discard n υ r τ hdiscard
  refine ⟨?_, ?_, ?_⟩
  · rw [hsession]
    rfl
  · rw [hcalls, reported_append, hsilent, List.append_nil]
  · rw [hcalls', written_append, written_eq_nil hmute, List.append_nil]

end Session

variable [Host ω] {version : Version} {capacity : ℕ}

/-- From the first scene, receiving does what handing the packets over whole does from the second
one: those that are handled have the same outcomes, the same is reported and written, and the
sessions take the same course. Enough calls handle all of the packets. -/
def HandlesAs (s : Stream ω) (packets : List (WholePacket version capacity))
    (σ σ' : Scene (Watched ω)) : Prop :=
  ∀ n, ∃ outcomes τ k outcomes' τ', (receiveTimes n).runOn σ = some (.ok outcomes, τ) ∧
    (handleEach (packets.take k)).runOn σ' = some (.ok outcomes', τ') ∧
    outcomes.filter isPacketOutcome = outcomes' ∧ Alike τ τ' ∧ k ≤ packets.length ∧
    (callsLeft s packets σ ≤ n → k = packets.length)

theorem Holds.handlesAs {s : Stream ω} {packets : List (WholePacket version capacity)}
    {σ σ' : Scene (Watched ω)} (h : Holds s packets σ σ') (hs : s.Faultless) :
    HandlesAs s packets σ σ' := by
  intro n
  obtain ⟨outcomes, τ, k, outcomes', τ', hcalls, heach, hfilter, hτ, hk, henough⟩ :=
    h.receiveTimes hs n
  exact ⟨outcomes, τ, k, outcomes', τ', hcalls, heach, hfilter, hτ.toAlike, hk, henough⟩

namespace Session
variable {s : Stream ω} {σ υ : Scene (Watched ω)} {header : Header}

/-- **A packet that is too large is skipped.** The call that has its header drops it, however
its rest is cut into reads, as long as none fails and no pause is too long. It finds no data,
reports nothing, and leaves the client as it was but for a PINGREQ. The next byte is the first one
behind the packet, and packets that fit are then handled as if handed over whole. -/
theorem receive_skips (hs : s.Truthful) {managed : Bool} {packet following : Bytes}
    {chunks : List Chunk} (hworks : s.Works σ.host.host)
    (hfilled : σ.session.filled ≤ σ.session.capacity)
    (hstream : σ.session.pending ++ s.unread σ.host.host = packet ++ following)
    (hdecode : Header.decode σ.session.version packet = .ok header)
    (hlength : packet.length = header.total) (hlarge : σ.session.capacity < header.total)
    (harrive : (arrive managed).runOn σ = some (.ok (), υ))
    (hheader : header.length ≤ υ.session.filled)
    (hcut : Chunk.Cut σ.session.capacity (header.total - υ.session.filled) chunks)
    (hintime : ∀ c ∈ chunks, c.InTime σ.session.settings.recvPollingTimeout)
    (hall : Host.Answers (chunks.flatMap Chunk.calls) υ.host) :
    ∃ τ, (receive managed).runOn σ = some (.ok .noData, τ) ∧
      reported τ.host.calls = reported σ.host.calls ∧
      τ.session.exchanges = σ.session.exchanges ∧
      τ.session.buffer = List.replicate σ.session.capacity 0 ∧ τ.session.filled = 0 ∧
      s.unread τ.host.host = following ∧ Alike τ υ ∧
      (Alike υ σ ∨ managed = true ∧ WritesPing Ping.request.length σ υ) ∧
      ∀ packets : List (WholePacket σ.session.version σ.session.capacity), s.Faultless →
        following = WholePacket.stream packets → HandlesAs s packets τ υ := by
  -- What the call looks at is a front part of the packet, with its header.
  obtain ⟨hworks, hstreamed⟩ := stream_arrive hs hworks hfilled harrive
  obtain ⟨hversion, -, hcapacity, -⟩ := pending_of_intake (arrive_unread harrive).same
  rw [hstream] at hstreamed
  replace hversion : υ.session.version = σ.session.version :=
    hversion.trans (fetch_settles σ).version_eq
  replace hcapacity : υ.session.capacity = σ.session.capacity :=
    hcapacity.trans (capacity_afterRead hfilled _).1
  have hfilled' : υ.session.filled ≤ υ.session.capacity := filled_le_of_arrive hfilled harrive
  have hpart : υ.session.filled ≤ packet.length := by omega
  have hseen : υ.session.pending = packet.take υ.session.filled ∧
      s.unread υ.host.host = packet.drop υ.session.filled ++ following := by
    apply List.append_inj
    · rw [hstreamed, ← List.append_assoc, List.take_append_drop]
    · rw [length_pending hfilled', List.length_take, Nat.min_eq_left hpart]
  have hfront : Header.decode υ.session.version υ.session.pending = .ok header := by
    rw [hversion, hseen.1]
    exact Header.decode_take hdecode hheader
  have hnonzero : υ.session.filled ≠ 0 := by
    intro hzero
    rw [pending, hzero, List.take_zero] at hfront
    cases hfront
  -- The rest of the packet is dropped, and the stream has given up no more than that.
  have hsettings : υ.session.settings = σ.session.settings :=
    (listens_same (f := settings) fun _ _ _ _ _ _ _ _ _ => rfl).arrive managed σ _ υ harrive
  rw [← hcapacity] at hcut
  rw [← hsettings] at hintime
  have hdiscard := discard_of_answers (by omega) hcut hintime hall
  obtain ⟨hanswers, hafter⟩ := Host.after_watched hall
  obtain ⟨hworks', hunread⟩ := hs.after hworks hanswers
  rw [Chunk.delivered_calls, ← hafter, hseen.2] at hunread
  have hgone : s.unread (Host.after (chunks.flatMap Chunk.calls) υ.host).host = following := by
    refine (List.append_inj hunread ?_).2.symm
    rw [hcut.length_eq, List.length_drop, hlength]
  have halike := discard_alike hdiscard rfl
  obtain ⟨-, -, hexchanges, k, hwrites⟩ := arrive_keeps harrive
  refine ⟨⟨υ.session.resetBuffer, Host.after (chunks.flatMap Chunk.calls) υ.host⟩, ?_, ?_,
    hexchanges, ?_, rfl, hgone, halike, arrive_alike harrive, ?_⟩
  · rw [receive_eq, Act.runOn_bind_of_ok harrive]
    exact handleBuffered_large hnonzero hfront (hcapacity.symm ▸ hlarge) hdiscard
  · obtain ⟨calls, hcalls, hreported, -⟩ := hwrites
    rw [halike.reported, hcalls, reported_append, hreported, List.append_nil]
  · rw [← hcapacity]
    rfl
  · intro packets hfaultless hpackets
    refine (Holds.handlesAs ?_ hfaultless)
    exact {
      toAlike := halike
      works := hafter ▸ hworks'
      works' := hworks
      version_eq := hversion
      capacity_eq := hcapacity ▸ List.length_replicate
      filled_le := Nat.zero_le _
      stream_eq := hgone.trans hpackets }

end Session

namespace Scripted
variable {h : Scripted}

theorem still_writes (hworks : stream.Works h) (spans : List Bytes) :
    stream.Still h (h.write spans).2 := by
  have hrun : ∀ offered lengths, stream.Still h (h.writeRun offered lengths).2 := by
    intro offered lengths
    rw [writeRun, hworks.2.1]
    exact still_see hworks _
  unfold write
  split
  · exact hrun _ _
  · split
    · exact hrun _ _
    · exact .refl hworks

/-- A scripted host of which nothing but the lengths of its reads is scripted says what it
delivers. -/
theorem truthful_stream : stream.Truthful := by
  intro c h hworks
  have hother : ∀ c : HostCall, ¬(c.ask h).1.IsRead → stream.Still h (c.ask h).2 →
      stream.Works (c.ask h).2 ∧ (c.ask h).1.IsHonest ∧
        stream.unread h = (c.ask h).1.delivered ++ stream.unread (c.ask h).2 := by
    intro c hkind hstill
    rw [hstill.unread]
    cases c with
    | read n answer => exact absurd trivial hkind
    | _ => exact ⟨hstill.works, trivial, by simp [HostCall.ask, HostCall.delivered]⟩
  cases c with
  | read n answer =>
    obtain ⟨k, hk, hk', hread, hworks', hunread, -⟩ := faultless_stream.read h n hworks
    refine ⟨hworks', ?_, ?_⟩
    · rw [HostCall.ask, hread]
      refine ⟨?_, hk⟩
      rw [List.length_take, Nat.min_eq_left hk']
    · simp only [HostCall.ask, hread, HostCall.delivered, hunread, List.take_append_drop]
  | write spans answer => exact hother (.write spans answer) id (still_writes hworks spans)
  | flush succeeded => exact hother (.flush succeeded) id (faultless_stream.flush h hworks).2
  | now t => exact hother (.now t) id (faultless_stream.now h hworks)
  | enter => exact hother .enter id (faultless_stream.enter h hworks)
  | exit => exact hother .exit id (faultless_stream.exit h hworks)
  | tracking => exact hother .tracking id (faultless_stream.tracking h hworks)
  | notify event => exact hother (.notify event) id (faultless_stream.notify h event hworks)

end Scripted

/-- A client with room for eight bytes receives the first three of a packet of twenty-two. The next
eight come in two pieces with a pause between them, and all others at once. A PINGRESP follows. -/
def overflowing : Scene (Watched Scripted) where
  session := .create 8 (.empty 1 1) .v311 {}
  host := { host := {
    incoming := [0x30, 20, 0, 1, 97, 0x30, 5, 0, 1, 98, 104, 105, 0x40, 2, 0, 9, 0xD0, 0, 1, 2, 3,
      4, 0xD0, 0]
    reads := [.move 3, .move 5, .move 0, .move 3]
    step := 3 } }

theorem receive_skips_overflowing :
    ∃ τ υ, (Session.receive true).runOn overflowing = some (.ok .noData, τ) ∧
      τ.session.filled = 0 ∧ Scripted.stream.unread τ.host.host = [0xD0, 0] ∧
      HandlesAs Scripted.stream
        [(WholePacket.pingresp (by decide) : WholePacket .v311 8)] τ υ := by
  let chunks : List Chunk := [⟨3, [([1, 97, 0x30, 5, 0], 6), ([], 9), ([1, 98, 104], 12)]⟩,
    ⟨15, [([105, 0x40, 2, 0, 9, 0xD0, 0, 1], 18)]⟩, ⟨21, [([2, 3, 4], 24)]⟩]
  have hseen : ((Session.arrive true).runOn overflowing).map (fun ending => (ending.1,
      ending.2.session.filled, decide (Host.Answers (chunks.flatMap Chunk.calls) ending.2.host))) =
        some (.ok (), 3, true) := by decide +kernel
  obtain ⟨⟨r, υ⟩, harrive, hseen⟩ := Option.map_eq_some_iff.mp hseen
  simp only [Prod.mk.injEq, decide_eq_true_eq] at hseen
  obtain ⟨rfl, hfilled, hall⟩ := hseen
  obtain ⟨τ, hreceive, -, -, -, hempty, hunread, -, -, hhandles⟩ :=
    Session.receive_skips Scripted.truthful_stream (by simp [Scripted.stream, overflowing])
      (by decide)
      (show overflowing.session.pending ++ Scripted.stream.unread overflowing.host.host =
        overflowing.host.host.incoming.take 22 ++ [0xD0, 0] from rfl)
      (show _ = Except.ok ⟨0x30, 20, 2⟩ from rfl) rfl (by decide) harrive
      (by rw [hfilled]; decide) (by rw [hfilled]; decide) (by decide) hall
  exact ⟨τ, υ, hreceive, hempty, hunread, hhandles _ Scripted.faultless_stream rfl⟩

end MqttClient
