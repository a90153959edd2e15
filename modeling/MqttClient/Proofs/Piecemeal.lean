import MqttClient.Proofs.Clocks
import MqttClient.Proofs.Pieces

/-!
# Connecting piecemeal

Connecting comes apart into what is done before the wait for CONNACK (`Session.announce`), the wait,
and what is done after it (`Session.takeUp`). The first part does not look at what is still to be
read, and the last one looks at the clock only for the times of the last packets. So clients that
differ only in how the same CONNACK comes in get the same from it (`Session.connect_reassembles`).
-/
namespace MqttClient.Session
variable {ω : Type} [Host ω] {a : Arrival} {σ : Scene ω}

/-! ## Before and after -/

/-- What connecting does before it waits for CONNACK. -/
def announce (c : Connect) : Act ω Unit := do
  let version := (← Act.session).version
  let negotiated ← Act.ofResult (requested version c)
  let size ← Act.ofResult (c.size version)
  Act.change fun s => { s.resetBuffer with negotiated }
  send (← Act.ofResult (c.spans version size))

/-- What it does after a CONNACK that is accepted. -/
def takeUp (c : Connect) (present : Bool) : Act ω Bool := do
  Act.ofResult (Connack.checkSession c.cleanSession present)
  resume present
  establish c
  return present

theorem connect_eq_announce (c : Connect) (timeout : UInt32) :
    (connect c timeout : Act ω Bool) = (do
      announce c
      let present ← receiveConnack timeout
      takeUp c present) := by
  simp only [connect, announce, takeUp, establish, bind_assoc]

/-- The settings and the size of the network buffer stay. -/
theorem announce_same (c : Connect) : Act.Keeps (Same fun s => (s.settings, s.capacity))
    (announce c : Act ω Unit) := by
  have hsend : ∀ spans, Act.Keeps (Same fun s => (s.settings, s.capacity))
      (send spans : Act ω Unit) :=
    (outward_same (f := fun s => (s.settings, s.capacity)) fun _ _ _ => rfl).send
  refine Act.Keeps.session.bind fun _ => (Act.Keeps.ofResult _).bind fun _ =>
    (Act.Keeps.ofResult _).bind fun _ => (Act.Keeps.change fun σ => ?_).bind fun _ =>
      (Act.Keeps.ofResult _).bind fun _ => hsend _
  simp only [Same, resetBuffer, capacity, List.length_replicate]

open Act (Mirrors Follows)

/-- What is asked of the broker depends on the session, and a host with more patience takes it as
another one does. -/
theorem announce_follows {G : ω → ω → Prop} (hG : Host.TakesAlike 0 G)
    (hpatience : ∀ h h', G h h' → Host.patience h ≤ Host.patience h') (c : Connect) :
    Follows (Scene.Both (fun s s' => s' = s) G) (announce c : Act ω Unit) (announce c) := by
  have hoffers : OffersAlike 0 (Scene.Both (fun s s' => s' = s) G) :=
    .both hG (fun _ _ hs => congrArg settings hs) fun s s' t hs => by rw [hs, UInt32.add_zero]
  have hsend := hoffers.send_follows fun _ _ hσ => hpatience _ _ (hG.now _ _ hσ.host).2
  have hsession : Mirrors (Scene.Both (fun s s' => s' = s) G) (· = ·) (Act.session : Act ω _)
      Act.session := .sessions_bind fun σ σ' hσ => by
    rw [hσ.session]
    exact .pure rfl
  have hchange : ∀ f : Session → Session, Mirrors (Scene.Both (fun s s' => s' = s) G) (· = ·)
      (Act.change f : Act ω Unit) (Act.change f) := fun f _ _ hσ =>
    .some ⟨.ok rfl, congrArg f hσ.session, hσ.host⟩
  exact hsession.follows.bind fun _ => (Mirrors.ofResult _).follows.bind fun _ =>
    (Mirrors.ofResult _).follows.bind fun _ => (hchange _).follows.bind fun _ =>
      (Mirrors.ofResult _).follows.bind fun _ => hsend _

/-- The second session is the first one, but for the times of the last packets. -/
def AtOtherTimes (s s' : Session) : Prop :=
  ∃ lastTx lastRx, s' = s.withTimes lastTx lastRx s.pingSentAt

section
variable {k : UInt32} {H : ω → ω → Prop}

omit [Host ω] in
/-- An operation that goes on with the session but not with the times in it. -/
theorem otherTimes_bind {α : Type} {Q : α → α → Prop} {f : Session → Act ω α}
    (htimes : ∀ s lastTx lastRx pingSentAt, f (s.withTimes lastTx lastRx pingSentAt) = f s)
    (hf : ∀ s, Mirrors (Scene.Both AtOtherTimes H) Q (f s) (f s)) :
    Mirrors (Scene.Both AtOtherTimes H) Q (Act.session >>= f) (Act.session >>= f) :=
  .sessions_bind fun σ σ' hσ => by
    obtain ⟨lastTx, lastRx, hsession⟩ := hσ.session
    rw [hsession, htimes]
    exact hf σ.session

omit [Host ω] in
theorem otherTimes_change {f f' : Session → Session}
    (hf : ∀ s lastTx lastRx, (f s).AtOtherTimes (f' (s.withTimes lastTx lastRx s.pingSentAt))) :
    Mirrors (Scene.Both AtOtherTimes H) (· = ·) (Act.change f : Act ω Unit) (Act.change f') := by
  rintro ⟨s, h⟩ ⟨_, h'⟩ ⟨⟨lastTx, lastRx, rfl⟩, hh⟩
  exact .some ⟨.ok rfl, hf s lastTx lastRx, hh⟩

omit [Host ω] in
theorem acceptConnack_otherTimes (header : Header) :
    Mirrors (Scene.Both AtOtherTimes H) (· = ·) (acceptConnack header : Act ω Bool)
      (acceptConnack header) :=
  otherTimes_bind (fun _ _ _ _ => rfl) fun _ =>
    (otherTimes_change fun _ _ _ => ⟨_, _, rfl⟩).bind_eq fun _ =>
      (Mirrors.ofResult _).bind_eq fun _ =>
        (otherTimes_change fun _ _ _ => ⟨_, _, rfl⟩).bind_eq fun _ => .pure rfl

theorem sendsAlike_otherTimes (hH : Host.ClockAhead k H) :
    SendsAlike k (Scene.Both (ω := ω) AtOtherTimes H) where
  toOffersAlike := .both ⟨hH.write, hH.flush, hH.now, hH.enter, hH.exit⟩
    (by
      rintro s _ ⟨lastTx, lastRx, rfl⟩
      rfl)
    (by
      rintro s _ t ⟨lastTx, lastRx, rfl⟩
      exact ⟨_, _, rfl⟩)
  patience _ _ hσ := hH.patience _ _ (hH.now _ _ hσ.host).2
  exchanges _ _ hσ := by
    obtain ⟨lastTx, lastRx, hsession⟩ := hσ.session
    rw [hsession]
    rfl
  withExchanges := by
    rintro ⟨s, h⟩ ⟨_, h'⟩ exchanges ⟨⟨lastTx, lastRx, rfl⟩, hh⟩
    exact ⟨⟨lastTx, lastRx, rfl⟩, hh⟩
  tracked _ _ hσ := ⟨hσ.session, hH.exit _ _ (hH.tracking _ _ (hH.enter _ _ hσ.host))⟩

theorem takeUp_otherTimes (hH : Host.ClockAhead k H) (c : Connect) (present : Bool) :
    Mirrors (Scene.Both AtOtherTimes H) (· = ·) (takeUp c present : Act ω Bool)
      (takeUp c present) := by
  have halike := sendsAlike_otherTimes hH
  have hestablish : Mirrors (Scene.Both AtOtherTimes H) (· = ·) (establish c : Act ω Unit)
      (establish c) :=
    (otherTimes_change fun _ _ _ => ⟨_, _, rfl⟩).bind_eq fun _ =>
      halike.now_bind fun _ => otherTimes_change fun _ _ _ => ⟨_, _, rfl⟩
  exact (Mirrors.ofResult _).bind_eq fun _ => (halike.resume present).bind_eq fun _ =>
    hestablish.bind_eq fun _ => .pure rfl

end

/-- **A CONNACK may come in pieces.** Two clients with the same session connect, with hosts that do
the same but for the way in which the same CONNACK comes in (`a` and `a'`), and stay `k`
milliseconds apart after it. Where the CONNACK fits in the network buffer and comes in time, and no
pause lies inside its header, what comes of one call comes of the other: the same result, and the
same session but for the times of the last packets. -/
theorem connect_reassembles {k : UInt32} {G H : ω → ω → Prop} (hG : Host.TakesAlike 0 G)
    (hpatience : ∀ h h', G h h' → Host.patience h ≤ Host.patience h') (hH : Host.ClockAhead k H)
    {c : Connect} {timeout : UInt32} {h' : ω} (hhost : G σ.host h') {a' : Arrival}
    (hbody : a'.body = a.body) (hfits : a.body.length ≤ σ.session.capacity)
    (hmax : a.body.length ≤ VarInt.maxValue) (hintime : a.InTime σ.session.settings timeout)
    (hintime' : a'.InTime σ.session.settings timeout)
    (harrives : ∀ υ υ' : Scene ω, (announce c).runOn σ = some (.ok (), υ) →
      (announce c).runOn { σ with host := h' } = some (.ok (), υ') →
        Host.Answers (a.calls timeout) υ.host ∧ Host.Answers (a'.calls timeout) υ'.host ∧
          H (Host.after (a.calls timeout) υ.host) (Host.after (a'.calls timeout) υ'.host))
    {r : Except Fault Bool} {τ : Scene ω} (hrun : (connect c timeout).runOn σ = some (r, τ)) :
    ∃ τ', (connect c timeout).runOn { σ with host := h' } = some (r, τ') ∧
      τ.session.AtOtherTimes τ'.session := by
  rw [connect_eq_announce] at hrun ⊢
  have hannounce := announce_follows hG hpatience c
  have hstart : Scene.Both (fun s s' => s' = s) G σ { σ with host := h' } := ⟨rfl, hhost⟩
  rcases Act.runOn_bind_inv hrun with ⟨fault, hsent, rfl⟩ | ⟨⟨⟩, υ, hsent, hrun⟩
  · obtain ⟨τ', hsent', hτ⟩ := hannounce _ _ _ _ hstart hsent
    exact ⟨τ', Act.runOn_bind_of_error hsent' _, _, _, hτ.session⟩
  obtain ⟨υ', hsent', hυ⟩ := hannounce _ _ _ _ hstart hsent
  obtain ⟨hall, hall', hafter⟩ := harrives υ υ' hsent hsent'
  have hsame : Same (fun s => (s.settings, s.capacity)) σ υ := announce_same c σ _ υ hsent
  obtain ⟨hsettings, hcapacity⟩ := Prod.mk.inj hsame
  have hsession : υ'.session = υ.session := hυ.session
  -- Each client takes in its CONNACK, and goes on from there with the same bytes.
  have hreceive := receiveConnack_of_answers (hcapacity ▸ hfits) hmax (hsettings ▸ hintime) hall
  have hreceive' := receiveConnack_of_answers (by rw [hsession, hcapacity, hbody]; exact hfits)
    (hbody ▸ hmax) (by rw [hsession, hsettings]; exact hintime') hall'
  have hheader : a'.header = a.header := by rw [Arrival.header, Arrival.header, hbody]
  have hends := ((acceptConnack_otherTimes a.header).bind_eq (takeUp_otherTimes hH c)).follows
    ⟨υ.session.readAt 0 a.body, _⟩ ⟨υ.session.readAt 0 a.body, _⟩ r τ
    ⟨⟨υ.session.lastTx, υ.session.lastRx, rfl⟩, hafter⟩
  rw [Act.runOn_bind, hreceive, ← Act.runOn_bind] at hrun
  rw [Act.runOn_bind_of_ok hsent', Act.runOn_bind, hreceive', ← Act.runOn_bind, hheader, hsession,
    hbody]
  obtain ⟨τ', hrun', hτ⟩ := hends hrun
  exact ⟨τ', hrun', hτ.session⟩

end MqttClient.Session

namespace MqttClient.Scripted

/-! What a scripted host does depends neither on its log nor on the reads that are still to come,
unless it is asked to read. -/

variable (h : Scripted)

theorem read_logged (asked : ℕ) (log : List Sighting) :
    ∃ log', read asked { h with log } =
      ((h.read asked).1, { (h.read asked).2 with log := log' }) := by
  obtain ⟨incoming, reads⟩ := h
  rcases reads with _ | ⟨turn, reads⟩
  · exact ⟨_, rfl⟩
  · cases turn <;> exact ⟨_, rfl⟩

theorem write_logged (spans : List Bytes) (log : List Sighting) :
    ∃ log', write spans { h with log } =
      ((h.write spans).1, { (h.write spans).2 with log := log' }) := by
  have hrun : ∀ offered lengths, ∃ log', writeRun offered lengths { h with log } =
      ((h.writeRun offered lengths).1, { (h.writeRun offered lengths).2 with log := log' }) := by
    intro offered lengths
    obtain ⟨incoming, reads, writes⟩ := h
    rcases writes with _ | ⟨turn, writes⟩
    · exact ⟨_, rfl⟩
    · cases turn <;> exact ⟨_, rfl⟩
  simp only [write]
  split
  · exact hrun _ _
  · cases firstSpan? spans with
    | none => exact ⟨_, rfl⟩
    | some span => exact hrun span none

theorem now_logged (log : List Sighting) :
    now { h with log } = (h.now.1, { h.now.2 with log }) := by
  obtain ⟨incoming, reads, writes, writeLimit, gathers, flushFails, guards, clock, ticks⟩ := h
  cases ticks <;> rfl

theorem guardMark_logged (s : Sighting) (log : List Sighting) :
    ∃ log', guardMark { h with log } s = { h.guardMark s with log := log' } := by
  obtain ⟨incoming, reads, writes, writeLimit, gathers, flushFails, guards⟩ := h
  cases guards <;> exact ⟨_, rfl⟩

/-- Besides its clock being ahead, a scripted host may have seen something else. -/
theorem clockAhead_logged (k : UInt32) :
    Host.ClockAhead k fun h h' : Scripted => ∃ log, h' = { h.ahead k with log } where
  read n h _ := by
    rintro ⟨log, rfl⟩
    obtain ⟨log', hread⟩ := (h.ahead k).read_logged n log
    rw [read_ahead] at hread
    exact ⟨(congrArg Prod.fst hread).symm, log', congrArg Prod.snd hread⟩
  write spans h _ := by
    rintro ⟨log, rfl⟩
    obtain ⟨log', hwrite⟩ := (h.ahead k).write_logged spans log
    rw [write_ahead] at hwrite
    exact ⟨(congrArg Prod.fst hwrite).symm, log', congrArg Prod.snd hwrite⟩
  flush h _ := by
    rintro ⟨log, rfl⟩
    exact ⟨rfl, _, rfl⟩
  now h _ := by
    rintro ⟨log, rfl⟩
    have hnow := (h.ahead k).now_logged log
    rw [now_ahead] at hnow
    exact ⟨congrArg Prod.fst hnow, log, congrArg Prod.snd hnow⟩
  enter h _ := by
    rintro ⟨log, rfl⟩
    obtain ⟨log', hmark⟩ := (h.ahead k).guardMark_logged .enter log
    rw [guardMark_ahead] at hmark
    exact ⟨log', hmark⟩
  exit h _ := by
    rintro ⟨log, rfl⟩
    obtain ⟨log', hmark⟩ := (h.ahead k).guardMark_logged .exit log
    rw [guardMark_ahead] at hmark
    exact ⟨log', hmark⟩
  tracking h _ := by
    rintro ⟨log, rfl⟩
    exact ⟨_, rfl⟩
  notify event h _ := by
    rintro ⟨log, rfl⟩
    exact ⟨_, rfl⟩
  patience h _ := by
    rintro ⟨log, rfl⟩
    rfl

theorem write_reads (spans : List Bytes) (reads : List Turn) :
    write spans { h with reads } = ((h.write spans).1, { (h.write spans).2 with reads }) ∧
      (h.write spans).2.reads = h.reads := by
  have hrun : ∀ offered lengths, writeRun offered lengths { h with reads } =
      ((h.writeRun offered lengths).1, { (h.writeRun offered lengths).2 with reads }) ∧
        (h.writeRun offered lengths).2.reads = h.reads := by
    intro offered lengths
    obtain ⟨incoming, reads', writes⟩ := h
    rcases writes with _ | ⟨turn, writes⟩
    · exact ⟨rfl, rfl⟩
    · cases turn <;> exact ⟨rfl, rfl⟩
  simp only [write]
  split
  · exact hrun _ _
  · cases firstSpan? spans with
    | none => exact ⟨rfl, rfl⟩
    | some span => exact hrun span none

/-- Hosts of which the second has more reads to come take the same writes. -/
theorem takesAlike_reads : Host.TakesAlike 0 fun h h' : Scripted =>
    ∃ reads, h.reads.length ≤ reads.length ∧ h' = { h with reads } where
  write spans h _ := by
    rintro ⟨reads, hmore, rfl⟩
    obtain ⟨hwrite, hreads⟩ := h.write_reads spans reads
    exact ⟨(congrArg Prod.fst hwrite).symm, reads, hreads ▸ hmore, congrArg Prod.snd hwrite⟩
  flush h _ := by
    rintro ⟨reads, hmore, rfl⟩
    exact ⟨rfl, reads, hmore, rfl⟩
  now h _ := by
    rintro ⟨reads, hmore, rfl⟩
    obtain ⟨incoming, reads', writes, writeLimit, gathers, flushFails, guards, clock, ticks⟩ := h
    cases ticks <;> exact ⟨(UInt32.add_zero _).symm, reads, hmore, rfl⟩
  enter h _ := by
    rintro ⟨reads, hmore, rfl⟩
    obtain ⟨incoming, reads', writes, writeLimit, gathers, flushFails, guards⟩ := h
    cases guards <;> exact ⟨reads, hmore, rfl⟩
  exit h _ := by
    rintro ⟨reads, hmore, rfl⟩
    obtain ⟨incoming, reads', writes, writeLimit, gathers, flushFails, guards⟩ := h
    cases guards <;> exact ⟨reads, hmore, rfl⟩

end MqttClient.Scripted

namespace MqttClient.Session

/-- A CONNACK from a broker that takes ten messages at once. -/
def tenAtOnce : Scene Scripted where
  session := .create 16 (.empty 1 1) .v5 {}
  host := { incoming := [0x20, 6, 0, 0, 3, 0x21, 0, 10] }

/-- It comes late, one byte or a few at a time, and with a pause. -/
def littleByLittle : List Turn :=
  [.move 0, .move 1, .move 1, .move 2, .move 0, .move 3, .move 1]

theorem connect_reassembles_late : ∃ τ τ' : Scene Scripted,
    (connect { clientId := "c" } 1000).runOn tenAtOnce = some (.ok false, τ) ∧
      (connect { clientId := "c" } 1000).runOn
        { tenAtOnce with host := { tenAtOnce.host with reads := littleByLittle } } =
          some (.ok false, τ') ∧
      τ.session.negotiated.serverReceiveMax = 10 ∧ τ.session.AtOtherTimes τ'.session := by
  have hruns : ((connect { clientId := "c" } 1000).runOn tenAtOnce).map (fun ending =>
      (ending.1, ending.2.session.negotiated.serverReceiveMax)) = some (.ok false, 10) := by
    decide +kernel
  obtain ⟨⟨r, τ⟩, hrun, hends⟩ := Option.map_eq_some_iff.mp hruns
  obtain ⟨rfl, hmax⟩ := Prod.mk.inj hends
  let a : Arrival := ⟨5, [], 6, [([0, 0, 3, 0x21, 0, 10], 7)]⟩
  let a' : Arrival := ⟨5, [6], 7, [([0, 0], 8), ([], 9), ([3, 0x21, 0], 10), ([10], 11)]⟩
  have harrives : ∀ ending ∈ (announce { clientId := "c" }).runOn tenAtOnce,
      ∀ ending' ∈ (announce { clientId := "c" }).runOn
        { tenAtOnce with host := { tenAtOnce.host with reads := littleByLittle } },
        Host.Answers (a.calls 1000) ending.2.host ∧ Host.Answers (a'.calls 1000) ending'.2.host ∧
          Host.after (a'.calls 1000) ending'.2.host =
            { (Host.after (a.calls 1000) ending.2.host).ahead 4 with
              log := (Host.after (a'.calls 1000) ending'.2.host).log } := by
    decide +kernel
  obtain ⟨τ', hrun', hτ⟩ := connect_reassembles Scripted.takesAlike_reads
    (by
      rintro h _ ⟨reads, hmore, rfl⟩
      simp only [Host.patience, Scripted.patience]
      omega)
    (Scripted.clockAhead_logged 4) ⟨littleByLittle, by decide, rfl⟩
    (show a'.body = a.body from rfl) (by decide) (by decide) (by decide) (by decide)
    (fun υ υ' hsent hsent' =>
      have h := harrives _ hsent _ hsent'
      ⟨h.1, h.2.1, _, h.2.2⟩) hrun
  exact ⟨τ, τ', hrun, hrun', hmax, hτ⟩

/-- A broker that accepts the connection, with reads as given. -/
def accepting (reads : List Turn) : Scene Scripted where
  session := .create 64 (.empty 1 1) .v311 {}
  host := { incoming := [0x20, 2, 0, 0], reads }

/-- A pause inside the header is no matter of time: the CONNACK is given up at once. -/
theorem connect_pause_in_header :
    ((connect { clientId := "c" } 1000).runOn (accepting [])).map (fun ending =>
        (ending.1, ending.2.session.status)) = some (.ok false, .connected) ∧
      ((connect { clientId := "c" } 1000).runOn (accepting [.move 1, .move 0])).map (fun ending =>
        (ending.1, ending.2.session.status, ending.2.host.clock)) =
          some (.error .badResponse, .notConnected, 5) := by
  decide +kernel

end MqttClient.Session
