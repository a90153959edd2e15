import MqttClient.Proofs.Headers
import MqttClient.Proofs.Lockstep
import MqttClient.Proofs.Receiving

/-!
# Packets out of a stream

However a transport cuts a stream into reads, receiving handles its packets one by one as if each
had been handed over whole. The invariant (`Holds`) is that the network buffer and the bytes still
to arrive make up the packets that are left; each call of `Session.receive` either handles the
first of them or comes closer to having all of it (`Holds.receive`).
-/
namespace MqttClient

/-- A packet as it stands in a stream: its header may arrive, and the whole of it fits into a
network buffer of `capacity` bytes. -/
structure WholePacket (version : Version) (capacity : ℕ) where
  bytes : Bytes
  header : Header
  decode_eq : Header.decode version bytes = .ok header
  length_eq : bytes.length = header.total
  fits : header.total ≤ capacity

namespace WholePacket
variable {version : Version} {capacity : ℕ}

/-- The packet. -/
def packet (p : WholePacket version capacity) : Packet :=
  p.header.withData (p.bytes.drop p.header.length)

/-- The bytes of packets that follow one another. -/
def stream (packets : List (WholePacket version capacity)) : Bytes := packets.flatMap bytes

theorem length_pos (p : WholePacket version capacity) : 0 < p.bytes.length := by
  rw [p.length_eq]
  exact Header.total_pos p.decode_eq

@[simp] theorem stream_cons (p : WholePacket version capacity)
    (packets : List (WholePacket version capacity)) :
    stream (p :: packets) = p.bytes ++ stream packets := by simp [stream]

theorem stream_eq_nil {packets : List (WholePacket version capacity)} :
    stream packets = [] ↔ packets = [] := by
  cases packets with
  | nil => simp [stream]
  | cons p rest =>
    have := p.length_pos
    simp [List.length_pos_iff.mp this]

/-- What is received of a stream of packets either has the first packet whole at its front, or is
a part of it, from which no other header can be read. -/
theorem front_cases {packets : List (WholePacket version capacity)} {b unread : Bytes}
    (p : WholePacket version capacity) (hne : b ≠ [])
    (hstream : b ++ unread = stream (p :: packets)) :
    (∃ more, b = p.bytes ++ more ∧ Header.decode version b = .ok p.header) ∨
      b.length < p.header.total ∧ (Header.decode version b = .ok p.header ∨
        Header.decode version b = .error .needMoreBytes) := by
  rw [stream_cons] at hstream
  by_cases hwhole : p.header.total ≤ b.length
  · rw [← p.length_eq] at hwhole
    obtain ⟨more, rfl⟩ : ∃ more, b = p.bytes ++ more := by
      have hfront : p.bytes <+: b ++ unread := hstream ▸ List.prefix_append ..
      obtain ⟨more, hmore⟩ := List.prefix_of_prefix_length_le hfront (List.prefix_append ..) hwhole
      exact ⟨more, hmore.symm⟩
    have hbytes : p.bytes ≠ [] := List.length_pos_iff.mp p.length_pos
    refine .inl ⟨more, rfl, ?_⟩
    rw [Header.decode_append more hbytes (by simp [p.decode_eq]), p.decode_eq]
  · have hshort : b.length < p.header.total := by omega
    rw [← p.length_eq] at hshort
    have hfront : b <+: p.bytes ++ stream packets := hstream ▸ List.prefix_append ..
    obtain ⟨more, hmore⟩ :=
      List.prefix_of_prefix_length_le hfront (List.prefix_append ..) (Nat.le_of_lt hshort)
    have hdecode : Header.decode version (b ++ more) = .ok p.header := by
      rw [hmore, p.decode_eq]
    exact .inr ⟨p.length_eq ▸ hshort, Header.decode_front hne hdecode⟩

end WholePacket

namespace Session
variable {ω : Type} [Host ω]

/-- What stands in the network buffer up to the bytes read to an offset. -/
theorem take_readAt {s : Session} {offset : ℕ} (hoffset : offset ≤ s.capacity)
    (arrived : Bytes) :
    (s.readAt offset arrived).buffer.take (offset + arrived.length) =
      s.buffer.take offset ++ arrived := by
  have hlength : (s.buffer.take offset).length = offset := by
    rw [List.length_take]
    exact Nat.min_eq_left hoffset
  simp only [readAt]
  rw [List.take_append_of_le_length (by simp [hlength])]
  exact List.take_of_length_le (by simp [hlength])

theorem capacity_readAt {s : Session} {offset : ℕ} (arrived : Bytes)
    (hroom : offset + arrived.length ≤ s.capacity) :
    (s.readAt offset arrived).capacity = s.capacity := by
  simp only [capacity, readAt, List.length_append, List.length_take, List.length_drop] at hroom ⊢
  omega

/-- Taking a whole packet off the front leaves what follows it. -/
theorem take_consume {s : Session} {n : ℕ} {front more : Bytes} (hn : front.length = n)
    (hbuffer : s.buffer.take s.filled = front ++ more) (hfilled : s.filled ≤ s.capacity) :
    (s.consume n).buffer.take (s.consume n).filled = more ∧
      (s.consume n).capacity = s.capacity ∧ (s.consume n).filled ≤ s.capacity := by
  have hlength : s.filled = n + more.length := by
    rw [← hn, ← List.length_append, ← hbuffer, List.length_take]
    exact (Nat.min_eq_left hfilled).symm
  have hkept : (s.buffer.take s.filled).drop n = more := by
    rw [hbuffer, ← hn, List.drop_left]
  simp only [capacity] at hfilled ⊢
  simp only [consume, hkept, List.length_append, List.length_drop]
  refine ⟨?_, by omega, by omega⟩
  rw [List.take_append_of_le_length (by omega), List.take_of_length_le (by omega)]

end Session

variable {ω : Type} [Host ω] {version : Version} {capacity : ℕ}

/-- Handle a packet, whole and alone. -/
def handleWhole (p : WholePacket version capacity) : Act ω Progress := do
  Session.dispatch false p.packet
  return .packet p.header.firstByte

/-- Handle packets in order, and give each outcome. -/
def handleEach : List (WholePacket version capacity) → Act ω (List (Except Fault Progress))
  | [] => return []
  | p :: rest => do
    let first ← Act.outcome (handleWhole p)
    return first :: (← handleEach rest)

/-- Call `Session.receiveOnly` a number of times, and give each outcome. -/
def receiveTimes : ℕ → Act ω (List (Except Fault Progress))
  | 0 => return []
  | n + 1 => do
    let first ← Act.outcome Session.receiveOnly
    return first :: (← receiveTimes n)

/-- Whether an outcome is that of a packet. -/
def isPacketOutcome : Except Fault Progress → Bool
  | .ok .noData | .ok .needMoreBytes => false
  | .ok (.packet _) | .error _ => true

/-- The invariant: a scene whose network buffer and unread bytes make up packets, beside another
one to which the packets before them were handed whole. -/
structure Holds (s : Stream ω) (packets : List (WholePacket version capacity))
    (σ σ' : Scene (Watched ω)) : Prop extends Alike σ σ' where
  works : s.Works σ.host.host
  works' : s.Works σ'.host.host
  version_eq : σ.session.version = version
  capacity_eq : σ.session.capacity = capacity
  filled_le : σ.session.filled ≤ σ.session.capacity
  stream_eq : σ.session.buffer.take σ.session.filled ++ s.unread σ.host.host =
    WholePacket.stream packets

/-- How many calls it takes at most until all packets are handled. -/
def callsLeft (s : Stream ω) (packets : List (WholePacket version capacity))
    (σ : Scene (Watched ω)) : ℕ :=
  s.pauses σ.host.host + (s.unread σ.host.host).length + packets.length

namespace Holds
variable {s : Stream ω} {packets : List (WholePacket version capacity)}
  {σ σ' : Scene (Watched ω)}

/-- A read moves bytes from the transport to the network buffer. -/
theorem arrive (hs : s.Faultless) (h : Holds s packets σ σ') :
    ∃ τ, (Session.arrive false).runOn σ = some (.ok (), τ) ∧ Holds s packets τ σ' ∧
      callsLeft s packets τ ≤ callsLeft s packets σ ∧
      (s.unread τ.host.host ≠ [] → τ.session.filled < capacity →
        callsLeft s packets τ < callsLeft s packets σ) := by
  generalize hn : σ.session.capacity - σ.session.filled = n
  obtain ⟨k, hk, hk', hread, hworks, hunread, hpauses, hpause⟩ := hs.read _ n h.works
  generalize harrived : (s.unread σ.host.host).take k = arrived at hread
  have hfilled := h.filled_le
  have hlength : arrived.length = k := by
    rw [← harrived, List.length_take]
    exact Nat.min_eq_left hk'
  have hrun : (Session.arrive false).runOn σ = some (.ok (),
      ⟨{ σ.session.readAt σ.session.filled arrived with filled := σ.session.filled + k },
        (Host.read n σ.host).2⟩) := by
    rw [Session.arrive, Act.runOn_bind_of_ok (Act.runOn_session _), hn]
    rw [Act.runOn_bind_of_ok (Session.runOn_readInto_some hread), Nat.min_eq_left hk]
    rw [List.take_of_length_le (by omega), Act.runOn_bind_of_ok (Act.runOn_change _ _)]
    rw [if_neg (by simp)]
    rfl
  have htake := Session.take_readAt hfilled arrived
  rw [hlength] at htake
  have hroom : σ.session.filled + arrived.length ≤ σ.session.capacity := by omega
  have hcapacity := Session.capacity_readAt arrived hroom
  have hleft : ∀ a, callsLeft s packets ⟨a, (Host.read n σ.host).2⟩ =
      s.pauses (Host.read n σ.host.host).2 + ((s.unread σ.host.host).length - k) +
        packets.length := by
    intro a
    rw [← List.length_drop, ← hunread]
    rfl
  refine ⟨_, hrun, ?_, ?_, ?_⟩
  · refine ⟨⟨h.course, ?_, ?_⟩, hworks, h.works', h.version_eq, ?_, ?_, ?_⟩
    · simpa [HostCall.event?] using h.reported
    · simpa [HostCall.taken] using h.written
    · exact hcapacity.trans h.capacity_eq
    · change σ.session.filled + k ≤ (σ.session.readAt σ.session.filled arrived).capacity
      omega
    · change (σ.session.readAt σ.session.filled arrived).buffer.take (σ.session.filled + k) ++
        s.unread (Host.read n σ.host.host).2 = _
      rw [htake, hunread, ← harrived, List.append_assoc, List.take_append_drop, h.stream_eq]
  · rw [hleft, callsLeft]
    omega
  · intro hmore hspace
    change s.unread (Host.read n σ.host.host).2 ≠ [] at hmore
    change σ.session.filled + k < capacity at hspace
    rw [hleft, callsLeft]
    by_cases hzero : k = 0
    · have hpause' := hpause hzero (by rw [← hn, h.capacity_eq]; omega) (by
        rw [hunread, hzero, List.drop_zero] at hmore
        exact hmore)
      omega
    · omega

/-- The time at which a packet was handled does not matter. -/
theorem stamp (hs : s.Faultless) (h : Holds s packets σ σ') :
    Holds s packets ⟨{ σ.session with lastRx := (Host.now σ.host).1 }, (Host.now σ.host).2⟩ σ' ∧
      callsLeft s packets ⟨{ σ.session with lastRx := (Host.now σ.host).1 },
        (Host.now σ.host).2⟩ = callsLeft s packets σ := by
  have hstill := hs.now _ h.works
  have hunread : s.unread (Host.now σ.host).2.host = s.unread σ.host.host := hstill.unread
  have hpauses : s.pauses (Host.now σ.host).2.host = s.pauses σ.host.host := hstill.pauses
  refine ⟨⟨⟨h.course, ?_, ?_⟩, hstill.works, h.works', h.version_eq, h.capacity_eq, h.filled_le,
    ?_⟩, ?_⟩
  · simpa [HostCall.event?] using h.reported
  · simpa [HostCall.taken] using h.written
  · rw [hunread]
    exact h.stream_eq
  · rw [callsLeft, callsLeft, hunread, hpauses]

omit [Host ω] in
/-- The first packet leaves the network buffer after it has been handled on both sides. -/
theorem consume {p : WholePacket version capacity} {rest : List (WholePacket version capacity)}
    {more : Bytes} {τ τ' : Scene (Watched ω)} (h : Holds s (p :: rest) σ σ')
    (hfront : σ.session.buffer.take σ.session.filled = p.bytes ++ more)
    (habreast : Abreast s (s.inbox σ) τ τ') :
    Holds s rest { τ with session := τ.session.consume p.header.total } τ' ∧
      callsLeft s rest { τ with session := τ.session.consume p.header.total } <
        callsLeft s (p :: rest) σ := by
  obtain ⟨hversion, hbuffer, hfilled, hunread, hpauses⟩ := Inbox.mk.inj habreast.inbox_eq
  have hfront' : τ.session.buffer.take τ.session.filled = p.bytes ++ more := by
    rw [hbuffer, hfilled, hfront]
  have hcapacity : τ.session.capacity = σ.session.capacity := congrArg List.length hbuffer
  have hle : τ.session.filled ≤ τ.session.capacity := by
    rw [hfilled, hcapacity]
    exact h.filled_le
  obtain ⟨htake, hsame, hroom⟩ := Session.take_consume p.length_eq hfront' hle
  refine ⟨⟨⟨habreast.course, habreast.reported, habreast.written⟩, habreast.works,
    habreast.works', hversion.trans h.version_eq, ?_, ?_, ?_⟩, ?_⟩
  · exact hsame.trans (hcapacity.trans h.capacity_eq)
  · exact hsame.symm ▸ hroom
  · have hstream := h.stream_eq
    rw [hfront, WholePacket.stream_cons, List.append_assoc] at hstream
    rw [htake, hunread]
    exact List.append_cancel_left hstream
  · simp only [callsLeft, hunread, hpauses, List.length_cons]
    omega

omit [Host ω] in
theorem length_take_filled (h : Holds s packets σ σ') :
    (σ.session.buffer.take σ.session.filled).length = σ.session.filled := by
  rw [List.length_take]
  exact Nat.min_eq_left h.filled_le

omit [Host ω] in
/-- As long as a packet is not in the network buffer, bytes of it are to arrive, and there is room
for them. -/
theorem more_of_short {p : WholePacket version capacity}
    {rest : List (WholePacket version capacity)} (h : Holds s (p :: rest) σ σ')
    (hshort : σ.session.filled < p.header.total) :
    s.unread σ.host.host ≠ [] ∧ σ.session.filled < capacity := by
  constructor
  · intro hnil
    have hlength := congrArg List.length h.stream_eq
    rw [hnil, List.append_nil, h.length_take_filled, WholePacket.stream_cons, List.length_append,
      p.length_eq] at hlength
    omega
  · exact Nat.lt_of_lt_of_le hshort p.fits

omit [Host ω] in
/-- A packet whose bytes are at the front of the network buffer is the one that is seen there. -/
theorem frontPacket_eq {p : WholePacket version capacity}
    {rest : List (WholePacket version capacity)} {more : Bytes} (h : Holds s (p :: rest) σ σ')
    (hfront : σ.session.buffer.take σ.session.filled = p.bytes ++ more) :
    p.header.total ≤ σ.session.filled ∧ σ.session.frontPacket p.header = p.packet := by
  have hwhole : p.header.total ≤ σ.session.filled := by
    rw [← h.length_take_filled, hfront, List.length_append, p.length_eq]
    omega
  have htake : σ.session.buffer.take p.header.total = p.bytes := by
    have htake := congrArg (List.take p.header.total) hfront
    rw [List.take_take, Nat.min_eq_left hwhole, ← p.length_eq, List.take_left] at htake
    rw [← p.length_eq]
    exact htake
  refine ⟨hwhole, ?_⟩
  rw [Session.frontPacket, htake]
  rfl

/-- A first packet that has arrived is handled as it would be by itself. -/
theorem handleBuffered_whole (hs : s.Faultless) {p : WholePacket version capacity}
    {rest : List (WholePacket version capacity)} {more : Bytes} (h : Holds s (p :: rest) σ σ')
    (hfront : σ.session.buffer.take σ.session.filled = p.bytes ++ more)
    (hdecode : Header.decode σ.session.version (σ.session.buffer.take σ.session.filled) =
      .ok p.header) :
    ∃ r τ τ', (Session.handleBuffered false).runOn σ = some (r, τ) ∧
      (handleWhole p).runOn σ' = some (r, τ') ∧ isPacketOutcome r = true ∧
      Holds s rest τ τ' ∧ callsLeft s rest τ < callsLeft s (p :: rest) σ := by
  obtain ⟨hwhole, hpacket⟩ := h.frontPacket_eq hfront
  have hfilled : σ.session.filled ≠ 0 := by
    have hpos := p.length_pos
    have hlength := p.length_eq
    omega
  have hrun : (Session.handleBuffered false).runOn σ = _ :=
    Session.handleBuffered_front hfilled hdecode (h.capacity_eq ▸ p.fits) hwhole
  have hmatches : Act.Matches (Abreast s (s.inbox σ)) (· = ·) _ _ :=
    Session.dispatch_matches hs false p.packet
  obtain ⟨r, τ, _, τ', hdispatch, hdispatch', hsame, habreast⟩ :=
    hmatches σ σ' ⟨h.toAlike, h.works, h.works', rfl⟩
  obtain ⟨hrest, hleft⟩ := h.consume hfront habreast
  rw [← hpacket] at hdispatch
  cases hsame with
  | error fault =>
    refine ⟨_, _, τ', hrun.trans (Session.handleFront_error hdispatch), ?_, rfl, hrest, hleft⟩
    exact Act.runOn_bind_of_error hdispatch' _
  | ok _ =>
    obtain ⟨hstamped, hsame⟩ := hrest.stamp hs
    refine ⟨_, _, τ', hrun.trans (Session.handleFront_ok hdispatch), ?_, rfl, hstamped,
      hsame ▸ hleft⟩
    exact Act.runOn_bind_of_ok hdispatch' _

/-- Either the first packet is handled as it would be by itself, or more bytes are to arrive. -/
theorem handleBuffered (hs : s.Faultless) (h : Holds s packets σ σ') :
    (∃ r, (Session.handleBuffered false).runOn σ = some (.ok r, σ) ∧
      isPacketOutcome (.ok r) = false ∧
      (packets ≠ [] → s.unread σ.host.host ≠ [] ∧ σ.session.filled < capacity)) ∨
    ∃ p rest r τ τ', packets = p :: rest ∧ (Session.handleBuffered false).runOn σ = some (r, τ) ∧
      (handleWhole p).runOn σ' = some (r, τ') ∧ isPacketOutcome r = true ∧
      Holds s rest τ τ' ∧ callsLeft s rest τ < callsLeft s packets σ := by
  by_cases hfilled : σ.session.filled = 0
  · refine .inl ⟨_, Session.handleBuffered_empty hfilled, rfl, ?_⟩
    intro hne
    obtain ⟨p, rest, rfl⟩ := List.exists_cons_of_ne_nil hne
    have hpos := p.length_pos
    have hlength := p.length_eq
    exact h.more_of_short (by omega)
  have hne : σ.session.buffer.take σ.session.filled ≠ [] :=
    List.length_pos_iff.mp (by rw [h.length_take_filled]; omega)
  cases packets with
  | nil => exact absurd (List.append_eq_nil_iff.mp h.stream_eq).1 hne
  | cons p rest =>
    have hversion : ∀ b, Header.decode σ.session.version b = Header.decode version b := by
      intro b
      rw [h.version_eq]
    have hcases := WholePacket.front_cases p hne h.stream_eq
    rw [h.length_take_filled] at hcases
    rcases hcases with ⟨more, hfront, hdecode⟩ | ⟨hshort, hdecode⟩
    · obtain ⟨r, τ, τ', hrun, halone, hr, hrest, hleft⟩ :=
        h.handleBuffered_whole hs hfront ((hversion _).trans hdecode)
      exact .inr ⟨p, rest, r, τ, τ', rfl, hrun, halone, hr, hrest, hleft⟩
    · refine .inl ⟨.needMoreBytes, ?_, rfl, fun _ => h.more_of_short hshort⟩
      rcases hdecode with hdecode | hdecode
      · exact Session.handleBuffered_part hfilled ((hversion _).trans hdecode)
          (h.capacity_eq ▸ p.fits) hshort
      · exact Session.handleBuffered_needMore hfilled ((hversion _).trans hdecode)

/-- One call either has no outcome of a packet, and then comes closer to having one, or it has
the outcome of the first packet. -/
theorem receive (hs : s.Faultless) (h : Holds s packets σ σ') :
    (∃ r τ, (Session.receiveOnly).runOn σ = some (.ok r, τ) ∧ isPacketOutcome (.ok r) = false ∧
      Holds s packets τ σ' ∧ (packets ≠ [] → callsLeft s packets τ < callsLeft s packets σ)) ∨
    ∃ p rest r τ τ', packets = p :: rest ∧ (Session.receiveOnly).runOn σ = some (r, τ) ∧
      (handleWhole p).runOn σ' = some (r, τ') ∧ isPacketOutcome r = true ∧
      Holds s rest τ τ' ∧ callsLeft s rest τ < callsLeft s packets σ := by
  obtain ⟨υ, harrive, hυ, hle, hlt⟩ := h.arrive hs
  have hrun : (Session.receiveOnly).runOn σ = (Session.handleBuffered false).runOn υ := by
    rw [Session.receiveOnly, Session.receive_eq, Act.runOn_bind_of_ok harrive]
  rcases hυ.handleBuffered hs with ⟨r, hlook, hr, hmore⟩ |
    ⟨p, rest, r, τ, τ', rfl, hlook, halone, hr, hrest, hleft⟩
  · refine .inl ⟨r, υ, hrun.trans hlook, hr, hυ, ?_⟩
    intro hne
    obtain ⟨hunread, hspace⟩ := hmore hne
    exact hlt hunread hspace
  · exact .inr ⟨p, rest, r, τ, τ', rfl, hrun.trans hlook, halone, hr, hrest,
      Nat.lt_of_lt_of_le hleft hle⟩

/-- Any number of calls handle packets from the front, all of them if there are calls enough. The
induction is on the number of calls; the packets that are left change from call to call. -/
theorem receiveTimes (hs : s.Faultless) (h : Holds s packets σ σ') (n : ℕ) :
    ∃ outcomes τ k outcomes' τ', (receiveTimes n).runOn σ = some (.ok outcomes, τ) ∧
      (handleEach (packets.take k)).runOn σ' = some (.ok outcomes', τ') ∧
      outcomes.filter isPacketOutcome = outcomes' ∧ Holds s (packets.drop k) τ τ' ∧
      k ≤ packets.length ∧ (callsLeft s packets σ ≤ n → k = packets.length) := by
  induction n generalizing packets σ σ' with
  | zero =>
    refine ⟨[], σ, 0, [], σ', rfl, rfl, rfl, h, Nat.zero_le _, ?_⟩
    intro hcalls
    rw [callsLeft] at hcalls
    omega
  | succ n ih =>
    have hfirst : ∀ {r τ}, (Session.receiveOnly).runOn σ = some (r, τ) →
        ∀ {outcomes υ}, (MqttClient.receiveTimes n).runOn τ = some (.ok outcomes, υ) →
        (MqttClient.receiveTimes (n + 1)).runOn σ = some (.ok (r :: outcomes), υ) := by
      intro r τ hcall outcomes υ hcalls
      rw [MqttClient.receiveTimes, Act.runOn_bind_of_ok (a := r) (τ := τ)]
      · rw [Act.runOn_bind_of_ok hcalls, Act.runOn_pure]
      · rw [Act.runOn_outcome, hcall]
        rfl
    rcases h.receive hs with ⟨r, τ, hcall, hr, hτ, hless⟩ |
      ⟨p, rest, r, τ, τ', rfl, hcall, halone, hr, hrest, hless⟩
    · obtain ⟨outcomes, υ, k, outcomes', υ', hcalls, heach, hfilter, hυ, hk, henough⟩ := ih hτ
      refine ⟨_, υ, k, outcomes', υ', hfirst hcall hcalls, heach, ?_, hυ, hk, ?_⟩
      · rw [List.filter_cons_of_neg (by simp [hr]), hfilter]
      · intro hle
        by_cases hempty : packets = []
        · subst hempty
          exact Nat.le_zero.mp hk
        · exact henough (by have := hless hempty; omega)
    · obtain ⟨outcomes, υ, k, outcomes', υ', hcalls, heach, hfilter, hυ, hk, henough⟩ := ih hrest
      refine ⟨_, υ, k + 1, r :: outcomes', υ', hfirst hcall hcalls, ?_, ?_, hυ, ?_, ?_⟩
      · rw [List.take_succ_cons, handleEach, Act.runOn_bind_of_ok (a := r) (τ := τ')]
        · rw [Act.runOn_bind_of_ok heach, Act.runOn_pure]
        · rw [Act.runOn_outcome, halone]
          rfl
      · rw [List.filter_cons_of_pos hr, hfilter]
      · exact Nat.succ_le_succ hk
      · intro hle
        exact congrArg (· + 1) (henough (by omega))

omit [Host ω] in
/-- The stream is used up when no packet is left. -/
theorem used_up_iff (h : Holds s packets σ σ') :
    σ.session.filled = 0 ∧ s.unread σ.host.host = [] ↔ packets = [] := by
  have hstream := h.stream_eq
  have hfilled : σ.session.filled ≤ σ.session.buffer.length := h.filled_le
  rw [← WholePacket.stream_eq_nil, ← hstream, List.append_eq_nil_iff]
  refine and_congr_left fun _ => ?_
  rw [← List.length_eq_zero_iff, List.length_take]
  omega

end Holds

/-- **Reassembly.** On a faultless transport whose unread bytes are packets that fit, and with an
empty network buffer, any number of calls of `Session.receiveOnly` does what handing the first
few packets over whole does: the outcomes of the other calls apart, the same outcomes, the same
reports, the same bytes written, and the same exchanges, whatever the reads are. Those are all
packets just when stream and buffer are used up, which enough calls make sure of. -/
theorem receive_reassembles {s : Stream ω} (hs : s.Faultless) {σ : Scene (Watched ω)}
    (hworks : s.Works σ.host.host) (hempty : σ.session.filled = 0)
    (packets : List (WholePacket σ.session.version σ.session.capacity))
    (hstream : s.unread σ.host.host = WholePacket.stream packets) (n : ℕ) :
    ∃ outcomes τ k outcomes' τ', (receiveTimes n).runOn σ = some (.ok outcomes, τ) ∧
      (handleEach (packets.take k)).runOn σ = some (.ok outcomes', τ') ∧
      outcomes.filter isPacketOutcome = outcomes' ∧
      reported τ.host.calls = reported τ'.host.calls ∧
      written τ.host.calls = written τ'.host.calls ∧
      τ.session.course = τ'.session.course ∧ τ.session.exchanges = τ'.session.exchanges ∧
      k ≤ packets.length ∧
      (τ.session.filled = 0 ∧ s.unread τ.host.host = [] ↔ k = packets.length) ∧
      (callsLeft s packets σ ≤ n → k = packets.length) := by
  have hstart : Holds s packets σ σ := {
    course := rfl
    reported := rfl
    written := rfl
    works := hworks
    works' := hworks
    version_eq := rfl
    capacity_eq := rfl
    filled_le := hempty ▸ Nat.zero_le _
    stream_eq := by rw [hempty, List.take_zero, List.nil_append, hstream] }
  obtain ⟨outcomes, τ, k, outcomes', τ', hcalls, heach, hfilter, hτ, hk, henough⟩ :=
    hstart.receiveTimes hs n
  refine ⟨outcomes, τ, k, outcomes', τ', hcalls, heach, hfilter, hτ.reported, hτ.written,
    hτ.course, (congrArg Session.exchanges hτ.course :), hk, ?_, henough⟩
  rw [hτ.used_up_iff, List.drop_eq_nil_iff]
  omega

/-- A PINGRESP in a stream. -/
def WholePacket.pingresp {capacity : ℕ} (h : 2 ≤ capacity) : WholePacket .v311 capacity where
  bytes := [0xD0, 0x00]
  header := ⟨0xD0, 0, 2⟩
  decode_eq := rfl
  length_eq := rfl
  fits := h

/-- Two packets on their way, the first in two reads with a pause between them, the second in the
same read as the end of the first. -/
def trickle : Scene (Watched Scripted) where
  session := Session.create 4 (.empty 1 1) .v311 {}
  host :=
    { host :=
        { incoming := [0xD0, 0x00, 0xD0, 0x00]
          reads := [.move 1, .move 0, .move 3] } }

theorem receive_reassembles_trickle :
    ∃ outcomes τ, (receiveTimes 9).runOn trickle = some (.ok outcomes, τ) ∧
      outcomes.filter isPacketOutcome = [.ok (.packet 0xD0), .ok (.packet 0xD0)] ∧
      (reported τ.host.calls).length = 2 := by
  obtain ⟨outcomes, τ, k, outcomes', τ', hcalls, heach, hfilter, hreported, -, -, -, -, -, hk⟩ :=
    receive_reassembles Scripted.faultless_stream
      (show Scripted.stream.Works trickle.host.host by simp [Scripted.stream, trickle])
      rfl [.pingresp (by decide), .pingresp (by decide)] rfl 9
  have hall : k = 2 := hk (by decide)
  subst hall
  cases heach
  exact ⟨outcomes, τ, hcalls, hfilter, hreported ▸ rfl⟩

end MqttClient
