import MqttClient.Proofs.Running
import MqttClient.Session.Receiving

/-!
# One look at the stream

`Session.receive` is a read (`Session.arrive`) followed by a look at the network buffer
(`Session.handleBuffered`). The lemmas here say what each of the two comes to, case by case.
-/
namespace MqttClient.Session
variable {ω : Type} [Host ω]

/-- Read once, and under managed keep-alive see to it when nothing arrives. -/
def arrive (managed : Bool) : Act ω Unit := do
  let s ← Act.session
  let received ← Act.readInto s.filled (s.capacity - s.filled)
  Act.change fun s => { s with filled := s.filled + received }
  if received = 0 ∧ managed then keepAliveDuty

theorem receive_eq (managed : Bool) :
    (receive managed : Act ω Progress) = arrive managed >>= fun _ => handleBuffered managed := by
  simp only [receive, arrive, bind_assoc]
  refine congrArg _ (funext fun s => congrArg _ (funext fun received => congrArg _ (funext ?_)))
  intro _
  split
  · rfl
  · rw [pure_bind]

/-- A session after a read of bytes to an offset of its network buffer. -/
def readAt (s : Session) (offset : Nat) (arrived : Bytes) : Session :=
  { s with buffer := s.buffer.take offset ++ arrived ++ s.buffer.drop (offset + arrived.length) }

theorem runOn_readInto_some {offset n count : Nat} {arrived : Bytes} {σ : Scene ω}
    (h : (Host.read n σ.host).1 = some (count, arrived)) :
    (Act.readInto offset n).runOn σ = some (.ok (min count n),
      ⟨σ.session.readAt offset (arrived.take n), (Host.read n σ.host).2⟩) := by
  rw [Act.readInto, Act.runOn_bind_of_ok (Act.runOn_host _ _), h]
  rfl

theorem runOn_readInto_none {offset n : Nat} {σ : Scene ω} (h : (Host.read n σ.host).1 = none) :
    (Act.readInto offset n).runOn σ =
      some (.error .recvFailed, { σ with host := (Host.read n σ.host).2 }) := by
  rw [Act.readInto, Act.runOn_bind_of_ok (Act.runOn_host _ _), h]
  rfl

variable {managed : Bool} {σ τ : Scene ω} {header : Header}

theorem handleBuffered_empty (h : σ.session.filled = 0) :
    (handleBuffered managed).runOn σ = some (.ok .noData, σ) := by
  rw [handleBuffered, Act.runOn_bind_of_ok (Act.runOn_session _), if_pos h, Act.runOn_pure]

theorem handleBuffered_needMore (hfilled : σ.session.filled ≠ 0)
    (hdecode : Header.decode σ.session.version (σ.session.buffer.take σ.session.filled) =
      .error .needMoreBytes) :
    (handleBuffered managed).runOn σ = some (.ok .needMoreBytes, σ) := by
  rw [handleBuffered, Act.runOn_bind_of_ok (Act.runOn_session _), if_neg hfilled, hdecode]
  rfl

/-- Part of a packet that fits waits for the rest of it. -/
theorem handleBuffered_part (hfilled : σ.session.filled ≠ 0)
    (hdecode : Header.decode σ.session.version (σ.session.buffer.take σ.session.filled) =
      .ok header)
    (hfits : header.total ≤ σ.session.capacity) (hpart : σ.session.filled < header.total) :
    (handleBuffered managed).runOn σ = some (.ok .needMoreBytes, σ) := by
  rw [handleBuffered, Act.runOn_bind_of_ok (Act.runOn_session _), if_neg hfilled, hdecode]
  simp only [if_neg (Nat.not_lt.mpr hfits), if_pos hpart, Act.runOn_pure]

/-- The packet of a header at the front of the network buffer. -/
def frontPacket (s : Session) (header : Header) : Packet :=
  header.withData ((s.buffer.take header.total).drop header.length)

theorem handleBuffered_front (hfilled : σ.session.filled ≠ 0)
    (hdecode : Header.decode σ.session.version (σ.session.buffer.take σ.session.filled) =
      .ok header)
    (hfits : header.total ≤ σ.session.capacity) (hwhole : header.total ≤ σ.session.filled) :
    (handleBuffered managed).runOn σ = (handleFront managed header).runOn σ := by
  rw [handleBuffered, Act.runOn_bind_of_ok (Act.runOn_session _), if_neg hfilled, hdecode]
  simp only [if_neg (Nat.not_lt.mpr hfits), if_neg (Nat.not_lt.mpr hwhole)]

/-- The packet that is whole at the front of the network buffer, if one is. -/
def wholePacket? (s : Session) : Option Packet :=
  match Header.decode s.version (s.buffer.take s.filled) with
  | .error _ => none
  | .ok header =>
    if header.total ≤ s.capacity ∧ header.total ≤ s.filled then some (s.frontPacket header)
    else none

theorem wholePacket?_inv {s : Session} {packet : Packet} (h : s.wholePacket? = some packet) :
    ∃ header, Header.decode s.version (s.buffer.take s.filled) = .ok header ∧
      header.total ≤ s.capacity ∧ header.total ≤ s.filled ∧ packet = s.frontPacket header := by
  rw [wholePacket?] at h
  split at h
  · cases h
  · rename_i header hdecode
    split at h
    · rename_i hbounds
      cases h
      exact ⟨header, hdecode, hbounds.1, hbounds.2, rfl⟩
    · cases h

theorem handleBuffered_whole {packet : Packet} (h : σ.session.wholePacket? = some packet) :
    ∃ header, packet = σ.session.frontPacket header ∧
      (handleBuffered managed).runOn σ = (handleFront managed header).runOn σ := by
  obtain ⟨header, hdecode, hfits, hwhole, rfl⟩ := wholePacket?_inv h
  refine ⟨header, rfl, handleBuffered_front ?_ hdecode hfits hwhole⟩
  intro hfilled
  rw [hfilled, List.take_zero] at hdecode
  cases hdecode

/-- A packet that is handled leaves the network buffer. -/
theorem handleFront_ok (h : (dispatch managed (σ.session.frontPacket header)).runOn σ =
      some (.ok (), τ)) :
    (handleFront managed header).runOn σ = some (.ok (.packet header.firstByte),
      ⟨{ τ.session.consume header.total with lastRx := (Host.now τ.host).1 },
        (Host.now τ.host).2⟩) := by
  rw [handleFront, Act.runOn_bind_of_ok (Act.runOn_session _)]
  rw [Act.runOn_bind_of_ok (a := .ok ()) (τ := τ)]
  · rfl
  · rw [Act.runOn_outcome]
    exact congrArg (Option.map _) h

/-- So does one that is refused. -/
theorem handleFront_error {fault : Fault}
    (h : (dispatch managed (σ.session.frontPacket header)).runOn σ = some (.error fault, τ)) :
    (handleFront managed header).runOn σ =
      some (.error fault, { τ with session := τ.session.consume header.total }) := by
  rw [handleFront, Act.runOn_bind_of_ok (Act.runOn_session _)]
  rw [Act.runOn_bind_of_ok (a := .error fault) (τ := τ)]
  · rfl
  · rw [Act.runOn_outcome]
    exact congrArg (Option.map _) h

/-- Handling the packet at the front ends as handling the packet ends. -/
theorem handleFront_inv {r : Except Fault Progress}
    (h : (handleFront managed header).runOn σ = some (r, τ)) :
    (∃ υ, (dispatch managed (σ.session.frontPacket header)).runOn σ = some (.ok (), υ) ∧
      r = .ok (.packet header.firstByte) ∧ τ.host = (Host.now υ.host).2) ∨
    ∃ fault υ, (dispatch managed (σ.session.frontPacket header)).runOn σ =
      some (.error fault, υ) ∧ r = .error fault ∧ τ.host = υ.host := by
  rcases hdispatch : (dispatch managed (σ.session.frontPacket header)).runOn σ with
    _ | ⟨fault | _, υ⟩
  · rw [handleFront, Act.runOn_bind_of_ok (Act.runOn_session _), Act.runOn_bind] at h
    simp only [Act.runOn_outcome] at h
    have hnone : (dispatch managed (header.withData
        ((σ.session.buffer.take header.total).drop header.length))).runOn σ = none := hdispatch
    rw [hnone] at h
    cases h
  · rw [handleFront_error hdispatch] at h
    cases h
    exact .inr ⟨fault, υ, rfl, rfl, rfl⟩
  · rw [handleFront_ok hdispatch] at h
    cases h
    exact .inl ⟨υ, rfl, rfl, rfl⟩

/-- The session that handling the packet at the front leaves behind. -/
theorem session_of_handleFront {r : Except Fault Progress}
    (h : (handleFront managed header).runOn σ = some (r, τ)) :
    ∃ r' υ, (dispatch managed (σ.session.frontPacket header)).runOn σ = some (r', υ) ∧
      ∃ t, τ.session = { υ.session.consume header.total with lastRx := t } := by
  rcases handleFront_inv h with ⟨υ, hdispatch, -, -⟩ | ⟨fault, υ, hdispatch, -, -⟩
  · rw [handleFront_ok hdispatch] at h
    cases h
    exact ⟨_, υ, hdispatch, _, rfl⟩
  · rw [handleFront_error hdispatch] at h
    cases h
    exact ⟨_, υ, hdispatch, _, rfl⟩

/-- What a look at the network buffer comes to. -/
inductive Look (managed : Bool) (σ : Scene ω) (r : Except Fault Progress) (τ : Scene ω) : Prop where
  /-- No packet is whole, and none is too large. -/
  | waits (same : τ = σ)
      (part : ∀ header, Header.decode σ.session.version
        (σ.session.buffer.take σ.session.filled) = .ok header →
          header.total ≤ σ.session.capacity ∧ σ.session.filled < header.total)
      (idle : ∀ b, r ≠ .ok (.packet b))
  /-- The packet at the front is too large, and dropped. -/
  | drops {header : Header} {r' : Except Fault Unit}
      (decodes : Header.decode σ.session.version
        (σ.session.buffer.take σ.session.filled) = .ok header)
      (large : σ.session.capacity < header.total)
      (discards : (discard (header.total - σ.session.filled)).runOn σ = some (r', τ))
      (result : r = r'.map fun _ => .noData)
  /-- The packet at the front is handled. -/
  | handles {header : Header}
      (decodes : Header.decode σ.session.version
        (σ.session.buffer.take σ.session.filled) = .ok header)
      (fits : header.total ≤ σ.session.capacity) (whole : header.total ≤ σ.session.filled)
      (handled : (handleFront managed header).runOn σ = some (r, τ))

theorem handleBuffered_inv {r : Except Fault Progress}
    (h : (handleBuffered managed).runOn σ = some (r, τ)) : Look managed σ r τ := by
  rw [handleBuffered, Act.runOn_bind_of_ok (Act.runOn_session _)] at h
  split at h
  · rename_i hfilled
    cases h
    refine .waits rfl (fun header hdecode => ?_) (by rintro _ ⟨⟩)
    rw [hfilled, List.take_zero] at hdecode
    cases hdecode
  split at h
  · rename_i hdecode
    cases h
    exact .waits rfl (fun header hdecode' => by cases hdecode.symm.trans hdecode')
      (by rintro _ ⟨⟩)
  · rename_i hdecode
    cases h
    exact .waits rfl (fun header hdecode' => by cases hdecode.symm.trans hdecode')
      (by rintro _ ⟨⟩)
  rename_i header hdecode
  split at h
  · rename_i hlarge
    rcases Act.runOn_bind_inv h with ⟨fault, hdiscard, rfl⟩ | ⟨_, υ, hdiscard, h⟩
    · exact .drops hdecode hlarge hdiscard rfl
    · cases h
      exact .drops hdecode hlarge hdiscard rfl
  split at h
  · cases h
    refine .waits rfl (fun header' hdecode' => ?_) (by rintro _ ⟨⟩)
    cases hdecode.symm.trans hdecode'
    exact ⟨Nat.not_lt.mp ‹_›, ‹_›⟩
  · exact .handles hdecode (Nat.not_lt.mp ‹_›) (Nat.not_lt.mp ‹_›) h

/-- The packet that is handled is the whole packet at the front. -/
theorem wholePacket?_eq {s : Session} (hdecode : Header.decode s.version
      (s.buffer.take s.filled) = .ok header)
    (hfits : header.total ≤ s.capacity) (hwhole : header.total ≤ s.filled) :
    s.wholePacket? = some (s.frontPacket header) := by
  rw [wholePacket?, hdecode]
  exact if_pos ⟨hfits, hwhole⟩

/-- No packet is handled as long as none is whole. -/
theorem wholePacket?_eq_none {s : Session} (h : ∀ header, Header.decode s.version
      (s.buffer.take s.filled) = .ok header →
        header.total ≤ s.capacity ∧ s.filled < header.total) : s.wholePacket? = none := by
  rw [wholePacket?]
  split
  · rfl
  · exact if_neg fun hwhole => Nat.not_le.mpr (h _ ‹_›).2 hwhole.2

end MqttClient.Session
