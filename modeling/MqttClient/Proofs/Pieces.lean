import MqttClient.Proofs.Reassembly
import MqttClient.Proofs.Wire.VarInt
import MqttClient.Session.Connecting

/-!
# A CONNACK in pieces

Three loops take a CONNACK in: looks for its first byte, reads of its length, and reads of the rest.
An `Arrival` says how one comes in, and what the reads of each loop deliver. As long as no pause is
too long, and none lies inside the header, what comes of it depends on the bytes alone
(`Session.receiveConnack_of_answers`).
-/
namespace MqttClient
variable {ω : Type}

/-! ## What a host answers -/

/-- Make a call as another one was made: what it is with the answer it gets, and the host after
it. -/
def HostCall.ask [Host ω] : HostCall → ω → HostCall × ω
  | read n _, h => (read n (Host.read n h).1, (Host.read n h).2)
  | write spans _, h => (write spans (Host.write spans h).1, (Host.write spans h).2)
  | flush _, h => (flush (Host.flush h).1, (Host.flush h).2)
  | now _, h => (now (Host.now h).1, (Host.now h).2)
  | enter, h => (enter, Host.enter h)
  | exit, h => (exit, Host.exit h)
  | tracking, h => (tracking, Host.tracking h)
  | notify event, h => (notify event, Host.notify event h)

namespace Host
variable [Host ω]

/-- The host after calls, first to last. -/
def after (calls : List HostCall) (h : ω) : ω := calls.foldl (fun h c => (c.ask h).2) h

/-- Asked for these calls in this order, a host answers as they say, and it has the patience for all
of them. -/
def Answers : List HostCall → ω → Prop
  | [], _ => True
  | c :: calls, h => (c.ask h).1 = c ∧ calls.length < patience h ∧ Answers calls (c.ask h).2

instance decidableAnswers (calls : List HostCall) (h : ω) : Decidable (Answers calls h) :=
  match calls with
  | [] => .isTrue trivial
  | c :: calls =>
    have := decidableAnswers calls (c.ask h).2
    inferInstanceAs (Decidable (_ ∧ _ ∧ _))

@[simp] theorem after_nil (h : ω) : after [] h = h := rfl
@[simp] theorem after_cons (c : HostCall) (calls : List HostCall) (h : ω) :
    after (c :: calls) h = after calls (c.ask h).2 := rfl
@[simp] theorem after_append (calls later : List HostCall) (h : ω) :
    after (calls ++ later) h = after later (after calls h) := List.foldl_append

theorem Answers.append {calls later : List HostCall} {h : ω} (hall : Answers (calls ++ later) h) :
    Answers calls h ∧ Answers later (after calls h) := by
  induction calls generalizing h with
  | nil => exact ⟨trivial, hall⟩
  | cons c calls ih =>
    obtain ⟨hanswer, hpatience, hrest⟩ := hall
    obtain ⟨hcalls, hlater⟩ := ih hrest
    have hlength : calls.length ≤ (calls ++ later).length := by simp
    exact ⟨⟨hanswer, Nat.lt_of_le_of_lt hlength hpatience, hcalls⟩, hlater⟩

theorem Answers.length_le_patience {calls : List HostCall} {h : ω} (hall : Answers calls h) :
    calls.length ≤ patience h := by
  cases calls with
  | nil => exact Nat.zero_le _
  | cons c calls => exact hall.2.1

theorem Answers.read_eq {n : ℕ} {answer : Option (ℕ × Bytes)} {calls : List HostCall} {h : ω}
    (hall : Answers (.read n answer :: calls) h) :
    Host.read n h = (answer, (HostCall.ask (.read n answer) h).2) :=
  Prod.ext (HostCall.read.inj hall.1).2 rfl

theorem Answers.now_eq {t : UInt32} {calls : List HostCall} {h : ω}
    (hall : Answers (.now t :: calls) h) :
    Host.now h = (t, (HostCall.ask (.now t) h).2) :=
  Prod.ext (HostCall.now.inj hall.1) rfl

/-! ## One byte at a time -/

/-- A read of one byte. -/
def byteCall (b : UInt8) : HostCall := .read 1 (some (1, [b]))

theorem readByte_of_answers {b : UInt8} {calls : List HostCall} {h : ω}
    (hall : Answers (byteCall b :: calls) h) :
    readByte h = (some (1, b), ((byteCall b).ask h).2) := by
  rw [readByte, hall.read_eq]
  rfl

/-- A number that comes byte by byte is read as one that is there at once. -/
theorem readVarIntFrom_of_answers {n value : ℕ} {p : VarInt.Pending} {b : Bytes} {h : ω}
    (hn : b.length ≤ n) (hdecode : VarInt.decodeFrom p b = .ok (value, p.taken + b.length))
    (hall : Answers (b.map byteCall) h) :
    readVarIntFrom n p h = (.ok value, after (b.map byteCall) h) := by
  induction b generalizing n p h with
  | nil => cases hdecode
  | cons x rest ih =>
    obtain ⟨n, rfl⟩ : ∃ j, n = j + 1 := ⟨n - 1, by rw [List.length_cons] at hn; omega⟩
    rw [readVarIntFrom, readByte_of_answers hall]
    rw [VarInt.decodeFrom] at hdecode
    rcases hpush : p.push x with fault | ⟨q⟩ | ⟨value'⟩ <;> simp only [hpush, if_true] at hdecode ⊢
    · cases hdecode
    · have hq : q.taken = p.taken + 1 := by grind [VarInt.Pending.push]
      refine ih (by rw [List.length_cons] at hn; omega) ?_ hall.2.2
      rw [hdecode, hq, List.length_cons, Nat.add_assoc, Nat.add_comm 1]
    · simp only [Except.ok.injEq, Prod.mk.injEq, List.length_cons] at hdecode
      obtain ⟨rfl, hlength⟩ := hdecode
      obtain rfl : rest = [] := List.length_eq_zero_iff.mp (by omega)
      rfl

end Host

/-! ## Arrivals -/

/-- How a CONNACK comes in. -/
structure Arrival where
  /-- When the wait for it begins. -/
  start : UInt32
  /-- The times after the looks that find nothing. -/
  quiet : List UInt32
  /-- When its header is there. -/
  opened : UInt32
  /-- The pieces of the rest, each with the time at which it is there. One without bytes is a
  pause. -/
  pieces : List (Bytes × UInt32)
  deriving DecidableEq

namespace Arrival

/-- The bytes after the header. -/
def body (a : Arrival) : Bytes := (a.pieces.map Prod.fst).flatten

/-- The header. -/
def header (a : Arrival) : Header :=
  ⟨PacketType.connack.firstByte, a.body.length, 1 + VarInt.width a.body.length⟩

/-- The bytes of the header. -/
def headerBytes (a : Arrival) : Bytes :=
  PacketType.connack.firstByte :: VarInt.bytes a.body.length

/-- Looks that find nothing. Only where a time is set for the CONNACK the clock is read after
them. -/
def quietCalls (timeout : UInt32) (quiet : List UInt32) : List HostCall :=
  quiet.flatMap fun t => .read 1 (some (0, [])) :: if 0 < timeout then [.now t] else []

theorem quietCalls_cons_pos {timeout t : UInt32} (h : 0 < timeout) (quiet : List UInt32) :
    quietCalls timeout (t :: quiet) =
      .read 1 (some (0, [])) :: .now t :: quietCalls timeout quiet := by
  simp [quietCalls, h]

theorem quietCalls_cons_neg {timeout t : UInt32} (h : ¬0 < timeout) (quiet : List UInt32) :
    quietCalls timeout (t :: quiet) = .read 1 (some (0, [])) :: quietCalls timeout quiet := by
  simp only [quietCalls, List.flatMap_cons, if_neg h, List.cons_append, List.nil_append]

theorem length_le_quietCalls (timeout : UInt32) (quiet : List UInt32) :
    quiet.length ≤ (quietCalls timeout quiet).length := by
  induction quiet with
  | nil => exact Nat.le_refl 0
  | cons t quiet ih =>
    rw [quietCalls] at ih ⊢
    simp only [List.flatMap_cons, List.length_append, List.length_cons]
    omega

/-- Reads of the pieces of which `left` bytes are left. -/
def pieceCalls : ℕ → List (Bytes × UInt32) → List HostCall
  | _, [] => []
  | left, (piece, t) :: rest =>
    .read left (some (piece.length, piece)) :: .now t :: pieceCalls (left - piece.length) rest

theorem length_le_pieceCalls (left : ℕ) (pieces : List (Bytes × UInt32)) :
    pieces.length ≤ (pieceCalls left pieces).length := by
  induction pieces generalizing left with
  | nil => exact Nat.le_refl 0
  | cons first rest ih =>
    have hrest := ih (left - first.1.length)
    simp only [pieceCalls, List.length_cons]
    omega

/-- The calls up to the header. -/
def looks (timeout : UInt32) (a : Arrival) : List HostCall :=
  quietCalls timeout a.quiet ++ a.headerBytes.map Host.byteCall

/-- The calls by which a CONNACK is taken in. -/
def calls (timeout : UInt32) (a : Arrival) : List HostCall :=
  .now a.start :: (a.looks timeout ++ .now a.opened :: pieceCalls a.body.length a.pieces)

theorem length_le_looks (timeout : UInt32) (a : Arrival) :
    a.quiet.length ≤ (a.looks timeout).length := by
  have hquiet := length_le_quietCalls timeout a.quiet
  rw [looks, List.length_append]
  omega

/-- The looks that find nothing are not too late, or not too many where no time is set. -/
def QuietInTime (retries : ℕ) (start timeout : UInt32) (quiet : List UInt32) : Prop :=
  if 0 < timeout then ∀ t ∈ quiet, t - start < timeout else quiet.length ≤ retries

/-- Every pause ends in time, counted from the last bytes. -/
def PiecesInTime (limit : UInt32) : UInt32 → List (Bytes × UInt32) → Prop
  | _, [] => True
  | progress, (piece, t) :: rest =>
    if piece = [] then t - progress < limit ∧ rest ≠ [] ∧ PiecesInTime limit progress rest
    else PiecesInTime limit t rest

/-- A CONNACK comes in time. -/
def InTime (settings : Settings) (timeout : UInt32) (a : Arrival) : Prop :=
  QuietInTime settings.connackRetries.toNat a.start timeout a.quiet ∧
    PiecesInTime settings.recvPollingTimeout a.opened a.pieces

instance decidablePiecesInTime (limit progress : UInt32) (pieces : List (Bytes × UInt32)) :
    Decidable (PiecesInTime limit progress pieces) :=
  match pieces with
  | [] => .isTrue trivial
  | (piece, t) :: rest =>
    have := decidablePiecesInTime limit progress rest
    have := decidablePiecesInTime limit t rest
    inferInstanceAs (Decidable (if piece = [] then
      t - progress < limit ∧ rest ≠ [] ∧ PiecesInTime limit progress rest
      else PiecesInTime limit t rest))

instance (retries : ℕ) (start timeout : UInt32) (quiet : List UInt32) :
    Decidable (QuietInTime retries start timeout quiet) :=
  -- along the list: `UInt32` is finite, but no type to go through
  have : Decidable (∀ t ∈ quiet, t - start < timeout) := List.decidableBAll _ quiet
  inferInstanceAs (Decidable (if 0 < timeout then ∀ t ∈ quiet, t - start < timeout
    else quiet.length ≤ retries))

instance (settings : Settings) (timeout : UInt32) (a : Arrival) :
    Decidable (a.InTime settings timeout) :=
  inferInstanceAs (Decidable (_ ∧ _))

/-- A pause is followed by bytes. -/
theorem flatten_ne_nil {limit progress : UInt32} {pieces : List (Bytes × UInt32)}
    (h : PiecesInTime limit progress pieces) (hne : pieces ≠ []) :
    (pieces.map Prod.fst).flatten ≠ [] := by
  induction pieces with
  | nil => exact absurd rfl hne
  | cons first rest ih =>
    obtain ⟨piece, t⟩ := first
    by_cases hpiece : piece = []
    · rw [PiecesInTime, if_pos hpiece] at h
      simpa [hpiece] using ih h.2.2 h.2.1
    · simp [hpiece]

end Arrival

namespace Session
variable [Host ω] {a : Arrival} {σ : Scene ω}

/-! ## Looking for the header -/

theorem readHeader_of_answers (hmax : a.body.length ≤ VarInt.maxValue) (version : Version) {h : ω}
    (hall : Host.Answers (a.headerBytes.map Host.byteCall) h) :
    Host.readHeader version h = (.ok a.header, Host.after (a.headerBytes.map Host.byteCall) h) := by
  have hdecode : VarInt.decodeFrom .start (VarInt.bytes a.body.length) =
      .ok (a.body.length, (VarInt.bytes a.body.length).length) := by
    have hread := VarInt.decode_bytes hmax []
    rwa [List.append_nil, ← VarInt.length_bytes hmax] at hread
  have hlength : (VarInt.bytes a.body.length).length ≤ VarInt.maxWidth + 1 := by
    rw [VarInt.length_bytes hmax]
    exact Nat.le_succ_of_le (VarInt.width_le (by decide) (Nat.lt_succ_of_le hmax))
  have hnumber := Host.readVarIntFrom_of_answers (p := .start) hlength (by
    rwa [VarInt.Pending.start, Nat.zero_add]) hall.2.2
  have hmay : mayArrive version PacketType.connack.firstByte = true := by
    cases version <;> rfl
  rw [Host.readHeader, Host.readByte_of_answers hall]
  simp only [Nat.one_ne_zero, if_false, hmay, if_true, Host.readVarInt, hnumber]
  rfl

theorem readHeader_of_nothing (version : Version) {calls : List HostCall} {h : ω}
    (hall : Host.Answers (.read 1 (some (0, [])) :: calls) h) :
    Host.readHeader version h =
      (.error .noDataAvailable, (HostCall.ask (.read 1 (some (0, []))) h).2) := by
  rw [Host.readHeader, Host.readByte, hall.read_eq]
  rfl

/-- Looks that find nothing in time are followed by others. -/
theorem awaitHeader_of_answers {n attempts : ℕ} {start timeout : UInt32} {quiet : List UInt32}
    (hn : quiet.length < n) (hmax : a.body.length ≤ VarInt.maxValue)
    (hquiet : if 0 < timeout then ∀ t ∈ quiet, t - start < timeout
      else attempts + quiet.length ≤ σ.session.settings.connackRetries.toNat)
    (hall : Host.Answers (Arrival.quietCalls timeout quiet ++ a.headerBytes.map Host.byteCall)
      σ.host) :
    (awaitHeader n start timeout attempts).runOn σ = some (.ok a.header, { σ with
      host := Host.after (Arrival.quietCalls timeout quiet ++ a.headerBytes.map Host.byteCall)
        σ.host }) := by
  induction quiet generalizing n attempts σ with
  | nil =>
    obtain ⟨n, rfl⟩ : ∃ j, n = j + 1 := ⟨n - 1, by rw [List.length_nil] at hn; omega⟩
    have hheader := readHeader_of_answers hmax σ.session.version hall
    rw [awaitHeader, Act.runOn_bind_of_ok (Act.runOn_session _),
      Act.runOn_bind_of_ok (Act.runOn_host _ _), hheader]
    rfl
  | cons t quiet ih =>
    rw [List.length_cons] at hn
    obtain ⟨n, rfl⟩ : ∃ j, n = j + 1 := ⟨n - 1, by omega⟩
    have hlook := readHeader_of_nothing σ.session.version hall
    rw [awaitHeader, Act.runOn_bind_of_ok (Act.runOn_session _),
      Act.runOn_bind_of_ok (Act.runOn_host _ _), hlook]
    by_cases htimeout : 0 < timeout
    · rw [if_pos htimeout] at hquiet
      obtain ⟨hfirst, hlater⟩ := List.forall_mem_cons.mp hquiet
      rw [Arrival.quietCalls_cons_pos htimeout] at hall ⊢
      have hnow := hall.2.2.now_eq
      simp only [connackOverdue, if_pos htimeout, bind_assoc, pure_bind]
      rw [Act.runOn_bind_of_ok (Act.runOn_now _)]
      simp only [hnow, decide_eq_true_eq]
      rw [if_neg (UInt32.not_le.mpr hfirst)]
      exact ih (by omega) (by rw [if_pos htimeout]; exact hlater) hall.2.2.2.2
    · rw [if_neg htimeout, List.length_cons] at hquiet
      have hleft : attempts + 1 + quiet.length ≤ σ.session.settings.connackRetries.toNat := by
        omega
      rw [Arrival.quietCalls_cons_neg htimeout] at hall ⊢
      simp only [connackOverdue, if_neg htimeout, bind_assoc, pure_bind]
      rw [Act.runOn_bind_of_ok (Act.runOn_session _)]
      simp only [decide_eq_true_eq]
      rw [if_neg (by omega)]
      exact ih (by omega) (by rw [if_neg htimeout]; exact hleft) hall.2.2

/-! ## Taking in the rest -/

omit [Host ω] in
theorem readAt_nil (s : Session) (offset : ℕ) : s.readAt offset [] = s := by
  simp only [readAt, List.append_nil, List.length_nil, Nat.add_zero, List.take_append_drop]

omit [Host ω] in
/-- What is read behind a piece stands behind it. -/
theorem readAt_readAt {s : Session} {offset : ℕ} {piece : Bytes}
    (hroom : offset + piece.length ≤ s.capacity) (more : Bytes) :
    (s.readAt offset piece).readAt (offset + piece.length) more =
      s.readAt offset (piece ++ more) := by
  have hfront : (s.buffer.take offset ++ piece).length = offset + piece.length := by
    rw [capacity] at hroom
    rw [List.length_append, List.length_take, Nat.min_eq_left (by omega)]
  have hbehind : (s.buffer.take offset ++ piece ++ s.buffer.drop (offset + piece.length)).drop
      (offset + piece.length + more.length) =
        s.buffer.drop (offset + (piece ++ more).length) := by
    rw [← List.drop_drop, List.drop_left' hfront, List.drop_drop, List.length_append,
      Nat.add_assoc]
  simp only [readAt, List.take_left' hfront, hbehind]
  simp only [List.append_assoc]

/-- Pieces that come in time are filled in, one behind the other. -/
theorem fillFrom_of_answers {n k left : ℕ} {progress : UInt32} {pieces : List (Bytes × UInt32)}
    (hleft : left = (pieces.map Prod.fst).flatten.length) (hn : pieces.length ≤ n)
    (hroom : k + left ≤ σ.session.capacity)
    (hintime : Arrival.PiecesInTime σ.session.settings.recvPollingTimeout progress pieces)
    (hall : Host.Answers (Arrival.pieceCalls left pieces) σ.host) :
    (fillFrom n (k + left) k progress).runOn σ = some (.ok (k + left),
      ⟨σ.session.readAt k (pieces.map Prod.fst).flatten,
        Host.after (Arrival.pieceCalls left pieces) σ.host⟩) := by
  -- Each read brings the next piece, behind those that are there already.
  induction pieces generalizing n k left progress σ with
  | nil =>
    subst hleft
    rw [fillFrom.eq_def]
    simp [Arrival.pieceCalls, readAt_nil]
  | cons first rest ih =>
    obtain ⟨piece, t⟩ := first
    have hpos : 0 < left := by
      rw [hleft]
      exact List.length_pos_iff.mpr (Arrival.flatten_ne_nil hintime (by simp))
    have hparts : left = piece.length + (rest.map Prod.fst).flatten.length := by
      simpa using hleft
    rw [List.length_cons] at hn
    obtain ⟨n, rfl⟩ : ∃ j, n = j + 1 := ⟨n - 1, by omega⟩
    have hread := hall.read_eq
    have hnow := hall.2.2.now_eq
    have hcount : min piece.length left = piece.length := Nat.min_eq_left (by omega)
    rw [fillFrom, if_neg (by omega), Nat.add_sub_cancel_left,
      Act.runOn_bind_of_ok (runOn_readInto_some (congrArg Prod.fst hread)),
      Act.runOn_bind_of_ok (Act.runOn_now _), hcount, List.take_of_length_le (by omega), hread]
    simp only [hnow]
    by_cases hpiece : piece = []
    · rw [Arrival.PiecesInTime, if_pos hpiece] at hintime
      obtain ⟨hpause, -, hintime⟩ := hintime
      subst hpiece
      rw [if_pos List.length_nil, Act.runOn_bind_of_ok (Act.runOn_session _), readAt_nil,
        if_neg (UInt32.not_le.mpr hpause)]
      exact ih (by simpa using hparts) (by omega) hroom hintime hall.2.2.2.2
    · rw [Arrival.PiecesInTime, if_neg hpiece] at hintime
      have hne : piece.length ≠ 0 := mt List.length_eq_zero_iff.mp hpiece
      have hrest : k + left = k + piece.length + (left - piece.length) := by omega
      have hpieces : ((((piece, t) :: rest).map Prod.fst).flatten) =
          piece ++ (rest.map Prod.fst).flatten := rfl
      have hroom' : k + piece.length ≤ σ.session.capacity := by omega
      have hcapacity := capacity_readAt piece hroom'
      rw [if_neg hne, hrest, hpieces, ← readAt_readAt hroom']
      exact ih (by omega) (by omega) (by rw [hcapacity, ← hrest]; exact hroom) hintime
        hall.2.2.2.2

theorem fill_of_answers {start : UInt32} {pieces : List (Bytes × UInt32)} {body : Bytes}
    (hbody : (pieces.map Prod.fst).flatten = body) (hfits : body.length ≤ σ.session.capacity)
    (hintime : Arrival.PiecesInTime σ.session.settings.recvPollingTimeout start pieces)
    (hall : Host.Answers (.now start :: Arrival.pieceCalls body.length pieces) σ.host) :
    (fill body.length).runOn σ = some (.ok body.length, ⟨σ.session.readAt 0 body,
      Host.after (.now start :: Arrival.pieceCalls body.length pieces) σ.host⟩) := by
  subst hbody
  have hn : pieces.length ≤
      Host.patience σ.host + (pieces.map Prod.fst).flatten.length := by
    have hpatience := hall.2.1
    have hpieces := Arrival.length_le_pieceCalls (pieces.map Prod.fst).flatten.length pieces
    omega
  have hnow := hall.now_eq
  rw [fill, Act.runOn_bind_of_ok (Act.runOn_get σ), Act.runOn_bind_of_ok (Act.runOn_now _),
    Nat.min_eq_left hfits, hnow]
  have hfill := fillFrom_of_answers (k := 0)
    (σ := ⟨σ.session, ((HostCall.now start).ask σ.host).2⟩) rfl hn (by rwa [Nat.zero_add]) hintime
    hall.2.2
  rwa [Nat.zero_add] at hfill

/-- What comes of a CONNACK that comes in time depends on its bytes. -/
theorem receiveConnack_of_answers {timeout : UInt32} (hfits : a.body.length ≤ σ.session.capacity)
    (hmax : a.body.length ≤ VarInt.maxValue) (hintime : a.InTime σ.session.settings timeout)
    (hall : Host.Answers (a.calls timeout) σ.host) :
    (receiveConnack timeout).runOn σ =
      (acceptConnack a.header).runOn
        ⟨σ.session.readAt 0 a.body, Host.after (a.calls timeout) σ.host⟩ := by
  obtain ⟨hquiet, hpieces⟩ := hintime
  obtain ⟨host, hhost⟩ : ∃ host, host = ((HostCall.now a.start).ask σ.host).2 := ⟨_, rfl⟩
  have hnow := hall.now_eq
  obtain ⟨-, -, hrest⟩ := hall
  rw [← hhost] at hnow hrest
  obtain ⟨hlooks, hbody⟩ := hrest.append
  have hn : a.quiet.length < Host.patience host + σ.session.settings.connackRetries.toNat + 1 := by
    have hquiet := a.length_le_looks timeout
    have hpatience := hlooks.length_le_patience
    omega
  have hheader : (awaitHeader _ a.start timeout 0).runOn ⟨σ.session, host⟩ =
      some (.ok a.header, ⟨σ.session, Host.after (a.looks timeout) host⟩) :=
    awaitHeader_of_answers hn hmax (by rwa [Nat.zero_add]) hlooks
  have hfill : (fill a.header.remaining).runOn _ = _ :=
    fill_of_answers (σ := ⟨σ.session, Host.after (a.looks timeout) host⟩) rfl hfits hpieces hbody
  have hfirst : ¬a.header.firstByte ≠ PacketType.connack.firstByte := fun h => h rfl
  have hroom : ¬σ.session.capacity < a.header.remaining := Nat.not_lt.mpr hfits
  have hwhole : ¬a.body.length < a.header.remaining := Nat.lt_irrefl _
  rw [receiveConnack, Act.runOn_bind_of_ok (Act.runOn_now _),
    Act.runOn_bind_of_ok (Act.runOn_get _), hnow, Act.runOn_bind_of_ok hheader]
  dsimp only
  rw [if_neg hfirst, if_neg hroom, Act.runOn_bind_of_ok hfill, if_neg hwhole]
  have hafter : Host.after (a.calls timeout) σ.host =
      Host.after (.now a.opened :: Arrival.pieceCalls a.body.length a.pieces)
        (Host.after (a.looks timeout) host) := by
    rw [Arrival.calls, Host.after_cons, Host.after_append, hhost]
  rw [hafter]

end Session

end MqttClient
