import MqttClient.Proofs.Oversized
import MqttClient.Proofs.Resuming
import MqttClient.Proofs.Wire.Connack

/-!
# Negotiating

A connection begins from the defaults. What holds for it when connecting succeeds is what the
CONNECT asks for and the CONNACK says, and nothing of what was negotiated before
(`Step.negotiates_afresh`). The CONNACK is the one that the client has received during the call, no
byte more and no byte less, unless its host misreports what it reads.
-/
namespace MqttClient
variable {ω : Type}

/-- The bytes of a header. -/
def Header.opening (header : Header) : Bytes := header.firstByte :: VarInt.bytes header.remaining

/-- Bytes are those of a header, with a number that a header can carry. -/
structure Header.Opens (header : Header) (b : Bytes) : Prop where
  bytes_eq : b = header.opening
  fits : header.remaining ≤ VarInt.maxValue

/-! ## What is taken in -/

/-- From one host to a later one, bytes have been received that are as `P` says, unless a read was
misreported. -/
def Watched.TakesIn (h h' : Watched ω) (P : Bytes → Prop) : Prop :=
  ∃ calls, h'.calls = calls ++ h.calls ∧ (Honest calls → P (received calls))

namespace Watched.TakesIn
variable {h h' h'' : Watched ω} {P Q R : Bytes → Prop}

theorem refl (hP : P []) : h.TakesIn h P := ⟨[], rfl, fun _ => hP⟩

theorem mono (htakes : h.TakesIn h' P) (hQ : ∀ b, P b → Q b) : h.TakesIn h' Q := by
  obtain ⟨calls, hcalls, hP⟩ := htakes
  exact ⟨calls, hcalls, fun hhonest => hQ _ (hP hhonest)⟩

theorem append (hfirst : h.TakesIn h' P) (hlater : h'.TakesIn h'' Q)
    (hR : ∀ b b', P b → Q b' → R (b ++ b')) : h.TakesIn h'' R := by
  obtain ⟨calls, hcalls, hP⟩ := hfirst
  obtain ⟨later, hcalls', hQ⟩ := hlater
  refine ⟨later ++ calls, by rw [hcalls', hcalls, List.append_assoc], fun hhonest => ?_⟩
  obtain ⟨hlast, hbefore⟩ := honest_append.mp hhonest
  rw [received_append]
  exact hR _ _ (hP hbefore) (hQ hlast)

/-- Nothing is received before. -/
theorem after (hlater : h'.TakesIn h'' P) (hfirst : h.TakesIn h' (· = [])) : h.TakesIn h'' P :=
  hfirst.append hlater fun _ _ hnone hb => hnone ▸ hb

/-- Nothing is received any more. -/
theorem before (hfirst : h.TakesIn h' P) (hlater : h'.TakesIn h'' (· = [])) : h.TakesIn h'' P :=
  hfirst.append hlater fun b _ hb hnone => by rwa [hnone, List.append_nil]

/-- Calls that are no reads receive nothing. -/
theorem of_unread {calls : List HostCall} (hcalls : h'.calls = calls ++ h.calls)
    (hkind : ∀ c ∈ calls, ¬c.IsRead) : h.TakesIn h' (· = []) :=
  ⟨calls, hcalls, fun _ => received_eq_nil hkind⟩

theorem now [Host ω] (h : Watched ω) : h.TakesIn (Host.now h).2 (· = []) :=
  ⟨[_], calls_now h, fun _ => rfl⟩

end Watched.TakesIn

variable [Host ω]

namespace Host
variable {h h' : Watched ω}

/-! ## The header -/

/-- A read of one byte finds none, or it. -/
theorem readByte_inv {count : ℕ} {b : UInt8} (hread : readByte h = (some (count, b), h')) :
    h.TakesIn h' fun arrived => count = 0 ∧ arrived = [] ∨ count = 1 ∧ arrived = [b] := by
  have hcalls : (Host.read 1 h).2.calls = .read 1 (Host.read 1 h).1 :: h.calls := rfl
  rw [readByte] at hread
  rcases hanswer : Host.read 1 h with ⟨_ | ⟨count', arrived⟩, h''⟩ <;>
    simp only [hanswer, Prod.mk.injEq, Option.some.injEq, reduceCtorEq, false_and] at hread hcalls
  obtain ⟨⟨rfl, rfl⟩, rfl⟩ := hread
  refine ⟨[_], hcalls, fun hhonest => ?_⟩
  obtain ⟨rfl, hle⟩ := hhonest _ (List.mem_singleton_self _)
  rcases arrived with _ | ⟨x, _ | ⟨y, rest⟩⟩
  · exact .inl ⟨rfl, rfl⟩
  · exact .inr ⟨rfl, rfl⟩
  · simp at hle

/-- A number is read off the bytes that arrive for it. -/
theorem readVarIntFrom_inv {n value : ℕ} {p : VarInt.Pending}
    (hread : readVarIntFrom n p h = (.ok value, h')) :
    h.TakesIn h' fun b => VarInt.decodeFrom p b = .ok (value, p.taken + b.length) := by
  induction n generalizing p h with
  | zero => cases hread
  | succ n ih =>
    rw [readVarIntFrom] at hread
    split at hread
    · rename_i count b υ hbyte
      have hone := readByte_inv hbyte
      split_ifs at hread with hcount
      · split at hread
        · cases hread
        · rename_i value' hpush
          cases hread
          refine hone.mono ?_
          rintro _ (⟨hnone, -⟩ | ⟨-, rfl⟩)
          · omega
          · simp [VarInt.decodeFrom, hpush]
        · rename_i q hpush
          refine hone.append (ih hread) ?_
          rintro _ later (⟨hnone, -⟩ | ⟨-, rfl⟩) hdecode
          · omega
          have hq : q.taken = p.taken + 1 := by grind [VarInt.Pending.push]
          simp only [List.singleton_append, VarInt.decodeFrom, hpush, hdecode, hq,
            List.length_cons]
          congr 2
          omega
      · cases hread
    · cases hread

/-- A header is read off its bytes. -/
theorem readHeader_inv {version : Version} {header : Header}
    (hread : readHeader version h = (.ok header, h')) : h.TakesIn h' header.Opens := by
  rw [readHeader] at hread
  split at hread
  · cases hread
  rename_i count first υ hbyte
  split_ifs at hread with hnone hmay
  · cases hread
  · split at hread
    · cases hread
    rename_i remaining ν hnumber
    cases hread
    refine (readByte_inv hbyte).append (readVarIntFrom_inv hnumber) ?_
    rintro _ number (⟨hzero, -⟩ | ⟨-, rfl⟩) hdecode
    · exact absurd hzero hnone
    -- The number takes all the bytes that were read for it.
    obtain ⟨hmax, -, hlength, rest, rfl⟩ := VarInt.decode_inv hdecode
    obtain rfl : rest = [] := by
      simp only [List.length_append, VarInt.Pending.start] at hlength
      exact List.length_eq_zero_iff.mp (by omega)
    exact ⟨by rw [List.append_nil]; rfl, hmax⟩
  · cases hread

/-- A look that finds nothing takes nothing. -/
theorem readHeader_nothing_inv {version : Version}
    (hread : readHeader version h = (.error .noDataAvailable, h')) : h.TakesIn h' (· = []) := by
  rw [readHeader] at hread
  split at hread
  · cases hread
  rename_i count first υ hbyte
  split_ifs at hread with hnone hmay
  · cases hread
    refine (readByte_inv hbyte).mono ?_
    rintro _ (⟨-, hnothing⟩ | ⟨hone, -⟩)
    · exact hnothing
    · omega
  · split at hread
    · rename_i hnumber
      cases hread
      cases readVarIntFrom_error hnumber
    · cases hread
  · cases hread

end Host

namespace Session
variable {σ τ : Scene (Watched ω)}

/-- To see whether it is too late takes at most a look at the clock. -/
theorem runOn_connackOverdue (start timeout : UInt32) (attempts : ℕ) (σ : Scene (Watched ω)) :
    ∃ late υ, (connackOverdue start timeout attempts).runOn σ = some (.ok late, υ) ∧
      υ.session = σ.session ∧ σ.host.TakesIn υ.host (· = []) := by
  rw [connackOverdue]
  split
  · exact ⟨_, _, rfl, rfl, .now σ.host⟩
  · exact ⟨_, _, rfl, rfl, .refl rfl⟩

/-- The header comes first, and nothing of the session has changed when it is there. -/
theorem awaitHeader_inv {n attempts : ℕ} {start timeout : UInt32} {header : Header}
    (h : (awaitHeader n start timeout attempts).runOn σ = some (.ok header, τ)) :
    τ.session = σ.session ∧ σ.host.TakesIn τ.host header.Opens := by
  induction n generalizing attempts σ with
  | zero => cases h
  | succ n ih =>
    rw [awaitHeader, Act.runOn_bind_of_ok (Act.runOn_session _),
      Act.runOn_bind_of_ok (Act.runOn_host _ _)] at h
    obtain ⟨⟨result, υ⟩, hlook⟩ : ∃ look, Host.readHeader σ.session.version σ.host = look :=
      ⟨_, rfl⟩
    rw [hlook] at h
    dsimp only at h
    split at h
    · cases h
      exact ⟨rfl, Host.readHeader_inv hlook⟩
    · have hnothing := Host.readHeader_nothing_inv hlook
      obtain ⟨late, ν, hlate, hsession, hwaited⟩ :=
        runOn_connackOverdue start timeout (attempts + 1) { σ with host := υ }
      rw [Act.runOn_bind_of_ok hlate] at h
      split_ifs at h
      · cases h
      obtain ⟨hrest, hopening⟩ := ih h
      exact ⟨hrest.trans hsession, (hopening.after hwaited).after hnothing⟩
    · cases h

/-! ## The rest -/

/-- A session with other bytes in its network buffer. -/
def withBuffer (s : Session) (buffer : Bytes) : Session := { s with buffer }

/-- From one scene to the other the network buffer has been filled up from `k` bytes to `m` bytes,
and all else of the session is as it was. -/
structure Filled (σ τ : Scene (Watched ω)) (k m : ℕ) : Prop where
  session : ∃ buffer, τ.session = σ.session.withBuffer buffer ∧
    buffer.length = σ.session.capacity
  takesIn : σ.host.TakesIn τ.host fun b =>
    τ.session.buffer.take m = σ.session.buffer.take k ++ b

namespace Filled
variable {υ : Scene (Watched ω)} {k j m : ℕ}

omit [Host ω] in
theorem refl (σ : Scene (Watched ω)) (k : ℕ) : Filled σ σ k k :=
  ⟨⟨_, rfl, rfl⟩, .refl (List.append_nil _).symm⟩

omit [Host ω] in
theorem trans (h : Filled σ υ k j) (h' : Filled υ τ j m) : Filled σ τ k m := by
  obtain ⟨⟨buffer, hsession, hlength⟩, hfirst⟩ := h
  obtain ⟨⟨buffer', hsession', hlength'⟩, hlater⟩ := h'
  refine ⟨⟨buffer', by rw [hsession', hsession]; rfl, ?_⟩, hfirst.append hlater ?_⟩
  · rw [hlength', hsession]
    exact hlength
  · intro b b' hb hb'
    rw [hb', hb, List.append_assoc]

omit [Host ω] in
theorem capacity_eq (h : Filled σ τ k m) : τ.session.capacity = σ.session.capacity := by
  obtain ⟨⟨buffer, hsession, hlength⟩, -⟩ := h
  rw [hsession]
  exact hlength

/-- A look at the clock fills in nothing. -/
theorem now (σ : Scene (Watched ω)) (k : ℕ) :
    Filled σ { σ with host := (Host.now σ.host).2 } k k :=
  ⟨⟨_, rfl, rfl⟩, (Watched.TakesIn.now σ.host).mono fun b hb => by rw [hb, List.append_nil]⟩

/-- A read to behind the bytes that are there. -/
theorem read {n count : ℕ} {arrived : Bytes}
    (hanswer : (Host.read n σ.host).1 = some (count, arrived))
    (hroom : k + n ≤ σ.session.capacity) :
    Filled σ ⟨σ.session.readAt k (arrived.take n), (Host.read n σ.host).2⟩ k (k + min count n) where
  session := by
    have htaken : (arrived.take n).length ≤ n := List.length_take_le _ _
    exact ⟨_, rfl, capacity_readAt _ (by omega)⟩
  takesIn := by
    refine ⟨[.read n (some (count, arrived))], ?_, fun hhonest => ?_⟩
    · rw [← hanswer]
      exact Watched.calls_read n σ.host
    · obtain ⟨rfl, hle⟩ := hhonest _ (List.mem_singleton_self _)
      have hk : k ≤ σ.session.capacity := by omega
      rw [Nat.min_eq_left hle, List.take_of_length_le hle, received_cons, received_nil,
        List.nil_append]
      exact take_readAt hk arrived

end Filled

/-- What has been filled in stands in the network buffer. -/
theorem fillFrom_inv {n length k m : ℕ} {progress : UInt32} (hk : k ≤ length)
    (hroom : length ≤ σ.session.capacity)
    (h : (fillFrom n length k progress).runOn σ = some (.ok m, τ)) :
    m ≤ length ∧ Filled σ τ k m := by
  induction n generalizing k progress σ with
  | zero =>
    rw [fillFrom] at h
    split_ifs at h <;> cases h
    exact ⟨hk, .refl _ _⟩
  | succ n ih =>
    rw [fillFrom] at h
    split_ifs at h with hdone
    · cases h
      exact ⟨hk, .refl _ _⟩
    cases hanswer : (Host.read (length - k) σ.host).1 with
    | none =>
      rw [Act.runOn_bind_of_error (runOn_readInto_none hanswer)] at h
      cases h
    | some answer =>
      obtain ⟨count, arrived⟩ := answer
      rw [Act.runOn_bind_of_ok (runOn_readInto_some hanswer),
        Act.runOn_bind_of_ok (Act.runOn_now _)] at h
      have hround := (Filled.read hanswer (by omega)).trans (.now _ (k + min count (length - k)))
      have hcount : k + min count (length - k) ≤ length := by omega
      dsimp only at h
      -- Whether bytes have come or not, it ends there or goes on from there.
      split_ifs at h with hnone
      · rw [hnone, Nat.add_zero] at hround
        rw [Act.runOn_bind_of_ok (Act.runOn_session _)] at h
        split_ifs at h
        · cases h
          exact ⟨hk, hround⟩
        · obtain ⟨hm, hrest⟩ := ih hk (by rwa [hround.capacity_eq]) h
          exact ⟨hm, hround.trans hrest⟩
      · obtain ⟨hm, hrest⟩ := ih hcount (by rwa [hround.capacity_eq]) h
        exact ⟨hm, hround.trans hrest⟩

theorem fill_inv {length m : ℕ} (h : (fill length).runOn σ = some (.ok m, τ)) :
    m ≤ length ∧ Filled σ τ 0 m := by
  rw [fill, Act.runOn_bind_of_ok (Act.runOn_get σ), Act.runOn_bind_of_ok (Act.runOn_now _)] at h
  have hnow := Filled.now σ 0
  obtain ⟨hm, hfilled⟩ := fillFrom_inv (Nat.zero_le _) (by
    rw [hnow.capacity_eq]
    exact Nat.min_le_right _ _) h
  exact ⟨hm.trans (Nat.min_le_left _ _), hnow.trans hfilled⟩

/-! ## The answer -/

omit [Host ω] in
/-- The CONNACK that is accepted stands at the front of the network buffer. -/
theorem acceptConnack_inv {header : Header} {present : Bool}
    (hfits : header.remaining ≤ σ.session.capacity)
    (h : (acceptConnack header).runOn σ = some (.ok present, τ)) :
    ∃ connack : Connack, connack.sessionPresent = present ∧ τ.host = σ.host ∧
      σ.session.buffer.take header.remaining = connack.body σ.session.version ∧
      τ.session.negotiated = σ.session.negotiated.withTold connack.property? ∧
      connack.WellFormed σ.session.version σ.session.negotiated.requestResponseInfo ∧
      connack.reason = Reason.success := by
  rw [acceptConnack, Act.runOn_bind_of_ok (Act.runOn_session _)] at h
  obtain ⟨⟨result, negotiated⟩, hdecode⟩ : ∃ decoded, Connack.decode σ.session.version
      (header.withData (σ.session.buffer.take header.remaining)) σ.session.negotiated = decoded :=
    ⟨_, rfl⟩
  simp only [hdecode] at h
  rw [Act.runOn_bind_of_ok (Act.runOn_change _ _)] at h
  cases result with
  | error fault => cases h
  | ok connack =>
    cases h
    have hwhole : (header.withData (σ.session.buffer.take header.remaining)).data.length =
        header.remaining := by
      rw [Header.withData, List.length_take]
      exact Nat.min_eq_left hfits
    obtain ⟨hbody, hform, hsuccess⟩ := Connack.wellFormed_of_decode_ok hwhole hdecode
    exact ⟨connack, rfl, rfl, hbody, Connack.negotiated_of_decode hdecode, hform, hsuccess⟩

/-- From one scene to the other, a CONNACK has been received and accepted, and its values have come
on top of those in `n`. -/
structure Accepts (σ τ : Scene (Watched ω)) (n : Negotiated) (connack : Connack) (present : Bool) :
    Prop where
  present : connack.sessionPresent = present
  negotiated : τ.session.negotiated = n.withTold connack.property?
  wellFormed : connack.WellFormed σ.session.version n.requestResponseInfo
  success : connack.reason = Reason.success
  takesIn : σ.host.TakesIn τ.host fun b =>
    b = connack.wire σ.session.version ∧
      (connack.body σ.session.version).length ≤ VarInt.maxValue

/-- What the wait for a CONNACK has gone through when one is accepted. -/
theorem receiveConnack_ok {timeout : UInt32} {present : Bool}
    (h : (receiveConnack timeout).runOn σ = some (.ok present, τ)) :
    ∃ (header : Header) (υ ν : Scene (Watched ω)), header.firstByte = PacketType.connack.firstByte ∧
      header.remaining ≤ σ.session.capacity ∧ υ.session = σ.session ∧
      σ.host.TakesIn υ.host header.Opens ∧ Filled υ ν 0 header.remaining ∧
      (acceptConnack header).runOn ν = some (.ok present, τ) := by
  rw [receiveConnack, Act.runOn_bind_of_ok (Act.runOn_now _),
    Act.runOn_bind_of_ok (Act.runOn_get _)] at h
  rcases Act.runOn_bind_inv h with ⟨_, -, ⟨⟩⟩ | ⟨header, υ, hheader, h⟩
  obtain ⟨hsession, hopening⟩ := awaitHeader_inv hheader
  dsimp only at hsession hopening h
  split at h
  · rw [Act.runOn_bind_of_error (Act.runOn_throw _ _)] at h
    cases h
  rename_i hfirst
  split at h
  · rcases Act.runOn_bind_inv h with ⟨_, -, ⟨⟩⟩ | ⟨_, _, -, h⟩
    rw [Act.runOn_bind_of_error (Act.runOn_throw _ _)] at h
    cases h
  rename_i hlarge
  rcases Act.runOn_bind_inv h with ⟨_, -, ⟨⟩⟩ | ⟨m, ν, hfill, h⟩
  split at h
  · rw [Act.runOn_bind_of_error (Act.runOn_throw _ _)] at h
    cases h
  obtain ⟨hm, hfilled⟩ := fill_inv hfill
  obtain rfl : m = header.remaining := by omega
  exact ⟨header, υ, ν, not_not.mp hfirst, Nat.not_lt.mp hlarge, hsession,
    hopening.after (.now σ.host), hfilled, h⟩

theorem receiveConnack_inv {timeout : UInt32} {present : Bool}
    (h : (receiveConnack timeout).runOn σ = some (.ok present, τ)) :
    ∃ connack, Accepts σ τ σ.session.negotiated connack present := by
  obtain ⟨header, υ, ν, hfirst, hfits, hsession, hopening, hfilled, haccept⟩ :=
    receiveConnack_ok h
  rw [← hsession] at hfits ⊢
  obtain ⟨connack, hpresent, hhost, hbody, htold, hform, hsuccess⟩ :=
    acceptConnack_inv (by rwa [hfilled.capacity_eq]) haccept
  obtain ⟨⟨buffer, hbuffer, hcapacity⟩, hfront⟩ := hfilled
  rw [hbuffer] at hbody htold hform hfront
  have hlength : (connack.body υ.session.version).length = header.remaining := by
    refine (congrArg List.length hbody).symm.trans (List.length_take.trans (Nat.min_eq_left ?_))
    exact hfits.trans hcapacity.ge
  refine ⟨connack, hpresent, htold, hsession ▸ hform, hsuccess, ?_⟩
  rw [hhost, ← hsession]
  refine hopening.append hfront ?_
  rintro _ body ⟨rfl, hmax⟩ hstands
  rw [hbody, List.take_zero, List.nil_append] at hstands
  refine ⟨?_, hlength ▸ hmax⟩
  rw [← hstands, Header.opening, hfirst, ← hlength]
  rfl

/-! ## Connecting -/

omit [Host ω] in
/-- What a connection begins with. -/
theorem requested_ok {version : Version} {c : Connect} {n : Negotiated}
    (h : requested version c = .ok n) :
    n = if version.hasProperties then Negotiated.default.withAsked c.property?
      else .default := by
  rw [requested] at h
  split_ifs at h ⊢
  · split at h
    · rename_i happly
      cases h
      exact Negotiated.applyConnect_default happly
    · cases h
  · cases h
    rfl

/-- The CONNACK is all that is received before the exchanges go on, and its values come on top of
those of the CONNECT. -/
theorem approach_negotiates {c : Connect} {timeout : UInt32} {negotiated : Negotiated}
    {spans : List Bytes} {present : Bool}
    (h : (approach c timeout negotiated spans).runOn σ = some (.ok present, τ)) :
    ∃ connack, Accepts σ τ negotiated connack present := by
  rw [approach, Act.runOn_bind_of_ok (Act.runOn_change _ _)] at h
  rcases Act.runOn_bind_inv h with ⟨_, -, ⟨⟩⟩ | ⟨_, υ, hsend, h⟩
  rcases Act.runOn_bind_inv h with ⟨_, -, ⟨⟩⟩ | ⟨present', ν, hreceive, h⟩
  rcases Act.runOn_bind_inv h with ⟨_, -, ⟨⟩⟩ | ⟨_, _, hcheck, ⟨⟩⟩
  rw [Act.runOn_ofResult] at hcheck
  obtain ⟨-, rfl⟩ := Prod.mk.inj (Option.some.inj hcheck)
  obtain ⟨k, sent, hsent, hsends, -, ⟨-, -, t, hsession⟩ | ⟨⟨⟩, -⟩⟩ := send_inv hsend
  obtain ⟨connack, hpresent, htold, hform, hsuccess, hwire⟩ := receiveConnack_inv hreceive
  rw [hsession] at htold hform hwire
  have hunread : σ.host.TakesIn υ.host (· = []) :=
    .of_unread hsent fun c hc => HostCall.not_isRead_of_isSending (hsends.sending c hc)
  exact ⟨connack, hpresent, htold, hform, hsuccess, hwire.after hunread⟩

/-- After the CONNACK, nothing is received and nothing is negotiated. -/
theorem connect_negotiates {c : Connect} {timeout : UInt32} {present : Bool}
    (h : (connect c timeout).runOn σ = some (.ok present, τ)) :
    ∃ negotiated connack, requested σ.session.version c = .ok negotiated ∧
      Accepts σ τ negotiated connack present ∧
      τ.session.keepAlive = τ.session.negotiated.serverKeepAlive.getD c.keepAlive := by
  rw [connect_eq] at h
  rcases Act.runOn_bind_inv h with ⟨_, _, ⟨⟩⟩ | ⟨present', υ, hshake, h⟩
  rcases Act.runOn_bind_inv h with ⟨_, _, ⟨⟩⟩ | ⟨_, ρ, hresume, h⟩
  obtain ⟨_, _, hestablish, ⟨⟩⟩ := (Act.runOn_bind_inv h).resolve_left nofun
  rcases handshake_inv hshake with ⟨⟨⟩, -⟩ | ⟨negotiated, size, spans, hrequest, -, -, happroach⟩
  obtain ⟨connack, hpresent, htold, hform, hsuccess, hwire⟩ := approach_negotiates happroach
  obtain ⟨resent, hresent, hkind⟩ := (outward_unread.resume _ υ _ ρ hresume).makes
  have hsame : ρ.session.negotiated = υ.session.negotiated :=
    (outward_same (f := Session.negotiated) fun _ _ _ => rfl).resume _ υ _ ρ hresume
  cases hestablish
  exact ⟨negotiated, connack, hrequest, ⟨hpresent, hsame.trans htold, hform, hsuccess,
    (hwire.before (.of_unread hresent hkind)).before (.now ρ.host)⟩, rfl⟩

end Session

/-- **Negotiation begins anew.** Whatever was negotiated before, when connecting succeeds each value
is what the CONNACK says of it or, in the client's half and for the expiry of the session, what the
CONNECT asks for, and else its default; and the keep-alive is the one that the CONNACK imposes, or
else the one asked for. Before MQTT 5 all values are the defaults. The CONNACK is what the client
has received during the call. -/
theorem Step.negotiates_afresh {s : Step ω} {c : Connect} {timeout : UInt32} {present : Bool}
    (hcall : s.call = .connect c timeout) (hresult : s.result = .ok (.session present)) :
    ∃ connack : Connack, connack.sessionPresent = present ∧
      (Honest s.calls → s.received = connack.wire s.before.session.version) ∧
      (s.before.session.version = .v5 →
        s.after.session.negotiated = .agreed c.property? connack.property? ∧
        s.after.session.keepAlive = (connack.property? .serverKeepAlive).getD c.keepAlive) ∧
      (s.before.session.version = .v311 →
        s.after.session.negotiated = .default ∧ s.after.session.keepAlive = c.keepAlive) := by
  obtain ⟨negotiated, connack, hrequest, ⟨hpresent, htold, hform, -, calls, hcalls, hwire⟩,
    hkeepAlive⟩ := Session.connect_negotiates (s.connects_ok hcall hresult)
  have hbegin := Session.requested_ok hrequest
  rw [Step.received, Step.calls_eq hcalls]
  refine ⟨connack, hpresent, fun hhonest => (hwire hhonest).1, fun hversion => ?_,
    fun hversion => ?_⟩
  · have hagreed : s.after.session.negotiated = .agreed c.property? connack.property? := by
      rw [htold, hbegin, hversion, Negotiated.agreed_eq]
      rfl
    exact ⟨hagreed, by rw [hkeepAlive, hagreed]; rfl⟩
  · have hdefault : s.after.session.negotiated = .default := by
      have hempty : connack.properties = [] := hform.region.plain (by rw [hversion]; rfl)
      rw [htold, hbegin, hversion, Connack.property?_of_nil hempty]
      rfl
    exact ⟨hdefault, by rw [hkeepAlive, hdefault]; rfl⟩

/-- What a client asks for at last: a receive maximum of 5, a session for a minute, and no reason
strings. -/
def modest : Connect where
  clientId := "c"
  keepAlive := 20
  properties := [0x21, 0, 5, 0x11, 0, 0, 0, 60, 0x17, 0]

/-- A client connects, connects anew and is refused, and connects once more. -/
def renewed : List (Step Scripted) :=
  stepsFrom
    { session := .create 16 (.empty 1 1) .v5 {}
      host := { host := { incoming :=
        [0x20, 12, 0, 0, 9, 0x21, 0, 10, 0x22, 0, 7, 0x13, 0, 30] ++
        [0x20, 5, 0, 0x87, 2, 0x24, 0] ++
        [0x20, 10, 0, 0, 7, 0x11, 0, 0, 0, 9, 0x24, 1] } } }
    [.connect { clientId := "c" } 1000, .connect { clientId := "c" } 1000, .connect modest 1000]

/-- Neither the keep-alive of the first connection nor what the refusal said of the guarantees is
left. -/
theorem Step.negotiates_afresh_renewed :
    ∃ s ∈ renewed, ∃ connack : Connack, s.result = .ok (.session false) ∧
      s.before.session.keepAlive = 30 ∧ s.before.session.negotiated.serverMaxQos = 0 ∧
      s.received = connack.wire .v5 ∧
      s.after.session.negotiated = .agreed modest.property? connack.property? ∧
      s.after.session.negotiated =
        { sessionExpiry := 9, receiveMax := 5, requestProblemInfo := false, serverMaxQos := 1 } ∧
      s.after.session.keepAlive = 20 := by
  obtain ⟨s, hs, hcall, hresult, hversion, hkeepAlive, hmaxQos, hhonest, hafter, hkept⟩ :
      ∃ s ∈ renewed, s.call = .connect modest 1000 ∧ s.result = .ok (.session false) ∧
        s.before.session.version = .v5 ∧ s.before.session.keepAlive = 30 ∧
        s.before.session.negotiated.serverMaxQos = 0 ∧ Honest s.calls ∧
        s.after.session.negotiated =
          { sessionExpiry := 9, receiveMax := 5, requestProblemInfo := false,
            serverMaxQos := 1 } ∧
        s.after.session.keepAlive = 20 := by decide +kernel
  obtain ⟨connack, -, hreceived, hagreed, -⟩ := s.negotiates_afresh hcall hresult
  exact ⟨s, hs, connack, hresult, hkeepAlive, hmaxQos, hversion ▸ hreceived hhonest,
    (hagreed hversion).1, hafter, hkept⟩

end MqttClient
