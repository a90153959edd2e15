import MqttClient.Proofs.Negotiating
import MqttClient.Proofs.Skipping

/-!
# The first packet after CONNACK

Connecting takes one CONNACK from the stream and not a byte more, however the stream cuts it: the
header is read a byte at a time, and then the body by the number in it. What was left of an earlier
connection in the network buffer is gone, and nothing of the new one is there
(`Session.connect_takes_connack`). So the next call that receives looks for the header of a packet
at the first byte behind the CONNACK (`Session.Begins`).
-/
namespace MqttClient
variable {ω : Type} [Host ω]

namespace Session

/-! ## The network buffer -/

/-- An empty network buffer is still empty. -/
def StaysEmpty (σ τ : Scene ω) : Prop := σ.session.filled = 0 → τ.session.filled = 0

omit [Host ω] in
instance : IsPreorder (Scene ω) StaysEmpty where
  refl _ := id
  trans _ _ _ h h' := h' ∘ h

theorem inward_staysEmpty : Inward (StaysEmpty (ω := ω)) where
  read _ _ := .readInto (.host fun _ => id) fun _ => .change fun _ => id
  now := .host fun _ => id
  header _ := .host fun _ => id
  reset := .change fun _ _ => rfl
  blank _ := .change fun _ => id
  negotiate _ := .change fun _ => id

theorem outward_staysEmpty : Outward (StaysEmpty (ω := ω)) :=
  (outward_same (f := filled) fun _ _ _ => rfl).mono fun _ _ hsame hempty => hsame.trans hempty

variable {c : Connect} {timeout : UInt32} {present : Bool}

/-- Connecting begins with an empty network buffer, and ends with one. -/
theorem connect_empties {σ τ : Scene ω}
    (h : (connect c timeout).runOn σ = some (.ok present, τ)) : τ.session.filled = 0 := by
  rw [connect_eq] at h
  rcases Act.runOn_bind_inv h with ⟨_, -, ⟨⟩⟩ | ⟨kept, υ, hshake, h⟩
  rcases handshake_inv hshake with ⟨⟨⟩, -⟩ | ⟨negotiated, size, spans, -, -, -, happroach⟩
  rw [approach, Act.runOn_bind_of_ok (Act.runOn_change _ _)] at happroach
  have hwaits : Act.Keeps (StaysEmpty (ω := ω)) (send spans >>= fun _ =>
      receiveConnack timeout >>= fun present =>
        Act.ofResult (Connack.checkSession c.cleanSession present) >>= fun _ => pure present) :=
    (outward_staysEmpty.send spans).bind fun _ =>
      (inward_staysEmpty.receiveConnack timeout).bind fun _ =>
        (Act.Keeps.ofResult _).bind fun _ => .pure _
  have hempty : υ.session.filled = 0 := hwaits _ _ _ happroach rfl
  rcases Act.runOn_bind_inv h with ⟨_, -, ⟨⟩⟩ | ⟨_, ρ, hresume, h⟩
  have hresumed := outward_staysEmpty.resume kept υ _ ρ hresume hempty
  rcases Act.runOn_bind_inv h with ⟨_, -, ⟨⟩⟩ | ⟨_, _, hestablish, ⟨⟩⟩
  cases hestablish
  exact hresumed

/-! ## The stream -/

variable {s : Stream ω} {σ τ : Scene (Watched ω)}

/-- While a client connects its reads bring what is next in the stream. -/
theorem connect_delivers (hs : s.Truthful) (c : Connect) (timeout : UInt32) :
    Act.Keeps s.Delivers (connect c timeout) := by
  have hlistens := hs.listens
  have hchange : ∀ f : Session → Session, Act.Keeps s.Delivers (Act.change f) := by
    intro f
    exact .change fun _ => .of_eq rfl
  rw [connect_eq]
  exact (hlistens.handshake hs.send c timeout).bind fun _ => (hlistens.resume _).bind fun _ =>
    ((hchange _).bind fun _ => hlistens.now.bind fun _ => hchange _).bind fun _ => .pure _

/-! ## The next call -/

/-- A call that receives begins a packet with the first of the bytes that its read brings. They are
next in the stream and alone in the network buffer, and the header that the call looks for begins
with this byte. -/
structure Begins (s : Stream ω) (managed : Bool) (σ : Scene (Watched ω)) (first : UInt8)
    (more : Bytes) : Prop where
  stream : s.unread σ.host.host = first :: (more ++ s.unread (fetch σ).host.host)
  pending : (fetch σ).session.pending = first :: more
  looks : (receive managed).runOn σ = (handleBuffered managed).runOn (fetch σ)
  /-- A byte with which no packet begins is refused. -/
  refuses : mayArrive σ.session.version first = false →
    (receive managed).runOn σ = some (.error .badResponse, fetch σ)
  header : ∀ header, Header.decode σ.session.version (first :: more) = .ok header →
    header.firstByte = first
  packet : ∀ b τ, (receive managed).runOn σ = some (.ok (.packet b), τ) → b = first

/-- The read of a call brings what is next in the stream. -/
theorem firstRead_truthful (hs : s.Truthful) (hworks : s.Works σ.host.host) :
    (firstRead σ).IsHonest ∧
      s.unread σ.host.host = (firstRead σ).delivered ++ s.unread (fetch σ).host.host :=
  (hs (.read (σ.session.capacity - σ.session.filled) none) σ.host.host hworks).2

theorem filled_fetch (hhonest : (firstRead σ).IsHonest) :
    (fetch σ).session.filled = σ.session.filled + (firstRead σ).delivered.length := by
  rw [fetch, firstRead] at *
  cases hanswer : (firstAnswer σ).1 with
  | none => rfl
  | some answer =>
    obtain ⟨count, arrived⟩ := answer
    rw [hanswer] at hhonest
    obtain ⟨rfl, hle⟩ := hhonest
    simp only [afterRead, HostCall.delivered, Nat.min_eq_left hle]

omit [Host ω] in
theorem decode_front_cons {version : Version} {first : UInt8} {more : Bytes} {header : Header}
    (h : Header.decode version (first :: more) = .ok header) : header.firstByte = first := by
  obtain ⟨-, -, -, hb⟩ := Header.decode_eq_ok.mp h
  exact (List.cons.inj hb).1.symm

/-- The packet that a call handles is named by the header at the front of the received bytes. -/
theorem decode_of_handleBuffered {managed : Bool} {b : UInt8}
    (h : (handleBuffered managed).runOn σ = some (.ok (.packet b), τ)) :
    ∃ header, Header.decode σ.session.version σ.session.pending = .ok header ∧
      header.firstByte = b := by
  cases handleBuffered_inv h with
  | waits _ _ idle => exact absurd rfl (idle b)
  | @drops _ r' _ _ _ result => cases r' <;> cases result
  | handles decodes _ _ handled =>
    rcases handleFront_inv handled with ⟨_, -, hpacket, -⟩ | ⟨_, _, -, ⟨⟩, -⟩
    cases hpacket
    exact ⟨_, decodes, rfl⟩

/-- Bytes with which no packet begins are refused. -/
theorem handleBuffered_refuses {managed : Bool} {fault : Fault}
    (hdecode : Header.decode σ.session.version σ.session.pending = .error fault)
    (hnonempty : σ.session.filled ≠ 0) (hfault : fault ≠ .needMoreBytes) :
    (handleBuffered managed).runOn σ = some (.error fault, σ) := by
  have hfront : Header.decode σ.session.version (σ.session.buffer.take σ.session.filled) =
      .error fault := hdecode
  rw [handleBuffered, Act.runOn_bind_of_ok (Act.runOn_session _), if_neg hnonempty, hfront]
  cases fault <;> first | exact absurd rfl hfault | rfl

/-- A client with an empty network buffer begins a packet with the next byte of the stream. -/
theorem begins_of_empty (hs : s.Truthful) (hworks : s.Works σ.host.host)
    (hempty : σ.session.filled = 0) {managed : Bool} {first : UInt8} {more : Bytes}
    (hread : (firstRead σ).delivered = first :: more) : Begins s managed σ first more := by
  obtain ⟨hhonest, hunread⟩ := firstRead_truthful hs hworks
  have hpending : (fetch σ).session.pending = first :: more := by
    rw [pending_fetch (by omega) hhonest, hread, pending, hempty]
    rfl
  have hnonempty : (fetch σ).session.filled ≠ 0 := by
    intro hzero
    rw [pending, hzero, List.take_zero] at hpending
    cases hpending
  have hversion : (fetch σ).session.version = σ.session.version := version_afterRead ..
  -- The read has brought something, so that keep-alive has to wait.
  have harrive : (arrive managed).runOn σ = some (.ok (), fetch σ) := by
    cases hanswer : (firstAnswer σ).1 with
    | none => simp [firstRead, hanswer, HostCall.delivered] at hread
    | some answer =>
      obtain ⟨count, arrived⟩ := answer
      simp only [firstRead, hanswer, HostCall.delivered, HostCall.IsHonest] at hread hhonest
      obtain ⟨hcount, hle⟩ := hhonest
      rw [hread, List.length_cons] at hcount
      rw [arrive_some hanswer, if_neg (by omega)]
  have hlooks : (receive managed).runOn σ = (handleBuffered managed).runOn (fetch σ) := by
    rw [receive_eq, Act.runOn_bind_of_ok harrive]
  refine ⟨by rw [hunread, hread]; rfl, hpending, hlooks, fun hrefused => ?_,
    fun header => decode_front_cons, fun b τ h => ?_⟩
  · rw [hlooks]
    refine handleBuffered_refuses ?_ hnonempty (by decide)
    rw [hversion, hpending, Header.decode, if_neg (by simp [hrefused])]
  · rw [hlooks] at h
    obtain ⟨header, hdecode, rfl⟩ := decode_of_handleBuffered h
    rw [hpending] at hdecode
    exact decode_front_cons hdecode

/-- A call that receives has come upon nothing. The client stands where it stood in the stream, with
an empty network buffer. -/
structure Idles (s : Stream ω) (σ τ : Scene (Watched ω)) (r : Except Fault Progress) : Prop where
  works : s.Works τ.host.host
  unread : s.unread τ.host.host = s.unread σ.host.host
  empty : τ.session.filled = 0
  nothing : ∀ b, r ≠ .ok (.packet b)

/-- A client with an empty network buffer does nothing in the stream when a read brings nothing. -/
theorem idles_of_empty (hs : s.Truthful) (hworks : s.Works σ.host.host)
    (hempty : σ.session.filled = 0) {managed : Bool} {r : Except Fault Progress}
    (hread : (firstRead σ).delivered = []) (h : (receive managed).runOn σ = some (r, τ)) :
    Idles s σ τ r := by
  have harrives : ∀ {r υ}, (arrive managed).runOn σ = some (r, υ) →
      s.Works υ.host.host ∧ s.unread υ.host.host = s.unread σ.host.host ∧
        υ.session.filled = 0 := by
    intro r υ harrive
    obtain ⟨hworks', hstream⟩ := stream_arrive hs hworks (by omega) harrive
    obtain ⟨-, -, -, hfetched⟩ := pending_of_intake (arrive_unread harrive).same
    have hfilled : υ.session.filled = 0 := by
      rw [hfetched, filled_fetch (firstRead_truthful hs hworks).1, hempty, hread]
      rfl
    refine ⟨hworks', ?_, hfilled⟩
    simpa [pending, hfilled, hempty] using hstream
  rw [receive_eq] at h
  rcases Act.runOn_bind_inv h with ⟨fault, harrive, rfl⟩ | ⟨_, υ, harrive, h⟩
  · obtain ⟨hworks', hunread, hfilled⟩ := harrives harrive
    exact ⟨hworks', hunread, hfilled, by rintro _ ⟨⟩⟩
  · obtain ⟨hworks', hunread, hfilled⟩ := harrives harrive
    rw [handleBuffered_empty hfilled] at h
    cases h
    exact ⟨hworks', hunread, hfilled, by rintro _ ⟨⟩⟩

/-! ## Connecting -/

/-- During a call that connects, one CONNACK has come that answers this CONNECT with success. It is
all that the call has received, and what follows it in the stream is still to be read. -/
structure TakesConnack (s : Stream ω) (c : Connect) (present : Bool) (σ τ : Scene (Watched ω))
    (connack : Connack) : Prop where
  present : connack.sessionPresent = present
  success : connack.reason = Reason.success
  wellFormed : ∃ negotiated, requested σ.session.version c = .ok negotiated ∧
    connack.WellFormed σ.session.version negotiated.requestResponseInfo
  isFrame : IsFrame PacketType.connack.firstByte (connack.wire σ.session.version)
  received : ∃ calls, τ.host.calls = calls ++ σ.host.calls ∧
    received calls = connack.wire σ.session.version
  unread : s.unread σ.host.host = connack.wire σ.session.version ++ s.unread τ.host.host

/-- **Connecting takes the CONNACK and nothing else.** Whatever a client has been through, and
however a truthful stream cuts what it brings, a call that connects takes the header and the body of
one CONNACK from the stream and leaves the network buffer empty. So what the broker sends next is
still unread: a call that receives begins a packet with the first byte behind the CONNACK, unless
its read brings nothing, and then the next call is in its place. -/
theorem connect_takes_connack (hs : s.Truthful) {c : Connect} {timeout : UInt32} {present : Bool}
    (hworks : s.Works σ.host.host)
    (h : (connect c timeout).runOn σ = some (.ok present, τ)) :
    (∃ connack, TakesConnack s c present σ τ connack) ∧ s.Works τ.host.host ∧
      τ.session.filled = 0 ∧ ∀ managed,
        (∀ r υ, (firstRead τ).delivered = [] → (receive managed).runOn τ = some (r, υ) →
          Idles s τ υ r) ∧
        ∀ first more, (firstRead τ).delivered = first :: more → Begins s managed τ first more := by
  obtain ⟨hworks', calls, hcalls, hhonest, hunread⟩ :=
    connect_delivers hs c timeout σ _ τ h hworks
  obtain ⟨negotiated, connack, hrequest,
    ⟨hpresent, -, hform, hsuccess, calls', hcalls', htakes⟩, -⟩ := connect_negotiates h
  obtain rfl : calls' = calls := List.append_cancel_right (hcalls'.symm.trans hcalls)
  obtain ⟨hreceived, hmax⟩ := htakes hhonest
  have hempty := connect_empties h
  refine ⟨⟨connack, hpresent, hsuccess, ⟨negotiated, hrequest, hform⟩, ?_,
    ⟨calls', hcalls, hreceived⟩, by rw [hunread, hreceived]⟩, hworks', hempty,
    fun managed => ⟨?_, ?_⟩⟩
  · exact ⟨⟨_, connack.body _, hmax⟩, rfl, rfl⟩
  · intro r υ hread hreceive
    exact idles_of_empty hs hworks' hempty hread hreceive
  · intro first more hread
    exact begins_of_empty hs hworks' hempty hread

end Session

/-- A client that was cut off halfway through a packet connects anew and wants its session back. The
CONNACK comes in pieces with pauses between them, and a PUBLISH right behind it. -/
def resumed : Scene (Watched Scripted) where
  session := { Session.create 16 (.empty 1 1) .v5 {} with
    buffer := [0x30, 9, 0] ++ List.replicate 13 0
    filled := 3 }
  host := { host := {
    incoming := [0x20, 6, 1, 0, 3, 0x21, 0, 10] ++ [0x30, 6, 0, 1, 97, 0, 104, 105]
    reads := [.move 0, .move 1, .move 1, .move 2, .move 0, .move 16]
    step := 3 } }

/-- The first thing that it receives is the PUBLISH, from its first byte on. -/
theorem Session.connect_takes_connack_resumed :
    ∃ τ, ∃ connack : Connack,
      (Session.connect { clientId := "c", cleanSession := false } 1000).runOn resumed =
        some (.ok true, τ) ∧
      connack.wire .v5 = [0x20, 6, 1, 0, 3, 0x21, 0, 10] ∧ τ.session.filled = 0 ∧
      Scripted.stream.unread τ.host.host = [0x30, 6, 0, 1, 97, 0, 104, 105] ∧
      Session.Begins Scripted.stream true τ 0x30 [6, 0, 1, 97, 0, 104, 105] := by
  have hrun : ((Session.connect { clientId := "c", cleanSession := false } 1000).runOn resumed).map
      (fun ending => (ending.1, Scripted.stream.unread ending.2.host.host,
        (Session.firstRead ending.2).delivered)) =
      some (.ok true, [0x30, 6, 0, 1, 97, 0, 104, 105], [0x30, 6, 0, 1, 97, 0, 104, 105]) := by
    decide +kernel
  obtain ⟨⟨r, τ⟩, hconnect, hseen⟩ := Option.map_eq_some_iff.mp hrun
  simp only [Prod.mk.injEq] at hseen
  obtain ⟨rfl, hunread, hread⟩ := hseen
  obtain ⟨⟨connack, htakes⟩, -, hempty, hnext⟩ :=
    Session.connect_takes_connack Scripted.truthful_stream
      (by simp [Scripted.stream, resumed]) hconnect
  refine ⟨τ, connack, hconnect, ?_, hempty, hunread, (hnext true).2 _ _ hread⟩
  have hstream := htakes.unread
  rw [hunread] at hstream
  exact (List.append_cancel_right hstream).symm

end MqttClient
