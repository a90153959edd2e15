import MqttClient.Proofs.Logs
import MqttClient.Proofs.Untouched
import MqttClient.Proofs.Wire.Frames

/-!
# What goes out is made of whole packets

As long as sending does not fail, the bytes that the transport takes are whole packets, in the
order in which the operations send them (`run_sends_frames`). `Act.Emits K` says so of one
operation, and `K` tells the first bytes of the packets that it sends.
-/
namespace MqttClient
variable {ω α β : Type}

/-! ## Operations -/

/-- Bytes are whole packets with first bytes of some kinds, or there are none because of a
fault. -/
def Sends (K : List UInt8 → Prop) (r : Except Fault α) (b : Bytes) : Prop :=
  ∃ frames : List Frame, b = frames.flatMap Frame.bytes ∧
    (K (frames.map Frame.firstByte) ∨ frames = [] ∧ ∃ fault, r = .error fault)

namespace Sends
variable {K K' : List UInt8 → Prop} {r : Except Fault α}

theorem error (fault : Fault) : Sends K (.error fault : Except Fault α) [] :=
  ⟨[], rfl, .inr ⟨rfl, fault, rfl⟩⟩

theorem nil (h : K []) : Sends K r [] := ⟨[], rfl, .inl h⟩

theorem mono {b : Bytes} (h : Sends K r b) (hK : ∀ kinds, K kinds → K' kinds) : Sends K' r b := by
  obtain ⟨frames, hb, hkinds⟩ := h
  exact ⟨frames, hb, hkinds.imp_left (hK _)⟩

end Sends

namespace Act

/-- Unless it fails to send, an operation sends whole packets with first bytes of some kinds, or
fails before it sends anything. -/
def Emits (K : List UInt8 → Prop) (act : Act (Watched ω) α) : Prop :=
  act.Logs fun r calls => r ≠ .error .sendFailed → Sends K r (written calls)

namespace Emits
variable {K K' K'' : List UInt8 → Prop} {act : Act (Watched ω) α} {f : α → Act (Watched ω) β}

theorem mono (h : Emits K act) (hK : ∀ kinds, K kinds → K' kinds) : Emits K' act :=
  Logs.mono h fun _ _ hsends hr => (hsends hr).mono hK

theorem of_mute (h : act.Keeps Mute) (hK : K []) : Emits K act := by
  intro σ r τ hrun
  obtain ⟨calls, hcalls, hmute⟩ := h σ r τ hrun
  exact ⟨calls, hcalls, fun _ => by rw [written_eq_nil hmute]; exact .nil hK⟩

theorem bind (h : Emits K act) (hf : ∀ a, Emits K' (f a)) (hfirst : ∀ kinds, K kinds → K'' kinds)
    (hboth : ∀ kinds more, K kinds → K' more → K'' (kinds ++ more)) : Emits K'' (act >>= f) := by
  refine Logs.bind h (fun a _ _ => hf a) ?_ ?_
  · intro fault calls hsends hr
    obtain ⟨frames, hwritten, hkinds⟩ := hsends fun heq => hr (by cases heq; rfl)
    refine ⟨frames, hwritten, ?_⟩
    rcases hkinds with hkinds | ⟨rfl, -⟩
    · exact .inl (hfirst _ hkinds)
    · exact .inr ⟨rfl, fault, rfl⟩
  · intro a r calls later hsends hlater hr
    obtain ⟨frames, hwritten, hkinds⟩ := hsends nofun
    obtain ⟨more, hmore, hkinds'⟩ := hlater hr
    have hkinds := hkinds.resolve_right fun hfails => nomatch hfails.2
    refine ⟨frames ++ more, by rw [written_append, hwritten, hmore, List.flatMap_append], .inl ?_⟩
    rcases hkinds' with hkinds' | ⟨rfl, -⟩
    · rw [List.map_append]
      exact hboth _ _ hkinds hkinds'
    · -- The second part has failed with nothing sent, so the first has sent all there is.
      rw [List.append_nil]
      exact hfirst _ hkinds

/-- What an operation sends after it has been silent. -/
theorem mute_bind (h : act.Keeps Mute) (hf : ∀ a, Emits K (f a)) : Emits K (act >>= f) := by
  intro σ r τ hrun
  rcases runOn_bind_inv hrun with ⟨fault, hact, rfl⟩ | ⟨a, υ, hact, hrest⟩
  · obtain ⟨calls, hcalls, hmute⟩ := h σ _ τ hact
    exact ⟨calls, hcalls, fun _ => by rw [written_eq_nil hmute]; exact .error fault⟩
  · obtain ⟨calls, hcalls, hmute⟩ := h σ _ υ hact
    obtain ⟨later, hlater, hsends⟩ := hf a υ r τ hrest
    refine ⟨later ++ calls, by rw [hlater, hcalls, List.append_assoc], fun hr => ?_⟩
    rw [written_append, written_eq_nil hmute, List.nil_append]
    exact hsends hr

theorem bind_mute (h : Emits K act) (hf : ∀ a, (f a).Keeps Mute) : Emits K (act >>= f) :=
  h.bind (fun a => (of_mute (hf a) rfl : Emits (· = []) (f a))) (fun _ => id) (by
    rintro kinds _ hkinds rfl
    rwa [List.append_nil])

theorem ite {c : Prop} [Decidable c] {other : Act (Watched ω) α} (h : c → Emits K act)
    (hother : ¬c → Emits K other) : Emits K (if c then act else other) :=
  Logs.ite h hother

theorem pure {a : α} (hK : K []) : Emits K (Pure.pure a : Act (Watched ω) α) :=
  Logs.pure fun _ => .nil hK

theorem throw (fault : Fault) : Emits K (MonadExcept.throw fault : Act (Watched ω) α) :=
  Logs.throw fun _ => .error fault

theorem check {c : Prop} [Decidable c] {fault : Fault} {next : Act (Watched ω) β}
    (h : Emits K next) :
    Emits K (if c then (MonadExcept.throw fault : Act (Watched ω) α) >>= f else next) :=
  Logs.check (fun _ _ => .error fault) fun _ => h

theorem session_bind {f : Session → Act (Watched ω) β} (hf : ∀ s, Emits K (f s)) :
    Emits K (Act.session >>= f) :=
  Logs.session_bind hf

theorem ofResult_bind {result : Except Fault α} (hf : ∀ a, result = .ok a → Emits K (f a)) :
    Emits K (Act.ofResult result >>= f) :=
  Logs.ofResult_bind (fun fault _ _ => .error fault) hf

end Emits

end Act

namespace Session
variable [Host ω]

/-! ## Sending -/

theorem send_emits {spans : List Bytes} {kind : UInt8} (h : IsFrame kind spans.flatten) :
    (send spans : Act (Watched ω) Unit).Emits (· = [kind]) := by
  intro σ r τ hrun
  obtain ⟨k, calls, hcalls, hsent, -, hend⟩ := send_inv hrun
  refine ⟨calls, hcalls, fun hr => ?_⟩
  obtain ⟨-, rfl, -⟩ := hend.resolve_right fun hfails => hr hfails.1
  obtain ⟨f, rfl, hf⟩ := h
  exact ⟨[f], by rw [hsent.taken, List.take_length, ← hf]; simp, .inl rfl⟩

/-- A packet that is sent in batches. -/
theorem sendAll_emits {batches : List (List Bytes)} {kind : UInt8}
    (h : IsFrame kind batches.flatten.flatten) :
    (sendAll batches : Act (Watched ω) Unit).Emits (· = [kind]) := by
  intro σ r τ hrun
  obtain ⟨calls, hcalls, hends⟩ := sendAll_ends hrun
  refine ⟨calls, hcalls, fun hr => ?_⟩
  obtain ⟨rfl, hwritten⟩ := hends.resolve_right fun hfails => hr hfails.1
  obtain ⟨f, rfl, hf⟩ := h
  exact ⟨[f], by rw [hwritten, ← hf]; simp, .inl rfl⟩

theorem ping_emits : (ping : Act (Watched ω) Unit).Emits (· = [PacketType.pingreq.firstByte]) :=
  (send_emits (by simpa using Ping.isFrame_request)).bind_mute fun _ => .makes_change

/-- At most one acknowledgement is sent, and it is the one that is owed. -/
theorem sendAck_emits (id : UInt16) (state : ExchangeState) :
    (sendAck id state : Act (Watched ω) Unit).Emits fun kinds => kinds = [] ∨
      ∃ ack, state.ackToSend = some ack ∧ kinds = [ack.packetType.firstByte] := by
  refine sendAck_elim id state (.pure (.inl rfl)) (fun _ => .throw _) fun ack hack => ?_
  have hsend : (send [Ack.wire ack id] : Act (Watched ω) Unit).Emits
      (· = [ack.packetType.firstByte]) :=
    send_emits (by simpa using Ack.isFrame_wire ack id)
  exact (hsend.bind_mute fun _ => (track_mute _).bind fun _ =>
    (Act.Keeps.ofResult _).bind fun _ => .pure _).mono fun _ hkinds => .inr ⟨ack, hack, hkinds⟩

/-! ## Connecting -/

theorem handshake_emits (c : Connect) (timeout : UInt32) :
    (handshake c timeout : Act (Watched ω) Bool).Emits (· = [PacketType.connect.firstByte]) := by
  refine .session_bind fun s => .ofResult_bind fun negotiated _ => .ofResult_bind fun size hsize =>
    .mute_bind .makes_change fun _ => .ofResult_bind fun spans hspans => ?_
  -- After the CONNECT there is only the wait for its answer.
  exact (send_emits (Connect.isFrame_spans hsize hspans)).bind_mute fun _ =>
    (inward_mute.receiveConnack timeout).bind fun _ => (Act.Keeps.ofResult _).bind fun _ => .pure _

theorem resendPubrels_emits (n cursor : ℕ) :
    (resendPubrels n cursor : Act (Watched ω) Unit).Emits fun kinds =>
      ∃ k, kinds = List.replicate k PacketType.pubrel.firstByte := by
  induction n generalizing cursor with
  | zero => exact .pure ⟨0, rfl⟩
  | succ n ih =>
    rw [resendPubrels]
    refine .session_bind fun s => ?_
    split
    · exact .pure ⟨0, rfl⟩
    · refine (sendAck_emits _ _).bind (fun _ => ih _) ?_ ?_
      · rintro kinds (rfl | ⟨ack, ⟨⟩, rfl⟩)
        · exact ⟨0, rfl⟩
        · exact ⟨1, rfl⟩
      · rintro kinds more (rfl | ⟨ack, ⟨⟩, rfl⟩) ⟨k, rfl⟩
        · exact ⟨k, rfl⟩
        · exact ⟨k + 1, rfl⟩

theorem connect_emits (c : Connect) (timeout : UInt32) :
    (connect c timeout : Act (Watched ω) Bool).Emits fun kinds => ∃ k,
      kinds = PacketType.connect.firstByte :: List.replicate k PacketType.pubrel.firstByte := by
  have hresume : ∀ present, (resume present : Act (Watched ω) Unit).Emits fun kinds =>
      ∃ k, kinds = List.replicate k PacketType.pubrel.firstByte := by
    intro present
    cases present with
    | true => exact .session_bind fun s => resendPubrels_emits _ _
    | false => exact .of_mute ((track_mute _).bind fun _ => .pure _) ⟨0, rfl⟩
  rw [connect_eq]
  refine (handshake_emits c timeout).bind (fun present => (hresume present).bind_mute fun _ =>
    (establish_mute c).bind fun _ => .pure _) ?_ ?_
  · rintro _ rfl
    exact ⟨0, rfl⟩
  · rintro _ _ rfl ⟨k, rfl⟩
    exact ⟨k, rfl⟩

/-! ## Requests -/

theorem openOutgoing_mute (m : Message) (id : UInt16) :
    (openOutgoing m id : Act (Watched ω) Unit).Keeps Mute := by
  refine (track_mute _).bind fun result => ?_
  split
  · exact .pure _
  · exact .ite (.pure _) (.throw _)

theorem publish_emits (m : Message) (id : UInt16) :
    (publish m id : Act (Watched ω) Unit).Emits
      (· = [PacketType.publish.firstByte ||| m.flags]) := by
  refine .session_bind fun s => .check <| .ofResult_bind fun size hsize =>
    .ofResult_bind fun spans hspans => ?_
  -- A tracked and an untracked message go on alike once the exchange is open.
  extract_lets afterOpening
  have hafter : ∀ u, (afterOpening u).Emits (· = [PacketType.publish.firstByte ||| m.flags]) :=
    fun _ => (send_emits (Message.isFrame_spans hsize hspans)).bind_mute fun _ =>
      .ite ((track_mute _).bind fun _ => (Act.Keeps.ofResult _).bind fun _ => .pure _) (.pure _)
  exact .ite (fun _ => .mute_bind (openOutgoing_mute m id) hafter) fun _ => hafter ()

theorem subscribe_emits (subscriptions : List Subscription) (properties : Bytes) (id : UInt16) :
    (subscribe subscriptions properties id : Act (Watched ω) Unit).Emits
      (· = [PacketType.subscribe.firstByte]) := by
  refine .session_bind fun s => .check <| .ofResult_bind fun size hsize =>
    .ofResult_bind fun head hhead => sendAll_emits ?_
  obtain ⟨hne, hplain, -, hcount⟩ := Subscribe.size_eq_ok.mp hsize
  rw [Subscribe.flatten_spanBatches (by simpa using hne), Subscribe.flatten_spans]
  exact Subscribe.isFrame_head hplain hcount hhead

theorem unsubscribe_emits (filters : List String) (properties : Bytes) (id : UInt16) :
    (unsubscribe filters properties id : Act (Watched ω) Unit).Emits
      (· = [PacketType.unsubscribe.firstByte]) := by
  refine .session_bind fun s => .check <| .ofResult_bind fun size hsize =>
    .ofResult_bind fun head hhead => sendAll_emits ?_
  obtain ⟨hne, hplain, -, hcount⟩ := Unsubscribe.size_eq_ok.mp hsize
  rw [Subscribe.flatten_spanBatches (by simpa using hne), Unsubscribe.flatten_spans]
  exact Subscribe.isFrame_head hplain hcount hhead

theorem disconnect_emits :
    (disconnect : Act (Watched ω) Unit).Emits (· = [PacketType.disconnect.firstByte]) :=
  (send_emits (by simpa using Disconnect.isFrame_bare)).bind_mute fun _ => .makes_change

theorem disconnectWithReason_emits (reason : UInt8) (properties : Bytes) :
    (disconnectWithReason reason properties : Act (Watched ω) Unit).Emits
      (· = [PacketType.disconnect.firstByte]) :=
  .session_bind fun _ => .check <| .ofResult_bind fun _ hsize =>
    .ofResult_bind fun _ hspans =>
      (send_emits (Disconnect.isFrame_spans hsize hspans)).bind_mute fun _ => .makes_change

/-! ## Receiving -/

/-- No packet is sent, or one acknowledgement. -/
def AtMostAck (kinds : List UInt8) : Prop :=
  kinds = [] ∨ ∃ ack : AckKind, kinds = [ack.packetType.firstByte]

theorem sendAck_atMostAck (id : UInt16) (state : ExchangeState) :
    (sendAck id state : Act (Watched ω) Unit).Emits AtMostAck :=
  (sendAck_emits id state).mono fun _ hkinds => hkinds.imp_right fun ⟨ack, _, h⟩ => ⟨ack, h⟩

theorem handlePublish_emits (packet : Packet) :
    (handlePublish packet : Act (Watched ω) Unit).Emits AtMostAck := by
  have hopen : ∀ id qos, (openIncoming id qos : Act (Watched ω) _).Keeps Mute := by
    intro id qos
    refine .ite (.pure _) ((track_mute _).bind fun result => ?_)
    split
    · exact .pure _
    · exact .pure _
    · exact .throw _
  exact .session_bind fun s => .ofResult_bind fun _ _ => .mute_bind (hopen _ _) fun _ =>
    .ite (fun _ => .mute_bind (report_mute _) fun _ => sendAck_atMostAck _ _)
      fun _ => sendAck_atMostAck _ _

theorem handleAck_emits (packet : Packet) (kind : AckKind) :
    (handleAck packet kind : Act (Watched ω) Unit).Emits AtMostAck := by
  have hsettle : ∀ id verdict, (settleAck id kind verdict : Act (Watched ω) _).Keeps Mute :=
    fun _ _ => .ite ((track_mute _).bind fun _ => .ofResult _)
      ((track_mute _).bind fun _ => .ofResult _)
  refine .session_bind fun s => .ofResult_bind fun ack _ => ?_
  split
  · exact .throw _
  · exact .mute_bind (hsettle _ _) fun _ => .mute_bind (report_mute _) fun _ =>
      sendAck_atMostAck _ _

theorem dispatch_emits (managed : Bool) (packet : Packet) :
    (dispatch managed packet : Act (Watched ω) Unit).Emits AtMostAck := by
  have hpingresp : (handlePingresp managed packet : Act (Watched ω) Unit).Keeps Mute :=
    (Act.Keeps.ofResult _).bind fun _ => .ite .makes_change (report_mute _)
  have hsuback : (handleSuback packet : Act (Watched ω) Unit).Keeps Mute := by
    refine Act.Keeps.session.bind fun _ => (Act.Keeps.ofResult _).bind fun suback => ?_
    split
    · exact .throw _
    · exact report_mute _
  have hdisconnect : (handleDisconnect packet : Act (Watched ω) Unit).Keeps Mute :=
    (Act.Keeps.ofResult _).bind fun _ => (report_mute _).bind fun _ => .makes_change
  rw [dispatch]
  split
  · exact handlePublish_emits packet
  · exact handleAck_emits packet _
  · exact handleAck_emits packet _
  · exact handleAck_emits packet _
  · exact handleAck_emits packet _
  · exact .of_mute hpingresp (.inl rfl)
  · exact .of_mute hsuback (.inl rfl)
  · exact .of_mute hsuback (.inl rfl)
  · exact .of_mute (Act.Keeps.session.bind fun _ => .ite hdisconnect (.throw _)) (.inl rfl)
  · exact .throw _

theorem handleFront_emits (managed : Bool) (header : Header) :
    (handleFront managed header : Act (Watched ω) Progress).Emits AtMostAck := by
  intro σ r τ hrun
  rcases handleFront_inv hrun with ⟨υ, hdispatch, rfl, hτ⟩ | ⟨fault, υ, hdispatch, rfl, hτ⟩
  · obtain ⟨calls, hcalls, hsends⟩ := dispatch_emits managed _ σ _ υ hdispatch
    refine ⟨.now (Host.now υ.host.host).1 :: calls, by rw [hτ, Watched.calls_now, hcalls]; rfl,
      fun _ => ?_⟩
    obtain ⟨frames, hwritten, hkinds⟩ := hsends nofun
    exact ⟨frames, by simpa [HostCall.taken] using hwritten,
      hkinds.imp_right fun hfails => nomatch hfails.2⟩
  · obtain ⟨calls, hcalls, hsends⟩ := dispatch_emits managed _ σ _ υ hdispatch
    refine ⟨calls, by rw [hτ, hcalls], fun hr => ?_⟩
    obtain ⟨frames, hwritten, hkinds⟩ := hsends fun heq => hr (by cases heq; rfl)
    exact ⟨frames, hwritten, hkinds.imp_right fun hfails => ⟨hfails.1, fault, rfl⟩⟩

theorem handleBuffered_emits (managed : Bool) :
    (handleBuffered managed : Act (Watched ω) Progress).Emits AtMostAck := by
  refine .session_bind fun s => .ite (fun _ => .pure (.inl rfl)) fun _ => ?_
  split
  · exact .pure (.inl rfl)
  · exact .throw _
  · exact .ite
      (fun _ => .of_mute ((inward_mute.discard _).bind fun _ => .pure _) (.inl rfl)) fun _ =>
        .ite (fun _ => .pure (.inl rfl)) fun _ => handleFront_emits _ _

/-- No packet is sent, or one PINGREQ under managed keep-alive. -/
def AtMostPing (managed : Bool) (kinds : List UInt8) : Prop :=
  kinds = [] ∨ managed = true ∧ kinds = [PacketType.pingreq.firstByte]

theorem arrive_emits (managed : Bool) :
    (arrive managed : Act (Watched ω) Unit).Emits (AtMostPing managed) := by
  have hduty : managed = true →
      (keepAliveDuty : Act (Watched ω) Unit).Emits (AtMostPing managed) := by
    intro hmanaged
    refine .mute_bind inward_mute.now fun now => .session_bind fun s => ?_
    split
    · exact .pure (.inl rfl)
    · exact ping_emits.mono fun _ hkinds => .inr ⟨hmanaged, hkinds⟩
    · exact .throw _
  exact .session_bind fun s => .mute_bind (inward_mute.read _ _) fun received =>
    .mute_bind .makes_change fun _ => Act.Emits.ite (fun hquiet => hduty hquiet.2) fun _ =>
      .pure (.inl rfl)

theorem receive_emits (managed : Bool) :
    (receive managed : Act (Watched ω) Progress).Emits fun kinds =>
      ∃ pings acks, kinds = pings ++ acks ∧ AtMostPing managed pings ∧ AtMostAck acks := by
  rw [receive_eq]
  refine (arrive_emits managed).bind (fun _ => handleBuffered_emits managed) ?_ ?_
  · exact fun pings hpings => ⟨pings, [], (List.append_nil _).symm, hpings, .inl rfl⟩
  · exact fun pings acks hpings hacks => ⟨pings, acks, rfl, hpings, hacks⟩

end Session

/-! ## Calls of the program -/

/-- The first bytes of the packets that a call sends if nothing goes wrong before it sends. -/
def Call.Kinds : Call → List UInt8 → Prop
  | connect _ _, kinds => ∃ k,
      kinds = PacketType.connect.firstByte :: List.replicate k PacketType.pubrel.firstByte
  | publish m _, kinds => kinds = [PacketType.publish.firstByte ||| m.flags]
  | subscribe _ _ _, kinds => kinds = [PacketType.subscribe.firstByte]
  | unsubscribe _ _ _, kinds => kinds = [PacketType.unsubscribe.firstByte]
  | disconnect, kinds => kinds = [PacketType.disconnect.firstByte]
  | disconnectWithReason _ _, kinds => kinds = [PacketType.disconnect.firstByte]
  | ping, kinds => kinds = [PacketType.pingreq.firstByte]
  | takePacketId, kinds => kinds = []
  | receive managed, kinds => ∃ pings acks,
      kinds = pings ++ acks ∧ Session.AtMostPing managed pings ∧ Session.AtMostAck acks

variable [Host ω]

theorem Call.perform_emits (call : Call) :
    (call.perform : Act (Watched ω) Answer).Emits call.Kinds := by
  cases call with
  | connect c timeout => exact (Session.connect_emits c timeout).bind_mute fun _ => .pure _
  | publish m id => exact (Session.publish_emits m id).bind_mute fun _ => .pure _
  | subscribe subscriptions properties id =>
    exact (Session.subscribe_emits subscriptions properties id).bind_mute fun _ => .pure _
  | unsubscribe filters properties id =>
    exact (Session.unsubscribe_emits filters properties id).bind_mute fun _ => .pure _
  | disconnect => exact Session.disconnect_emits.bind_mute fun _ => .pure _
  | disconnectWithReason reason properties =>
    exact (Session.disconnectWithReason_emits reason properties).bind_mute fun _ => .pure _
  | ping => exact Session.ping_emits.bind_mute fun _ => .pure _
  | takePacketId =>
    exact .session_bind fun _ => .of_mute (Act.Keeps.makes_change.bind fun _ => .pure _) rfl
  | receive managed => exact (Session.receive_emits managed).bind_mute fun _ => .pure _

namespace Step

/-- The packets that a step sends, unless sending fails. Their first bytes are those of its call,
or it has failed before it sent any. -/
def Packets (s : Step ω) (frames : List Frame) : Prop :=
  s.call.Kinds (frames.map Frame.firstByte) ∨ frames = [] ∧ ∃ fault, s.result = .error fault

/-- What the transport takes in a step is the packets of the step. -/
theorem written_eq {s : Step ω} (h : s.result ≠ .error .sendFailed) :
    ∃ frames, s.Packets frames ∧ written s.calls = frames.flatMap Frame.bytes := by
  obtain ⟨calls, hcalls, hsends⟩ := s.call.perform_emits s.before s.result s.after s.performed
  obtain ⟨frames, hwritten, hkinds⟩ := hsends h
  exact ⟨frames, hkinds, by rw [s.calls_eq hcalls, hwritten]⟩

end Step

/-- **What goes out.** As long as no call fails to send, the bytes that the transport takes are
whole packets: those of the first call, then those of the second, and so on. Each of them is its
first byte, the number of bytes that follow in its shortest form, and these bytes, and there is no
other way to cut what has gone out into packets. What comes in, what the clock shows and how many
bytes each write takes makes no difference. -/
theorem run_sends_frames {steps : List (Step ω)}
    (h : ∀ s ∈ steps, s.result ≠ .error .sendFailed) :
    ∃ packets, List.Forall₂ Step.Packets steps packets ∧
      (steps.flatMap fun s => written s.calls) = packets.flatten.flatMap Frame.bytes ∧
      ∀ frames, (steps.flatMap fun s => written s.calls) = frames.flatMap Frame.bytes →
        frames = packets.flatten := by
  obtain ⟨packets, hpackets, hwritten⟩ : ∃ packets, List.Forall₂ Step.Packets steps packets ∧
      (steps.flatMap fun s => written s.calls) = packets.flatten.flatMap Frame.bytes := by
    induction steps with
    | nil => exact ⟨[], .nil, rfl⟩
    | cons s rest ih =>
      obtain ⟨hs, hrest⟩ := List.forall_mem_cons.mp h
      obtain ⟨frames, hframes, hwritten⟩ := s.written_eq hs
      obtain ⟨packets, hpackets, hothers⟩ := ih hrest
      refine ⟨frames :: packets, .cons hframes hpackets, ?_⟩
      rw [List.flatMap_cons, hwritten, hothers, List.flatten_cons, List.flatMap_append]
  exact ⟨packets, hpackets, hwritten, fun frames hcut =>
    Frame.cut_unique (hcut.symm.trans hwritten)⟩

/-- A client whose transport takes a few bytes at a time connects, publishes a message and receives
one that it has to acknowledge. -/
def slowly : List (Step Scripted) :=
  stepsFrom
    { session := .create 16 (.empty 1 1) .v311 {}
      host := { host := {
        incoming := [0x20, 2, 0, 0, 0x32, 6, 0, 1, 98, 0, 7, 121]
        writes := [.move 3, .move 0, .move 9]
        writeLimit := some 2 } } }
    [.connect { clientId := "c" } 1000,
      .publish { topic := "a", payload := [120], qos := .atLeastOnce } 3, .receive true]

/-- What goes out is a CONNECT, a PUBLISH and a PUBACK. -/
theorem run_sends_frames_slowly :
    (∀ s ∈ slowly, s.result ≠ .error .sendFailed) ∧
      ∃ packets, List.Forall₂ Step.Packets slowly packets ∧
        packets.flatten.map (fun f => (f.firstByte, f.body)) =
          [(0x10, [0, 4, 77, 81, 84, 84, 4, 2, 0, 0, 0, 1, 99]), (0x32, [0, 1, 97, 0, 3, 120]),
            (0x40, [0, 7])] := by
  have hresults : ∀ s ∈ slowly, s.result ≠ .error .sendFailed := by decide +kernel
  have hwritten : (slowly.flatMap fun s => written s.calls) =
      List.flatMap Frame.bytes
        [⟨0x10, [0, 4, 77, 81, 84, 84, 4, 2, 0, 0, 0, 1, 99], by decide⟩,
          ⟨0x32, [0, 1, 97, 0, 3, 120], by decide⟩, ⟨0x40, [0, 7], by decide⟩] := by
    decide +kernel
  obtain ⟨packets, hpackets, -, hunique⟩ := run_sends_frames hresults
  exact ⟨hresults, packets, hpackets, by rw [← hunique _ hwritten]; rfl⟩

end MqttClient
