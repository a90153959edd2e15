import MqttClient.Proofs.Framing
import MqttClient.Proofs.Handling

/-!
# What goes out when sending fails

A transport that fails may stop a packet anywhere. What it has taken of an operation is then a
front part of the packets that the operation sends (`Act.Drafts`), and in a front part of packets
no other packets are to be found than the first of them (`Frame.cut_prefix`). So a PINGREQ goes out
in no other call than one that sees to keep-alive or is asked to ping.
-/
namespace MqttClient
variable {ω α β : Type}

/-! ## Packets at the front of a stream -/

/-- Whole packets at the front of a stream of packets are the first of them. -/
theorem Frame.cut_prefix {frames frames' : List Frame}
    (h : frames.flatMap bytes <+: frames'.flatMap bytes) : frames <+: frames' := by
  induction frames generalizing frames' with
  | nil => exact List.nil_prefix
  | cons f rest ih =>
    obtain ⟨more, hmore⟩ := h
    cases frames' with
    | nil => simp [bytes] at hmore
    | cons g rest' =>
      rw [List.flatMap_cons, List.flatMap_cons, List.append_assoc] at hmore
      obtain ⟨rfl, hrest⟩ := bytes_append_inj hmore
      exact (List.prefix_cons_inj f).mpr (ih ⟨more, hrest⟩)

/-- The packet that is a PINGREQ. -/
def Ping.frame : Frame := ⟨PacketType.pingreq.firstByte, [], by decide⟩

theorem Ping.bytes_frame : frame.bytes = request := rfl

/-- Behind some packets, bytes hold a PINGREQ. -/
def HoldsPingreq (frames : List Frame) (b : Bytes) : Prop :=
  frames.flatMap Frame.bytes ++ Ping.request <+: b

/-- Whole packets, of which the last may be cut off, hold the PINGREQs that are among them. -/
theorem HoldsPingreq.cut {frames frames' : List Frame} {b : Bytes} (h : HoldsPingreq frames b)
    (hb : b <+: frames'.flatMap Frame.bytes) : frames ++ [Ping.frame] <+: frames' := by
  refine Frame.cut_prefix (List.IsPrefix.trans ?_ hb)
  rw [List.flatMap_append, List.flatMap_singleton, Ping.bytes_frame]
  exact h

/-- Bytes are packets other than PINGREQs, of which the last may be cut off. -/
def IsPingless (b : Bytes) : Prop :=
  ∃ frames : List Frame, (∀ f ∈ frames, f ≠ Ping.frame) ∧ b <+: frames.flatMap Frame.bytes

theorem isPingless_nil : IsPingless [] := ⟨[], by simp, List.nil_prefix⟩

/-- Such bytes hold no PINGREQ. -/
theorem IsPingless.not_holdsPingreq {b : Bytes} (h : IsPingless b) (frames : List Frame) :
    ¬HoldsPingreq frames b := by
  obtain ⟨others, hothers, hb⟩ := h
  intro hholds
  exact hothers _ ((hholds.cut hb).subset (by simp)) rfl

/-- A PINGREQ before them is the only one. -/
theorem IsPingless.eq_nil {b : Bytes} (h : IsPingless b) {frames : List Frame}
    (hholds : HoldsPingreq frames (Ping.request ++ b)) : frames = [] := by
  obtain ⟨others, hothers, hb⟩ := h
  have hcut : frames ++ [Ping.frame] <+: Ping.frame :: others :=
    hholds.cut (by
      rw [List.flatMap_cons, Ping.bytes_frame]
      exact (List.prefix_append_right_inj _).mpr hb)
  cases frames with
  | nil => rfl
  | cons f rest =>
    obtain ⟨-, hrest⟩ := List.cons_prefix_cons.mp hcut
    exact absurd rfl (hothers _ (hrest.subset (by simp)))

/-! ## Operations -/

namespace Act

/-- Whatever comes of it, an operation sends packets other than PINGREQs, and all of each unless
it fails. -/
def Drafts (act : Act (Watched ω) α) : Prop :=
  act.Logs fun r calls => ∃ frames : List Frame, (∀ f ∈ frames, f ≠ Ping.frame) ∧
    written calls <+: frames.flatMap Frame.bytes ∧
    ∀ a, r = .ok a → written calls = frames.flatMap Frame.bytes

namespace Drafts
variable {act : Act (Watched ω) α}

theorem of_mute (h : act.Keeps Mute) : Drafts act := by
  intro σ r τ hrun
  obtain ⟨calls, hcalls, hmute⟩ := h σ r τ hrun
  have hwritten := written_eq_nil hmute
  exact ⟨calls, hcalls, [], by simp, by simp [hwritten], fun _ _ => hwritten⟩

theorem bind {f : α → Act (Watched ω) β} (h : Drafts act) (hf : ∀ a, Drafts (f a)) :
    Drafts (act >>= f) := by
  refine Logs.bind h (fun a _ _ => hf a) ?_ ?_
  · rintro fault calls ⟨frames, hothers, hwritten, -⟩
    exact ⟨frames, hothers, hwritten, nofun⟩
  · rintro a r calls later ⟨frames, hothers, -, hwritten⟩ ⟨more, hmore, hlater, hwhole⟩
    refine ⟨frames ++ more, List.forall_mem_append.mpr ⟨hothers, hmore⟩, ?_, fun b hr => ?_⟩
    · rw [written_append, hwritten a rfl, List.flatMap_append]
      exact (List.prefix_append_right_inj _).mpr hlater
    · rw [written_append, hwritten a rfl, hwhole b hr, List.flatMap_append]

theorem ite {c : Prop} [Decidable c] {other : Act (Watched ω) α} (h : Drafts act)
    (hother : Drafts other) : Drafts (if c then act else other) :=
  Logs.ite (fun _ => h) fun _ => hother

theorem pure (a : α) : Drafts (Pure.pure a : Act (Watched ω) α) := of_mute (.pure a)

theorem throw (fault : Fault) : Drafts (MonadExcept.throw fault : Act (Watched ω) α) :=
  of_mute (.throw fault)

theorem check {c : Prop} [Decidable c] {fault : Fault} {next : Act (Watched ω) β}
    (h : Drafts next) :
    Drafts (if c then (MonadExcept.throw fault : Act (Watched ω) α) >>= fun _ => next else next) :=
  ite (of_mute (.throw_bind fault _)) h

theorem session_bind {f : Session → Act (Watched ω) β} (hf : ∀ s, Drafts (f s)) :
    Drafts (Act.session >>= f) :=
  Logs.session_bind hf

theorem ofResult_bind {result : Except Fault α} {f : α → Act (Watched ω) β}
    (hf : ∀ a, result = .ok a → Drafts (f a)) : Drafts (Act.ofResult result >>= f) :=
  Logs.ofResult_bind (fun _ _ => ⟨[], by simp, List.nil_prefix, nofun⟩) hf

/-- One packet, however far sending it gets. -/
theorem of_isFrame {act : Act (Watched ω) Unit} {b : Bytes} {kind : UInt8}
    (hact : act.Logs fun r calls => written calls <+: b ∧ ∀ a, r = .ok a → written calls = b)
    (h : IsFrame kind b) (hkind : kind ≠ PacketType.pingreq.firstByte) : Drafts act := by
  obtain ⟨f, rfl, rfl⟩ := h
  have hother : f ≠ Ping.frame := fun heq => hkind (by rw [heq]; rfl)
  refine hact.mono fun r calls hwritten => ⟨[f], by simpa using hother, ?_⟩
  simpa using hwritten

end Drafts

end Act

namespace Session
variable [Host ω]

theorem send_writes (spans : List Bytes) : (send spans : Act (Watched ω) Unit).Logs
    fun r calls => written calls <+: spans.flatten ∧
      ∀ a, r = .ok a → written calls = spans.flatten := by
  intro σ r τ hrun
  obtain ⟨k, calls, hcalls, hsent, -, hends⟩ := send_inv hrun
  refine ⟨calls, hcalls, hsent.taken ▸ List.take_prefix k _, ?_⟩
  rintro a rfl
  obtain ⟨-, rfl, -⟩ := hends.resolve_right fun hfails => nomatch hfails.1
  rw [hsent.taken, List.take_length]

/-- Batches that are sent one after another, however far that gets. -/
theorem sendAll_front (batches : List (List Bytes)) :
    (sendAll batches : Act (Watched ω) Unit).Logs fun r calls =>
      written calls <+: batches.flatten.flatten ∧
        ∀ a, r = .ok a → written calls = batches.flatten.flatten := by
  intro σ r τ hrun
  obtain ⟨calls, hcalls, ⟨-, hwritten⟩ | ⟨rfl, hfails⟩⟩ := sendAll_ends hrun
  · exact ⟨calls, hcalls, hwritten ▸ List.prefix_rfl, fun _ _ => hwritten⟩
  · exact ⟨calls, hcalls, hfails.front, nofun⟩

/-! ## Requests -/

/-- No flags make a PINGREQ of a PUBLISH. -/
theorem publish_ne_pingreq (m : Message) :
    PacketType.publish.firstByte ||| m.flags ≠ PacketType.pingreq.firstByte := by
  have hflags : ∀ (qos : QoS) (retain dup : Bool), PacketType.publish.firstByte |||
      Message.flags { topic := "", qos, retain, dup } ≠ PacketType.pingreq.firstByte := by
    intro qos retain dup
    cases qos <;> cases retain <;> cases dup <;> decide
  simpa [Message.flags] using hflags m.qos m.retain m.dup

theorem publish_drafts (m : Message) (id : UInt16) :
    (publish m id : Act (Watched ω) Unit).Drafts := by
  refine .session_bind fun s => .check <| .ofResult_bind fun size hsize =>
    .ofResult_bind fun spans hspans => ?_
  extract_lets afterOpening
  have hafter : ∀ u, (afterOpening u).Drafts := fun _ =>
    (Act.Drafts.of_isFrame (send_writes spans) (Message.isFrame_spans hsize hspans)
      (publish_ne_pingreq m)).bind fun _ => .of_mute <|
        .ite ((track_mute _).bind fun _ => (Act.Keeps.ofResult _).bind fun _ => .pure _) (.pure _)
  exact .ite ((Act.Drafts.of_mute (openOutgoing_mute m id)).bind hafter) (hafter ())

theorem subscribe_drafts (subscriptions : List Subscription) (properties : Bytes) (id : UInt16) :
    (subscribe subscriptions properties id : Act (Watched ω) Unit).Drafts := by
  refine .session_bind fun s => .check <| .ofResult_bind fun size hsize =>
    .ofResult_bind fun head hhead => ?_
  obtain ⟨hne, hplain, -, hcount⟩ := Subscribe.size_eq_ok.mp hsize
  have hframe := Subscribe.isFrame_head hplain hcount hhead
  rw [← Subscribe.flatten_spans, ← Subscribe.flatten_spanBatches (by simpa using hne)] at hframe
  exact .of_isFrame (sendAll_front _) hframe (by decide)

theorem unsubscribe_drafts (filters : List String) (properties : Bytes) (id : UInt16) :
    (unsubscribe filters properties id : Act (Watched ω) Unit).Drafts := by
  refine .session_bind fun s => .check <| .ofResult_bind fun size hsize =>
    .ofResult_bind fun head hhead => ?_
  obtain ⟨hne, hplain, -, hcount⟩ := Unsubscribe.size_eq_ok.mp hsize
  have hframe := Subscribe.isFrame_head hplain hcount hhead
  rw [← Unsubscribe.flatten_spans, ← Subscribe.flatten_spanBatches (by simpa using hne)] at hframe
  exact .of_isFrame (sendAll_front _) hframe (by decide)

/-! ## Handling packets -/

theorem sendAck_drafts (id : UInt16) (state : ExchangeState) :
    (sendAck id state : Act (Watched ω) Unit).Drafts := by
  refine sendAck_elim id state (.pure _) (fun _ => .throw _) fun ack _ => ?_
  have hsend : (send [Ack.wire ack id] : Act (Watched ω) Unit).Drafts :=
    .of_isFrame (send_writes _) (by simpa using Ack.isFrame_wire ack id)
      (by cases ack <;> decide)
  exact hsend.bind fun _ => .of_mute <| (track_mute _).bind fun _ =>
    (Act.Keeps.ofResult _).bind fun _ => .pure _

theorem handles_drafts : Handles fun _ act _ => Act.Drafts (ω := ω) act where
  pure := .pure
  throw := .throw
  bind h hf := h.bind hf
  session_bind hf := .session_bind fun s => hf s s rfl rfl
  report event := .of_mute (report_mute event)
  track step := .of_mute (track_mute step)
  sendAck := sendAck_drafts
  answered := .of_mute .makes_change
  ended := .of_mute .makes_change

theorem handleFront_drafts (managed : Bool) (header : Header) :
    (handleFront managed header : Act (Watched ω) Progress).Drafts := by
  intro σ r τ hrun
  rcases handleFront_inv hrun with ⟨υ, hdispatch, rfl, hτ⟩ | ⟨fault, υ, hdispatch, rfl, hτ⟩
  · obtain ⟨calls, hcalls, frames, hothers, hfront, hwhole⟩ :=
      handles_drafts.dispatch managed _ σ _ υ hdispatch
    have hwritten : written (.now (Host.now υ.host.host).1 :: calls) = written calls := by
      simp [HostCall.taken]
    refine ⟨.now (Host.now υ.host.host).1 :: calls, by rw [hτ, Watched.calls_now, hcalls]; rfl,
      frames, hothers, ?_⟩
    rw [hwritten]
    exact ⟨hfront, fun _ _ => hwhole () rfl⟩
  · obtain ⟨calls, hcalls, frames, hothers, hfront, -⟩ :=
      handles_drafts.dispatch managed _ σ _ υ hdispatch
    exact ⟨calls, by rw [hτ, hcalls], frames, hothers, hfront, by rintro _ ⟨⟩⟩

theorem handleBuffered_drafts (managed : Bool) :
    (handleBuffered managed : Act (Watched ω) Progress).Drafts := by
  refine .session_bind fun s => .ite (.pure _) ?_
  split
  · exact .pure _
  · exact .throw _
  · exact .ite (.of_mute ((inward_mute.discard _).bind fun _ => .pure _))
      (.ite (.pure _) (handleFront_drafts _ _))

end Session

end MqttClient
