import MqttClient.Proofs.Faults
import MqttClient.Proofs.Property.Walking
import MqttClient.Proofs.Wire.Requests

/-!
# Acknowledgements and DISCONNECT

A reason code and properties are written in one of three forms (`Reason.Form`): nothing, which is
plain success, the code alone, or the code and the properties behind their length. A decoder tells
the forms apart by the number of bytes. It accepts every one of them and nothing else
(`Ack.decode_eq_ok`, `Disconnect.decode_eq_ok`), and a client writes the shortest, so what it
writes is read back (`answers_read_back`).
-/
namespace MqttClient

/-! ## Headers -/

namespace Frame
variable (f : Frame)

/-- The header of a packet. -/
def header : Header := ⟨f.firstByte, f.body.length, 1 + VarInt.width f.body.length⟩

theorem drop_header : f.bytes.drop f.header.length = f.body := by
  rw [header, bytes, List.cons_append, Nat.add_comm, List.drop_succ_cons,
    ← VarInt.length_bytes f.fits, List.drop_left]

theorem total_header : f.header.total = f.bytes.length := by
  rw [Header.total, header, bytes, List.length_append, List.length_cons,
    VarInt.length_bytes f.fits, Nat.add_comm 1]

/-- The header of a packet that may arrive is decoded. -/
theorem decode_header {version : Version} (h : mayArrive version f.firstByte = true) :
    Header.decode version f.bytes = .ok f.header :=
  Header.decode_eq_ok.mpr ⟨h, f.fits, rfl, by rw [drop_header]; rfl⟩

end Frame

/-! ## Properties that explain an answer -/

namespace Property
variable {ps : List Property}

/-- Properties that explain an answer: user properties, and at most one reason string. -/
structure Diagnostic (ps : List Property) : Prop where
  fits : ∀ p ∈ ps, p.Fits
  kinds : ∀ p ∈ ps, p.id = .userProperty ∨ p.id = .reasonString
  one : ps.countP (·.id = .reasonString) ≤ 1

theorem Diagnostic.sound (h : Diagnostic ps) : Sound ps := by
  refine ⟨h.fits, ?_⟩
  have hkinds := h.kinds
  have hone := h.one
  clear h
  induction ps with
  | nil => exact .nil
  | cons p ps ih =>
    obtain ⟨hp, hps⟩ := List.forall_mem_cons.mp hkinds
    rw [List.countP_cons] at hone
    refine List.pairwise_cons.mpr ⟨fun q hq hsame => ?_, ih hps (by omega)⟩
    -- A second reason string would make two.
    refine hp.imp_right fun hreason => absurd hone ?_
    have hpos : 0 < ps.countP (·.id = .reasonString) :=
      List.countP_pos_iff.mpr ⟨q, hq, by simpa [hsame] using hreason⟩
    simp only [hreason, decide_true, if_true]
    omega

theorem Diagnostic.walk (h : Diagnostic ps) : walk (ps.flatMap bytes) = ⟨ps, none⟩ :=
  walk_flatMap h.sound

/-- They are allowed wherever user properties and reason strings are. -/
theorem Diagnostic.within (h : Diagnostic ps) {allowed : PropertyId → Bool}
    (huser : allowed .userProperty = true) (hreason : allowed .reasonString = true) :
    (Property.walk (ps.flatMap bytes)).within allowed = true := by
  rw [h.walk, Walk.within, Bool.and_eq_true, List.all_eq_true]
  refine ⟨rfl, fun p hp => ?_⟩
  rcases h.kinds p hp with hid | hid <;> rw [hid]
  · exact huser
  · exact hreason

/-- Read a region of which all properties are allowed. -/
def readWithin (allowed : PropertyId → Bool) : Reader Bytes := do
  let region ← Reader.region
  if (Property.walk region).within allowed then return region else Reader.refuse

theorem readWithin_eq_ok {allowed : PropertyId → Bool} {region b left : Bytes} :
    readWithin allowed b = .ok (region, left) ↔
      (Property.walk region).within allowed = true ∧ region.length ≤ VarInt.maxValue ∧
        b = VarInt.bytes region.length ++ region ++ left := by
  simp only [readWithin, Reader.bind_eq_ok, Reader.region_eq_ok]
  constructor
  · rintro ⟨region', left', ⟨hfits, rfl⟩, h⟩
    split at h
    · cases h
      exact ⟨‹_›, hfits, rfl⟩
    · cases h
  · rintro ⟨hwithin, hfits, rfl⟩
    exact ⟨region, left, ⟨hfits, rfl⟩, by rw [if_pos hwithin]; rfl⟩

end Property

/-! ## The forms of a reason code with properties -/

/-- A reason code and properties on the wire. Success without properties may be left out, and so
may be the length of no properties. -/
inductive Reason.Form : UInt8 → Bytes → Bytes → Prop
  | omitted : Form success [] []
  | code (reason : UInt8) : Form reason [] [reason]
  | full (reason : UInt8) (region : Bytes) (fits : region.length ≤ VarInt.maxValue) :
    Form reason region (reason :: (VarInt.bytes region.length ++ region))

/-- What a client writes is one of them. -/
theorem Reason.form_field (reason : UInt8) {region : Bytes}
    (hfits : region.length ≤ VarInt.maxValue) : Form reason region (field reason region) := by
  rw [field]
  split_ifs with hempty hreason
  · rw [List.isEmpty_iff.mp hempty, hreason]
    exact .omitted
  · rw [List.isEmpty_iff.mp hempty]
    exact .code reason
  · exact .full reason region hfits

namespace Reason
variable {reason : UInt8} {region tail : Bytes}

/-- From three bytes on there are properties. -/
theorem Form.region_eq_nil_iff (h : Form reason region tail) :
    region = [] ↔ tail.length ≤ 2 := by
  cases h with
  | omitted | code => simp
  | full _ _ fits =>
    have hwidth := VarInt.width_pos region.length
    rw [List.length_cons, List.length_append, VarInt.length_bytes fits]
    constructor
    · rintro rfl
      decide
    · exact fun h => List.length_eq_zero_iff.mp (by omega)

/-- In two bytes the length of no properties is written out. -/
theorem Form.eq_of_length (h : Form reason region tail) (htwo : tail.length = 2) :
    tail = [reason, 0] := by
  have hregion := h.region_eq_nil_iff.mpr (by omega)
  cases h with
  | omitted | code => cases htwo
  | full =>
    rw [hregion]
    rfl

end Reason

/-! ## What the decoders accept -/

/-- A field that is read if it is announced and has a value of its own otherwise. -/
theorem Reader.announced_eq_ok {α β : Type} {p : Prop} [Decidable p] {reader : Reader α}
    {default : α} {f : α → Reader β} {b : Bytes} {r : β × Bytes} :
    (if p then reader >>= f else pure default >>= f) b = .ok r ↔
      ∃ a left, (p ∧ reader b = .ok (a, left) ∨ ¬p ∧ a = default ∧ left = b) ∧
        f a left = .ok r := by
  split_ifs with hp <;> simp [bind_eq_ok, hp]

/-- The forms are what is read in turn up to the end, each field if there are bytes for it. -/
theorem Reason.form_iff {reason : UInt8} {region tail : Bytes} {allowed : PropertyId → Bool} :
    (∃ rest, (0 < tail.length ∧ tail = reason :: rest ∨
        ¬0 < tail.length ∧ reason = success ∧ rest = tail) ∧
      (1 < tail.length ∧ Property.readWithin allowed rest = .ok (region, []) ∨
        ¬1 < tail.length ∧ region = [] ∧ rest = [])) ↔
      (Property.walk region).within allowed = true ∧ Form reason region tail := by
  have hempty : (Property.walk []).within allowed = true := rfl
  simp only [Property.readWithin_eq_ok, List.append_nil]
  constructor
  · rintro ⟨rest, ⟨-, rfl⟩ | ⟨hnone, rfl, rfl⟩, ⟨hmore, hwithin, hfits, rfl⟩ | ⟨-, rfl, rfl⟩⟩
    · exact ⟨hwithin, .full reason region hfits⟩
    · exact ⟨hempty, .code reason⟩
    · omega
    · exact ⟨hempty, .omitted⟩
  · rintro ⟨hwithin, hform⟩
    cases hform with
    | omitted => exact ⟨[], .inr (by simp), .inr (by simp)⟩
    | code => exact ⟨[], .inl (by simp), .inr (by simp)⟩
    | full _ _ fits =>
      have hwidth := VarInt.width_pos region.length
      refine ⟨_, .inl ⟨by simp, rfl⟩, .inl ⟨?_, hwithin, fits, rfl⟩⟩
      rw [List.length_cons, List.length_append, VarInt.length_bytes fits]
      omega

/-- An acknowledgement is accepted in every form that its identifier, code and properties have.
Without problem information the forms of more than one byte are refused. -/
theorem Ack.decode_eq_ok {problemInfo : Bool} {a : Ack} {packet : Packet}
    (hwhole : packet.data.length = packet.remaining) :
    decode .v5 problemInfo packet = .ok a ↔
      a.packetId ≠ 0 ∧ (Property.walk a.properties).within mayCarry = true ∧
        ∃ tail, packet.data = Bytes.ofWord a.packetId ++ tail ∧
          Reason.Form a.reason a.properties tail ∧ (problemInfo = false → tail.length ≤ 1) := by
  obtain ⟨id, reason, region⟩ := a
  have hplain : ¬((!Version.v5.hasProperties) = true ∧ packet.remaining ≠ 2) := by
    simp [Version.hasProperties]
  have hlength : ∀ {tail}, packet.data = Bytes.ofWord id ++ tail →
      (2 < packet.data.length ↔ 0 < tail.length) ∧ (3 < packet.data.length ↔ 1 < tail.length) := by
    intro tail h
    rw [h, List.length_append, Bytes.length_ofWord]
    omega
  rw [decode, if_neg hplain, Reader.run'_eq_ok, ← hwhole]
  simp only [read, Reader.bind_eq_ok, Reader.word_eq_ok, Reader.check_eq_ok,
    Reader.announced_eq_ok, Reader.byte_eq_ok, Reader.done_eq_ok, Reader.pure_eq_ok,
    Prod.mk.injEq, Ack.mk.injEq]
  constructor
  · rintro ⟨left, id, tail, hdata, hid, reason, rest, hreason, hinfo, region, last, hregion, _, _,
      ⟨rfl, rfl⟩, ⟨rfl, rfl, rfl⟩, rfl⟩
    simp only [hlength hdata, @eq_comm _ [] rest] at hreason hinfo hregion
    obtain ⟨hwithin, hform⟩ := Reason.form_iff.mp ⟨rest, hreason, hregion⟩
    exact ⟨hid, hwithin, tail, hdata, hform, fun hinfo' => by simpa [hinfo'] using hinfo⟩
  · rintro ⟨hid, hwithin, tail, hdata, hform, hinfo⟩
    obtain ⟨rest, hreason, hregion⟩ := Reason.form_iff.mpr ⟨hwithin, hform⟩
    refine ⟨[], id, tail, hdata, hid, reason, rest, ?_, ?_, region, [], ?_, (), [], ⟨rfl, rfl⟩,
      ⟨rfl, rfl, rfl⟩, rfl⟩
    all_goals simp only [hlength hdata]
    · exact hreason
    · exact fun h => absurd h.1 (Nat.not_lt.mpr (hinfo h.2))
    · exact hregion.imp_right fun h => ⟨h.1, h.2.1, h.2.2.symm⟩

/-- A DISCONNECT is accepted in every form of a code and properties that the server may send. -/
theorem Disconnect.decode_eq_ok {d : Disconnect} {packet : Packet}
    (hwhole : packet.data.length = packet.remaining) :
    decode packet = .ok d ↔
      Reason.serverMayDisconnect d.reason = true ∧
        (Property.walk d.properties).within serverMayCarry = true ∧
          Reason.Form d.reason d.properties packet.data := by
  obtain ⟨reason, region⟩ := d
  rw [decode, Reader.run'_eq_ok, ← hwhole, ← Reason.form_iff]
  simp only [read, Reader.bind_eq_ok, Reader.check_eq_ok,
    Reader.announced_eq_ok, Reader.byte_eq_ok, Reader.done_eq_ok, Reader.pure_eq_ok,
    Prod.mk.injEq, Disconnect.mk.injEq]
  constructor
  · rintro ⟨left, reason, rest, hreason, hmay, region, last, hregion, _, _,
      ⟨rfl, rfl⟩, ⟨rfl, rfl⟩, rfl⟩
    exact ⟨by simpa using hmay, rest, hreason, hregion.imp_right fun h => ⟨h.1, h.2.1, h.2.2.symm⟩⟩
  · rintro ⟨hmay, rest, hreason, hregion⟩
    exact ⟨[], reason, rest, hreason, by simpa using hmay, region, [],
      hregion.imp_right fun h => ⟨h.1, h.2.1, h.2.2.symm⟩, (), [], ⟨rfl, rfl⟩, ⟨rfl, rfl⟩, rfl⟩

/-! ## What is written is read back -/

/-- Bytes are one packet with a given first byte, and decoded as such they give a value. -/
def IsReadAs {α : Type} (version : Version) (decode : Packet → Except Fault α) (firstByte : UInt8)
    (a : α) (b : Bytes) : Prop :=
  ∃ header, Header.decode version b = .ok header ∧ header.firstByte = firstByte ∧
    header.total = b.length ∧ decode (header.withData (b.drop header.length)) = .ok a

theorem Frame.isReadAs {α : Type} {version : Version} {decode : Packet → Except Fault α} {a : α}
    (f : Frame) (harrive : mayArrive version f.firstByte = true)
    (h : decode (f.header.withData f.body) = .ok a) :
    IsReadAs version decode f.firstByte a f.bytes :=
  ⟨f.header, f.decode_header harrive, rfl, f.total_header, by rw [f.drop_header]; exact h⟩

/-- Counting a reason code and properties is counting their shortest form. -/
theorem PacketSize.checked_field (n : ℕ) (reason : UInt8) (region : Bytes) (max : UInt32) :
    checked (n + (Reason.field reason region).length) max =
      checked (if region.isEmpty then (if reason = Reason.success then n else n + 1)
        else n + 1 + Property.regionSize region) max := by
  by_cases hfits : region.length ≤ VarInt.maxValue
  · rw [Reason.length_field reason hfits]
    congr 1
    split_ifs <;> omega
  · -- A region that is too long makes either count too large.
    have hempty : region.isEmpty = false := by
      cases region with
      | nil => simp at hfits
      | cons => rfl
    rw [Reason.field, hempty, checked, checked, if_pos, if_pos]
    · simp only [Bool.false_eq_true, if_false, Property.regionSize]
      omega
    · simp only [Bool.false_eq_true, if_false, List.length_cons, List.length_append]
      omega

section
variable {id : UInt16} {reason : UInt8} {ps : List Property} {max : UInt32}
  {size : PacketSize} {capacity : ℕ}

theorem AckKind.mayArrive_firstByte (kind : AckKind) (version : Version) :
    mayArrive version kind.packetType.firstByte = true := by
  cases kind <;> rfl

theorem Ack.decode_written (kind : AckKind) (hps : Property.Diagnostic ps) (hid : id ≠ 0)
    (hsize : Ack.size reason (ps.flatMap Property.bytes) max = .ok size)
    (hcapacity : size.total ≤ capacity) :
    ∃ b, Ack.serializeWithReason kind.packetType.firstByte id reason (ps.flatMap Property.bytes)
        size capacity = .ok b ∧ b.length = size.total ∧
      IsReadAs .v5 (Ack.decode .v5 true) kind.packetType.firstByte
        ⟨id, reason, ps.flatMap Property.bytes⟩ b := by
  have hcounted : (Outgoing.ack kind id reason (ps.flatMap Property.bytes)).size max = .ok size :=
    hsize
  have hcounts := Outgoing.counts hcounted
  have hfits := Property.length_le_of_counted (PacketSize.checked_eq_ok.mp hsize).1
  refine ⟨_, Outgoing.serialize_of_size hcounted hid hcapacity, ?_, Frame.isReadAs _
    (kind.mayArrive_firstByte .v5) ((Ack.decode_eq_ok rfl).mpr ⟨hid, hps.within rfl rfl, _, rfl,
      Reason.form_field reason hfits, nofun⟩)⟩
  rw [hcounts.bytes_frame]
  exact hcounts.length_form _

/-- A plain acknowledgement is read in both revisions, with or without problem information. -/
theorem Ack.decode_plain (kind : AckKind) (version : Version) (problemInfo : Bool) (hid : id ≠ 0)
    (hcapacity : 4 ≤ capacity) :
    ∃ b, Ack.serialize kind.packetType.firstByte id capacity = .ok b ∧ b.length = 4 ∧
      IsReadAs version (Ack.decode version problemInfo) kind.packetType.firstByte
        ⟨id, Reason.success, []⟩ b := by
  let frame : Frame :=
    ⟨kind.packetType.firstByte, Bytes.ofWord id, (by decide : 2 ≤ VarInt.maxValue)⟩
  have hdecode : Ack.decode version problemInfo (frame.header.withData frame.body) =
      Ack.decode .v5 problemInfo (frame.header.withData frame.body) := by
    cases version <;> rfl
  refine ⟨frame.bytes, ?_, rfl, frame.isReadAs (kind.mayArrive_firstByte version) ?_⟩
  · have hsend : Ack.canSend kind.packetType.firstByte id = true := by
      cases kind <;> simpa [Ack.canSend, Ack.firstBytes, AckKind.packetType] using hid
    rw [Ack.serialize, if_pos hsend]
    exact if_neg (Nat.not_lt.mpr hcapacity)
  · rw [hdecode]
    exact (Ack.decode_eq_ok rfl).mpr ⟨hid, rfl, [], (List.append_nil _).symm, .omitted, by simp⟩

theorem Disconnect.decode_written (hps : Property.Diagnostic ps)
    (hserver : Reason.serverMayDisconnect reason = true)
    (hsize : Disconnect.size reason (ps.flatMap Property.bytes) max = .ok size)
    (hcapacity : size.total ≤ capacity) :
    ∃ b, Disconnect.serializeWithReason reason (ps.flatMap Property.bytes) size capacity = .ok b ∧
      b.length = size.total ∧
      IsReadAs .v5 Disconnect.decode PacketType.disconnect.firstByte
        ⟨reason, ps.flatMap Property.bytes⟩ b := by
  have hcounted : (Outgoing.disconnect reason (ps.flatMap Property.bytes)).size max = .ok size :=
    hsize
  have hcounts := Outgoing.counts hcounted
  have harrive : mayArrive .v5 PacketType.disconnect.firstByte = true := rfl
  refine ⟨_, Outgoing.serialize_of_size hcounted trivial hcapacity, ?_, Frame.isReadAs _ harrive
    ((Disconnect.decode_eq_ok rfl).mpr ⟨hserver, hps.within rfl rfl,
      Reason.form_field reason (Disconnect.length_le_of_size hsize)⟩)⟩
  rw [hcounts.bytes_frame]
  exact hcounts.length_form _

/-- A reason that a client may send, with properties that explain it, is only counted. -/
theorem Disconnect.size_eq_checked (hps : Property.Diagnostic ps)
    (hclient : Reason.clientMayDisconnect reason = true) :
    Disconnect.size reason (ps.flatMap Property.bytes) max =
      PacketSize.checked (Reason.field reason (ps.flatMap Property.bytes)).length max := by
  have hcount := PacketSize.checked_field 0 reason (ps.flatMap Property.bytes) max
  rw [Nat.zero_add] at hcount
  rw [hcount, Disconnect.size, hclient, hps.within rfl rfl]
  simp

end

/-- What is written for an acknowledgement or a DISCONNECT is read back. With user properties and
at most one reason string both are refused for their size only. Then their bytes are one packet,
of which the decoder tells the identifier, the reason code, the region and the reason string. The
four bytes of a plain acknowledgement are read in both revisions. -/
theorem answers_read_back :
    (∀ kind id reason ps max, Property.Diagnostic ps → id ≠ 0 →
      let a : Ack := ⟨id, reason, ps.flatMap Property.bytes⟩
      Ack.size reason a.properties max =
          PacketSize.checked (Ack.body id reason a.properties).length max ∧
        ∀ size capacity, Ack.size reason a.properties max = .ok size → size.total ≤ capacity →
          ∃ b, Ack.serializeWithReason (AckKind.packetType kind).firstByte id reason a.properties
              size capacity = .ok b ∧ b.length = size.total ∧
            IsReadAs .v5 (Ack.decode .v5 true) kind.packetType.firstByte a b ∧
            a.reasonString? = Property.find? .reasonString ps) ∧
    (∀ kind id version problemInfo capacity, id ≠ 0 → 4 ≤ capacity →
      ∃ b, Ack.serialize (AckKind.packetType kind).firstByte id capacity = .ok b ∧ b.length = 4 ∧
        IsReadAs version (Ack.decode version problemInfo) kind.packetType.firstByte
          ⟨id, Reason.success, []⟩ b) ∧
    ∀ reason ps max, Property.Diagnostic ps → Reason.clientMayDisconnect reason = true →
        Reason.serverMayDisconnect reason = true →
      let d : Disconnect := ⟨reason, ps.flatMap Property.bytes⟩
      Disconnect.size reason d.properties max =
          PacketSize.checked (Reason.field reason d.properties).length max ∧
        ∀ size capacity, Disconnect.size reason d.properties max = .ok size →
          size.total ≤ capacity →
          ∃ b, Disconnect.serializeWithReason reason d.properties size capacity = .ok b ∧
            b.length = size.total ∧
            IsReadAs .v5 Disconnect.decode PacketType.disconnect.firstByte d b ∧
            d.reasonString? = Property.find? .reasonString ps := by
  refine ⟨fun kind id reason ps max hps hid => ⟨?_, fun size capacity hsize hcapacity => ?_⟩,
    fun kind id version problemInfo capacity => Ack.decode_plain kind version problemInfo,
    fun reason ps max hps hclient hserver =>
      ⟨Disconnect.size_eq_checked hps hclient, fun size capacity hsize hcapacity => ?_⟩⟩
  · rw [Ack.body, List.length_append, Bytes.length_ofWord, PacketSize.checked_field]
    rfl
  · obtain ⟨b, hwritten, hlength, hread⟩ := Ack.decode_written kind hps hid hsize hcapacity
    exact ⟨b, hwritten, hlength, hread, by rw [Ack.reasonString?, hps.walk]⟩
  · obtain ⟨b, hwritten, hlength, hread⟩ :=
      Disconnect.decode_written hps hserver hsize hcapacity
    exact ⟨b, hwritten, hlength, hread, by rw [Disconnect.reasonString?, hps.walk]⟩

/-- A PUBREL with a reason string between two user properties is read back, and so are a PUBACK
of four bytes and a DISCONNECT without properties. -/
theorem answers_read_back_at_forms :
    let ps : List Property :=
      [⟨.userProperty, ("a", "")⟩, ⟨.reasonString, "no"⟩, ⟨.userProperty, ("a", "")⟩]
    let a : Ack := ⟨7, 0x92, ps.flatMap Property.bytes⟩
    (Property.Diagnostic ps ∧ (7 : UInt16) ≠ 0 ∧ Ack.size 0x92 a.properties 30 = .ok ⟨21, 23⟩ ∧
      23 ≤ 23 ∧
      ∃ b, Ack.serializeWithReason 0x62 7 0x92 a.properties ⟨21, 23⟩ 23 = .ok b ∧
        b.length = 23 ∧ IsReadAs .v5 (Ack.decode .v5 true) 0x62 a b ∧
        a.reasonString? = some "no") ∧
    ((9 : UInt16) ≠ 0 ∧ 4 ≤ 8 ∧
      ∃ b, Ack.serialize 0x40 9 8 = .ok b ∧ b.length = 4 ∧
        IsReadAs .v311 (Ack.decode .v311 true) 0x40 ⟨9, 0, []⟩ b) ∧
    (Property.Diagnostic [] ∧ Reason.clientMayDisconnect 0x81 = true ∧
      Reason.serverMayDisconnect 0x81 = true ∧ Disconnect.size 0x81 [] 30 = .ok ⟨1, 3⟩ ∧ 3 ≤ 4 ∧
      ∃ b, Disconnect.serializeWithReason 0x81 [] ⟨1, 3⟩ 4 = .ok b ∧ b.length = 3 ∧
        IsReadAs .v5 Disconnect.decode 0xE0 ⟨0x81, []⟩ b ∧
        (⟨0x81, []⟩ : Disconnect).reasonString? = none) := by
  intro ps a
  obtain ⟨hack, hplain, hdisconnect⟩ := answers_read_back
  have hps : Property.Diagnostic ps := by
    refine ⟨?_, by decide, by decide⟩
    simp only [ps, List.forall_mem_cons, Property.Fits]
    decide +kernel
  have hnone : Property.Diagnostic [] :=
    ⟨List.forall_mem_nil _, List.forall_mem_nil _, Nat.zero_le 1⟩
  have hsize : Ack.size 0x92 a.properties 30 = .ok ⟨21, 23⟩ := by decide +kernel
  have hbare : Disconnect.size 0x81 [] 30 = .ok ⟨1, 3⟩ := by decide +kernel
  exact ⟨⟨hps, by decide, hsize, le_rfl,
      (hack .pubrel 7 0x92 ps 30 hps (by decide)).2 _ _ hsize le_rfl⟩,
    ⟨by decide, by decide, hplain .puback 9 .v311 true 8 (by decide) (by decide)⟩,
    ⟨hnone, by decide, by decide, hbare, by decide,
      (hdisconnect 0x81 [] 30 hnone (by decide) (by decide)).2 _ _ hbare (by decide)⟩⟩

/-! ## Without problem information -/

/-- What becomes of an acknowledgement of MQTT 5 when the client has not asked for problem
information. One with properties is refused. One without is still accepted where their length is
left out. Where the length is written out as zero, it is refused as well: the decoder goes by the
number of bytes, and it looks at the region only afterwards. -/
theorem Ack.decode_without_problemInfo {a : Ack} {firstByte : UInt8} {length : ℕ} {body : Bytes} :
    let packet : Packet := { firstByte, remaining := body.length, length, data := body }
    decode .v5 true packet = .ok a →
      (a.properties ≠ [] → decode .v5 false packet = .error .badResponse) ∧
      (a.properties = [] → body.length ≤ 3 → decode .v5 false packet = .ok a) ∧
      (a.properties = [] → 3 < body.length →
        body = Bytes.ofWord a.packetId ++ [a.reason, 0] ∧
          decode .v5 false packet = .error .badResponse) := by
  intro packet h
  have hwhole : packet.data.length = packet.remaining := rfl
  obtain ⟨hid, hwithin, tail, hdata, hform, -⟩ := (decode_eq_ok hwhole).mp h
  have hbody : body = Bytes.ofWord a.packetId ++ tail := hdata
  have hlength : body.length = 2 + tail.length := by
    rw [hbody, List.length_append, Bytes.length_ofWord]
  have hrefused : 1 < tail.length → decode .v5 false packet = .error .badResponse := by
    intro hlong
    cases hresult : decode .v5 false packet with
    | error fault => rw [decode_error hresult]
    | ok a' =>
      obtain ⟨-, -, tail', hdata', -, hshort⟩ := (decode_eq_ok hwhole).mp hresult
      have hsame := congrArg List.length (hdata.symm.trans hdata')
      have htail' := hshort rfl
      simp only [List.length_append, Bytes.length_ofWord] at hsame
      omega
  refine ⟨fun hregion => hrefused ?_, fun _ hshort => ?_, fun hregion hlong => ?_⟩
  · have hlong := mt hform.region_eq_nil_iff.mpr hregion
    omega
  · exact (decode_eq_ok hwhole).mpr ⟨hid, hwithin, tail, hdata, hform, fun _ => by omega⟩
  · have hshort := hform.region_eq_nil_iff.mp hregion
    exact ⟨by rw [hbody, hform.eq_of_length (by omega)], hrefused (by omega)⟩

/-- A PUBACK of success that says that it has no properties is refused for having some. -/
theorem Ack.decode_zero_length_refused :
    let packet : Packet := { firstByte := 0x40, remaining := 4, length := 2, data := [0, 9, 0, 0] }
    decode .v5 true packet = .ok ⟨9, 0, []⟩ ∧ decode .v5 false packet = .error .badResponse := by
  intro packet
  have haccepted : decode .v5 true packet = .ok ⟨9, 0, []⟩ := by decide +kernel
  have hlong : 3 < packet.data.length := by decide
  exact ⟨haccepted, ((decode_without_problemInfo haccepted).2.2 rfl hlong).2⟩

end MqttClient
