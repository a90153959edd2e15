import MqttClient.Proofs.Wire.Phases

/-!
# Requests as a broker reads them

A client never reads the requests that it sends. These are the decoders of the other side:
CONNECT, SUBSCRIBE and UNSUBSCRIBE by the grammar of the protocol, field by field. Each accepts
the packets of one form and no others (`Connect.decode_eq_ok`, `Subscribe.decode_eq_ok`,
`Unsubscribe.decode_eq_ok`), and all that a client writes has this form. So a request can be
told from its bytes (`requests_read_back`).
-/
namespace MqttClient

/-! ## Fields -/

namespace Reader
variable {α : Type} {reader : Reader α} {ok : α → Prop} {form : α → Bytes} {b left : Bytes}

/-- A reader takes the values that meet a condition, each off its form, and nothing else. -/
def Reads (reader : Reader α) (ok : α → Prop) (form : α → Bytes) : Prop :=
  ∀ b a left, reader b = .ok (a, left) ↔ ok a ∧ b = form a ++ left

theorem reads_text :
    text.Reads (fun s => (Bytes.ofText s).length ≤ Bytes.maxFieldLength) Bytes.framedText :=
  fun _ _ _ => text_eq_ok

theorem reads_framed : framed.Reads (fun a => a.length ≤ Bytes.maxFieldLength) Bytes.framed :=
  fun _ _ _ => framed_eq_ok

/-- A value that is refused where nothing is known. -/
def known : Option α → Reader α
  | some a => pure a
  | none => refuse

theorem known_eq_ok {o : Option α} {a : α} :
    known o b = .ok (a, left) ↔ o = some a ∧ b = left := by
  cases o with
  | none => simp [known]
  | some a' =>
    rw [known, pure_eq_ok, Prod.mk.injEq, Option.some.injEq, eq_comm, @eq_comm _ left]

theorem done_eq_ok {u : Unit} : done b = .ok (u, left) ↔ b = [] ∧ left = [] := by
  cases b <;> simp [done, eq_comm]

/-- A field that is there if it was announced. -/
def optional (announced : Bool) (reader : Reader α) : Reader (Option α) :=
  if announced then do return some (← reader) else pure none

theorem Reads.optional (h : reader.Reads ok form) (announced : Bool) :
    (Reader.optional announced reader).Reads
      (fun o => o.isSome = announced ∧ ∀ a, o = some a → ok a) (fun o => o.elim [] form) := by
  intro b o left
  rw [Reader.optional]
  cases announced with
  | false =>
    simp only [Bool.false_eq_true, if_false, pure_eq_ok, Prod.mk.injEq]
    cases o <;> simp [eq_comm]
  | true =>
    have hread : ∀ a left, reader b = .ok (a, left) ↔ ok a ∧ b = form a ++ left := h b
    simp only [if_true, bind_eq_ok, pure_eq_ok, Prod.mk.injEq, hread]
    cases o with
    | none => simp
    | some a =>
      constructor
      · rintro ⟨_, _, hread, ⟨⟩, rfl⟩
        simpa using hread
      · rintro ⟨⟨-, hok⟩, hb⟩
        exact ⟨a, left, ⟨hok a rfl, hb⟩, rfl, rfl⟩

/-- Items up to the end of the bytes, at most `n` of them. -/
def items (item : Reader α) : ℕ → Reader (List α)
  | 0 => do
    done
    return []
  | n + 1 => fun b =>
    if b.isEmpty then .ok ([], [])
    else (do
      let a ← item
      let rest ← items item n
      return a :: rest : Reader (List α)) b

/-- All items up to the end of the bytes. -/
def all (item : Reader α) : Reader (List α) := fun b => items item b.length b

theorem Reads.all (h : reader.Reads ok form) (hpos : ∀ a, form a ≠ []) (b left : Bytes)
    (l : List α) :
    Reader.all reader b = .ok (l, left) ↔
      left = [] ∧ (∀ a ∈ l, ok a) ∧ b = l.flatMap form := by
  suffices hitems : ∀ n, b.length ≤ n → (items reader n b = .ok (l, left) ↔
      left = [] ∧ (∀ a ∈ l, ok a) ∧ b = l.flatMap form) from hitems _ le_rfl
  intro n hn
  -- The induction is on the bound, which every item lowers with the bytes that it takes.
  induction n generalizing b l with
  | zero =>
    obtain rfl := List.length_eq_zero_iff.mp (Nat.le_zero.mp hn)
    simp only [items, bind_eq_ok, done_eq_ok, pure_eq_ok, Prod.mk.injEq]
    cases l with
    | nil => simp
    | cons a l => simp [hpos]
  | succ n ih =>
    rw [items]
    cases b with
    | nil =>
      cases l with
      | nil => simp [eq_comm]
      | cons a l => simp [hpos]
    | cons x b =>
      have hread := fun a left => h (x :: b) a left
      simp only [List.isEmpty_cons, Bool.false_eq_true, if_false, bind_eq_ok, pure_eq_ok,
        Prod.mk.injEq, hread]
      constructor
      · rintro ⟨a, left', ⟨hok, hb⟩, rest, left'', hrest, rfl, rfl⟩
        have hpos' := List.length_pos_iff.mpr (hpos a)
        have hlength := congrArg List.length hb
        rw [List.length_append] at hlength
        obtain ⟨rfl, hall, rfl⟩ := (ih left' rest (by omega)).mp hrest
        exact ⟨rfl, List.forall_mem_cons.mpr ⟨hok, hall⟩, hb⟩
      · rintro ⟨rfl, hall, hb⟩
        cases l with
        | nil => cases hb
        | cons a l =>
          obtain ⟨hok, hall⟩ := List.forall_mem_cons.mp hall
          have hpos' := List.length_pos_iff.mpr (hpos a)
          have hlength := congrArg List.length hb
          rw [List.flatMap_cons, List.length_append] at hlength
          exact ⟨a, l.flatMap form, ⟨hok, hb⟩, l, [], (ih _ l (by omega)).mpr ⟨rfl, hall, rfl⟩, rfl,
            rfl⟩

/-- Fields that use all bytes up. -/
def whole (fields : Reader α) (b : Bytes) : Except Fault α :=
  (do
    let a ← fields
    done
    return a : Reader α).run' b

theorem whole_eq_ok {a : α} : whole reader b = .ok a ↔ reader b = .ok (a, []) := by
  simp only [whole, run'_eq_ok, bind_eq_ok, done_eq_ok, pure_eq_ok, Prod.mk.injEq]
  constructor
  · rintro ⟨_, _, _, hread, _, _, ⟨rfl, rfl⟩, rfl, rfl⟩
    exact hread
  · intro hread
    exact ⟨[], a, [], hread, (), [], ⟨rfl, rfl⟩, rfl, rfl⟩

/-- A packet with a given first byte: as many bytes behind its header as the header says, and
fields that use them up. -/
def packet (firstByte : UInt8) (fields : Reader α) (b : Bytes) : Except Fault α := do
  let body ← whole (do
    if (← byte) ≠ firstByte then refuse
    region) b
  whole fields body

theorem packet_eq_ok {firstByte : UInt8} {a : α} :
    packet firstByte reader b = .ok a ↔
      ∃ frame : Frame, frame.firstByte = firstByte ∧ b = frame.bytes ∧
        reader frame.body = .ok (a, []) := by
  simp only [packet, MqttClient.bind_eq_ok, whole_eq_ok, bind_eq_ok, byte_eq_ok, check_eq_ok,
    region_eq_ok, List.append_nil, ne_eq, Decidable.not_not]
  constructor
  · rintro ⟨body, ⟨_, _, rfl, rfl, hfits, rfl⟩, hread⟩
    exact ⟨⟨_, body, hfits⟩, rfl, rfl, hread⟩
  · rintro ⟨⟨_, body, hfits⟩, rfl, rfl, hread⟩
    exact ⟨body, ⟨_, _, rfl, rfl, hfits, rfl⟩, hread⟩

/-- A property region, which only MQTT 5 has. -/
def properties (version : Version) : Reader Bytes :=
  if version.hasProperties then region else pure []

theorem reads_properties (version : Version) :
    (properties version).Reads (Property.RegionFits version) (Property.regionField version) := by
  intro b a left
  rw [properties, Property.regionField, Property.regionFits_iff]
  cases version.hasProperties with
  | false =>
    simp only [Bool.false_eq_true, if_false, pure_eq_ok, Prod.mk.injEq]
    simp [eq_comm]
  | true =>
    simp only [if_true, region_eq_ok]
    simp

end Reader

/-! ## CONNECT -/

/-- The revision of a protocol level. -/
def Version.ofLevel? (level : UInt8) : Option Version :=
  if level = 4 then some .v311 else if level = 5 then some .v5 else none

theorem Version.ofLevel?_eq_some {level : UInt8} {version : Version} :
    ofLevel? level = some version ↔ level = version.level := by
  rw [ofLevel?]
  cases version <;> grind [Version.level]

namespace Connect

/-- What the connect flags say. -/
structure Flags where
  cleanSession : Bool
  /-- Guarantee and retain flag of the will, if there is one. -/
  will : Option (QoS × Bool)
  username : Bool
  password : Bool
  deriving DecidableEq

namespace Flags

/-- The byte of some flags. -/
def byte (f : Flags) : UInt8 :=
  (if f.cleanSession then 0x02 else 0) |||
    (match f.will with
      | none => 0
      | some (qos, retain) => 0x04 ||| willQosFlags qos ||| (if retain then 0x20 else 0)) |||
    (if f.username then 0x80 else 0) ||| (if f.password then 0x40 else 0)

/-- What the flags say of the will. Without a will there is no guarantee and no retain flag, and
both bits of the guarantee at once mean nothing. -/
def willOfByte? (b : UInt8) : Option (Option (QoS × Bool)) :=
  let retain := b &&& 0x20 != 0
  if b &&& 0x04 = 0 then if b &&& 0x38 = 0 then some none else none
  else if b &&& 0x18 = 0x00 then some (some (.atMostOnce, retain))
  else if b &&& 0x18 = 0x08 then some (some (.atLeastOnce, retain))
  else if b &&& 0x18 = 0x10 then some (some (.exactlyOnce, retain))
  else none

/-- The flags of a byte. The lowest bit is reserved. -/
def ofByte? (b : UInt8) : Option Flags :=
  if b &&& 0x01 = 0 then
    (willOfByte? b).map fun will =>
      { cleanSession := b &&& 0x02 != 0
        will
        username := b &&& 0x80 != 0
        password := b &&& 0x40 != 0 }
  else none

theorem ofByte?_byte (f : Flags) : ofByte? f.byte = some f := by
  obtain ⟨clean, will, username, password⟩ := f
  rcases will with _ | ⟨qos, retain⟩
  · cases clean <;> cases username <;> cases password <;> rfl
  · cases clean <;> cases qos <;> cases retain <;> cases username <;> cases password <;> rfl

theorem ofByte?_eq_some {b : UInt8} {f : Flags} : ofByte? b = some f ↔ b = f.byte := by
  constructor
  · have hbytes : ∀ i : Fin 256, ∀ g ∈ ofByte? (UInt8.ofNat i), UInt8.ofNat i = g.byte := by
      decide +kernel
    simpa using hbytes ⟨b.toNat, b.toNat_lt⟩ f
  · rintro rfl
    exact ofByte?_byte f

end Flags

variable {version : Version} {c : Connect} {b left : Bytes}

/-- What a request says in its flags. -/
def announced (c : Connect) : Flags where
  cleanSession := c.cleanSession
  will := c.will.map fun w => (w.qos, w.retain)
  username := c.username.isSome
  password := c.password.isSome

theorem flags_eq (c : Connect) : c.flags = c.announced.byte := by
  rw [flags, Flags.byte, announced]
  cases c.will <;> rfl

/-- A will as far as it can be told: it has no mark of a repeated attempt. -/
def shownWill (will : Message) : Message := { will with dup := false }

/-- A request as far as its bytes can tell. -/
def shown (c : Connect) : Connect := { c with will := c.will.map shownWill }

/-- Read a will, of which the flags have told guarantee and retain flag. -/
def readWill (version : Version) (announced : QoS × Bool) : Reader Message := do
  let properties ← Reader.properties version
  let topic ← Reader.text
  let payload ← Reader.framed
  return { topic, payload, qos := announced.1, retain := announced.2, properties }

/-- Read a will if one was announced. -/
def readWill? (version : Version) : Option (QoS × Bool) → Reader (Option Message)
  | none => pure none
  | some announced => do return some (← readWill version announced)

/-- Read a CONNECT after its header. Before MQTT 5 a password needs a user name. -/
def read : Reader (Version × Connect) := do
  let name ← Reader.framed
  if name ≠ [0x4D, 0x51, 0x54, 0x54] then Reader.refuse
  let version ← Reader.known (Version.ofLevel? (← Reader.byte))
  let flags ← Reader.known (Flags.ofByte? (← Reader.byte))
  let keepAlive ← Reader.word
  let properties ← Reader.properties version
  let clientId ← Reader.text
  let will ← readWill? version flags.will
  let username ← Reader.optional flags.username Reader.text
  let password ← Reader.optional flags.password Reader.framed
  if flags.password ∧ !flags.username ∧ !version.hasProperties then Reader.refuse
  return (version, { cleanSession := flags.cleanSession, keepAlive, clientId, username, password,
                     will, properties })

/-- Decode a CONNECT, which also tells the revision of the protocol. -/
def decode (b : Bytes) : Except Fault (Version × Connect) :=
  Reader.packet PacketType.connect.firstByte read b

/-- What the fields of a will have to meet. -/
structure WillReadable (version : Version) (will : Message) : Prop where
  fresh : will.dup = false
  region : Property.RegionFits version will.properties
  topic_fits : will.topicBytes.length ≤ Bytes.maxFieldLength
  payload_fits : will.payload.length ≤ Bytes.maxFieldLength

/-- What the fields of a CONNECT have to meet. -/
structure Readable (version : Version) (c : Connect) : Prop where
  region : Property.RegionFits version c.properties
  clientId_fits : (Bytes.ofText c.clientId).length ≤ Bytes.maxFieldLength
  will : ∀ w, c.will = some w → WillReadable version w
  username_fits : ∀ u, c.username = some u → (Bytes.ofText u).length ≤ Bytes.maxFieldLength
  password_fits : ∀ p, c.password = some p → p.length ≤ Bytes.maxFieldLength
  password_named :
    c.password.isSome = true → c.username.isSome = true ∨ version.hasProperties = true

theorem readWill_eq_ok {announced : QoS × Bool} {will : Message} :
    readWill version announced b = .ok (will, left) ↔
      (will.qos, will.retain) = announced ∧ WillReadable version will ∧
        b = willBody version will ++ left := by
  have hproperties := fun region left => Reader.reads_properties version b region left
  simp only [readWill, Reader.bind_eq_ok, hproperties, Reader.text_eq_ok, Reader.framed_eq_ok,
    Reader.pure_eq_ok, Prod.mk.injEq]
  constructor
  · rintro ⟨properties, _, ⟨hregion, rfl⟩, topic, _, ⟨htopic, rfl⟩, payload, _,
      ⟨hpayload, rfl⟩, rfl, rfl⟩
    exact ⟨rfl, ⟨rfl, hregion, htopic, hpayload⟩, by simp [willBody, Message.topicBytes]⟩
  · rintro ⟨rfl, ⟨hfresh, hregion, htopic, hpayload⟩, rfl⟩
    obtain ⟨topic, payload, qos, retain, dup, properties⟩ := will
    obtain rfl : dup = false := hfresh
    exact ⟨properties, _, ⟨hregion, List.append_assoc ..⟩, topic, _, ⟨htopic, List.append_assoc ..⟩,
      payload, _, ⟨hpayload, rfl⟩, rfl, rfl⟩

theorem readWill?_eq_ok {announced : Option (QoS × Bool)} {will : Option Message} :
    readWill? version announced b = .ok (will, left) ↔
      will.map (fun w => (w.qos, w.retain)) = announced ∧
        (∀ w, will = some w → WillReadable version w) ∧
          b = will.elim [] (willBody version) ++ left := by
  cases announced with
  | none =>
    rw [readWill?, Reader.pure_eq_ok]
    cases will <;> simp [eq_comm]
  | some announced =>
    simp only [readWill?, Reader.bind_eq_ok, readWill_eq_ok, Reader.pure_eq_ok, Prod.mk.injEq]
    cases will with
    | none => simp
    | some will =>
      constructor
      · rintro ⟨_, _, ⟨rfl, hwill, rfl⟩, ⟨⟩, rfl⟩
        exact ⟨rfl, by rintro _ ⟨⟩; exact hwill, rfl⟩
      · rintro ⟨hannounced, hwill, hb⟩
        exact ⟨will, left, ⟨Option.some.inj hannounced, hwill will rfl, hb⟩, rfl, rfl⟩

theorem read_eq_ok :
    read b = .ok ((version, c), left) ↔ c.Readable version ∧ b = c.body version ++ left := by
  have hproperties := fun version => Reader.reads_properties version
  have husername := fun announced => Reader.reads_text.optional announced
  have hpassword := fun announced => Reader.reads_framed.optional announced
  simp only [Reader.Reads] at hproperties husername hpassword
  simp only [read, Reader.bind_eq_ok, Reader.framed_eq_ok, Reader.check_eq_ok, Reader.byte_eq_ok,
    Reader.known_eq_ok, Version.ofLevel?_eq_some, Flags.ofByte?_eq_some, Reader.word_eq_ok,
    hproperties, Reader.text_eq_ok, readWill?_eq_ok, husername, hpassword, Reader.pure_eq_ok,
    Prod.mk.injEq]
  -- In the order of the fields, each of which takes its form off the front of what is left.
  constructor
  · rintro ⟨_, _, ⟨-, rfl⟩, hname, _, _, rfl, _, _, ⟨rfl, rfl⟩, _, _, rfl, flags, _, ⟨rfl, rfl⟩,
      _, _, rfl, _, _, ⟨hregion, rfl⟩, _, _, ⟨hclientId, rfl⟩, _, _, ⟨hflags, hwill, rfl⟩, _, _,
      ⟨⟨husername, hu⟩, rfl⟩, _, _, ⟨⟨hpassword, hp⟩, rfl⟩, hnamed, ⟨rfl, rfl⟩, rfl⟩
    obtain ⟨clean, willFlags, hasUsername, hasPassword⟩ := flags
    obtain rfl := Decidable.not_not.mp hname
    subst hflags husername hpassword
    refine ⟨⟨hregion, hclientId, hwill, hu, hp, ?_⟩, ?_⟩
    · simpa [imp_iff_not_or, or_assoc, Option.isSome_iff_ne_none] using hnamed
    · simp [body, protocolName, flags_eq, announced, Bytes.framedText]
  · rintro ⟨⟨hregion, hclientId, hwill, hu, hp, hnamed⟩, hb⟩
    simp only [body, flags_eq, List.append_assoc, List.cons_append] at hb
    refine ⟨[0x4D, 0x51, 0x54, 0x54], _, ⟨by decide, hb⟩, by simp, _, _, rfl, version, _,
      ⟨rfl, rfl⟩, _, _, rfl, c.announced, _, ⟨rfl, rfl⟩, c.keepAlive, _, rfl, c.properties, _,
      ⟨hregion, rfl⟩, c.clientId, _, ⟨hclientId, rfl⟩, c.will, _, ⟨rfl, hwill, rfl⟩, c.username, _,
      ⟨⟨rfl, hu⟩, rfl⟩, c.password, left, ⟨⟨rfl, hp⟩, rfl⟩, ?_, ⟨rfl, rfl⟩, rfl⟩
    simpa [announced, imp_iff_not_or, or_assoc, Option.isSome_iff_ne_none] using hnamed

/-- Decoding finds the request whose CONNECT the bytes are, and refuses all other bytes. -/
theorem decode_eq_ok :
    decode b = .ok (version, c) ↔
      c.Readable version ∧
        ∃ frame : Frame, frame.firstByte = PacketType.connect.firstByte ∧
          frame.body = c.body version ∧ b = frame.bytes := by
  simp only [decode, Reader.packet_eq_ok, read_eq_ok, List.append_nil]
  grind

end Connect

/-! ## SUBSCRIBE and UNSUBSCRIBE -/

/-- The choice in an options byte; both bits at once mean nothing. -/
def RetainHandling.ofOptions? (b : UInt8) : Option RetainHandling :=
  if b &&& 0x30 = 0x00 then some .always
  else if b &&& 0x30 = 0x10 then some .ifNew
  else if b &&& 0x30 = 0x20 then some .never
  else none

namespace Subscription

/-- What an options byte says. -/
structure Options where
  qos : QoS
  noLocal : Bool := false
  retainAsPublished : Bool := false
  retainHandling : RetainHandling := .always
  deriving DecidableEq

/-- The subscription that options make of a filter. -/
def Options.on (o : Options) (filter : String) : Subscription where
  filter := filter
  qos := o.qos
  noLocal := o.noLocal
  retainAsPublished := o.retainAsPublished
  retainHandling := o.retainHandling

/-- The options of a byte. Bits that mean nothing are refused: all but the guarantee before
MQTT 5, and the two highest since then. -/
def Options.ofByte? (version : Version) (b : UInt8) : Option Options :=
  match version with
  | .v311 => (QoS.ofCode b).toOption.map fun qos => { qos }
  | .v5 =>
    if b &&& 0xC0 = 0 then do
      let qos ← (QoS.ofCode (b &&& 0x03)).toOption
      let retainHandling ← RetainHandling.ofOptions? b
      return { qos, noLocal := b &&& 0x04 != 0, retainAsPublished := b &&& 0x08 != 0
               retainHandling }
    else none

/-- A subscription as far as its bytes can tell: before MQTT 5 filter and guarantee. -/
def shown (version : Version) (s : Subscription) : Subscription :=
  if version.hasProperties then s else { filter := s.filter, qos := s.qos }

variable {version : Version}

theorem Options.ofByte?_eq_some {b : UInt8} {o : Options} (filter : String) :
    ofByte? version b = some o ↔
      (o.on filter).shown version = o.on filter ∧ b = (o.on filter).options version := by
  have hfilter : (o.on filter).shown version = o.on filter ↔ (o.on "").shown version = o.on "" := by
    obtain ⟨qos, noLocal, retainAsPublished, retainHandling⟩ := o
    cases version <;> simp [shown, Version.hasProperties, on]
  have hoptions : (o.on filter).options version = (o.on "").options version := rfl
  rw [hfilter, hoptions]
  constructor
  · have hbytes : ∀ i : Fin 256, ∀ o ∈ ofByte? version (UInt8.ofNat i),
        (o.on "").shown version = o.on "" ∧ UInt8.ofNat i = (o.on "").options version := by
      cases version <;> decide +kernel
    simpa using hbytes ⟨b.toNat, b.toNat_lt⟩ o
  · rintro ⟨hshown, rfl⟩
    obtain ⟨qos, noLocal, retainAsPublished, retainHandling⟩ := o
    revert hshown
    cases version <;> cases qos <;> cases noLocal <;> cases retainAsPublished <;>
      cases retainHandling <;> decide +kernel

/-- Read a filter and its options. -/
def read (version : Version) : Reader Subscription := do
  let filter ← Reader.text
  let options ← Reader.known (Options.ofByte? version (← Reader.byte))
  return options.on filter

/-- What a subscription that is read has to meet. -/
def Readable (version : Version) (s : Subscription) : Prop :=
  s.filterBytes.length ≤ Bytes.maxFieldLength ∧ s.shown version = s

theorem reads (version : Version) : (read version).Reads (Readable version) (form version) := by
  intro b s left
  simp only [read, Reader.bind_eq_ok, Reader.text_eq_ok, Reader.byte_eq_ok, Reader.known_eq_ok,
    Reader.pure_eq_ok, Prod.mk.injEq]
  constructor
  · rintro ⟨filter, _, ⟨hfits, rfl⟩, _, _, rfl, o, _, ⟨ho, rfl⟩, rfl, rfl⟩
    obtain ⟨hshown, rfl⟩ := (Options.ofByte?_eq_some filter).mp ho
    exact ⟨⟨hfits, hshown⟩, by simp [form, Bytes.framedText, Options.on]⟩
  · rintro ⟨⟨hfits, hshown⟩, rfl⟩
    exact ⟨s.filter, _, ⟨hfits, List.append_assoc ..⟩, _, left, rfl,
      ⟨s.qos, s.noLocal, s.retainAsPublished, s.retainHandling⟩, left,
      ⟨(Options.ofByte?_eq_some s.filter).mpr ⟨hshown, rfl⟩, rfl⟩, rfl, rfl⟩

end Subscription

namespace Reader
variable {α : Type} {item : Reader α} {ok : α → Prop} {form : α → Bytes} {version : Version}
  {id : UInt16} {region b left : Bytes} {l : List α}

/-- Read a request after its header: an identifier, properties and at least one item. -/
def request (version : Version) (item : Reader α) : Reader (UInt16 × Bytes × List α) := do
  let id ← word
  if id = 0 then refuse
  let region ← properties version
  let l ← all item
  if l.isEmpty then refuse
  return (id, region, l)

theorem request_eq_ok (h : item.Reads ok form) (hpos : ∀ a, form a ≠ []) :
    request version item b = .ok ((id, region, l), left) ↔
      left = [] ∧ id ≠ 0 ∧ Property.RegionFits version region ∧ l ≠ [] ∧ (∀ a ∈ l, ok a) ∧
        b = Subscribe.body version id region (l.flatMap form) := by
  have hproperties := fun b region left => reads_properties version b region left
  have hall := h.all hpos
  simp only [request, bind_eq_ok, word_eq_ok, check_eq_ok, hproperties, hall, pure_eq_ok,
    Prod.mk.injEq]
  constructor
  · rintro ⟨_, _, rfl, hid, _, _, ⟨hregion, rfl⟩, _, _, ⟨rfl, hok, rfl⟩, hne, ⟨rfl, rfl, rfl⟩, rfl⟩
    exact ⟨rfl, hid, hregion, by simpa using hne, hok, rfl⟩
  · rintro ⟨rfl, hid, hregion, hne, hok, rfl⟩
    exact ⟨id, _, rfl, hid, region, _, ⟨hregion, rfl⟩, l, [], ⟨rfl, hok, rfl⟩, by simpa using hne,
      ⟨rfl, rfl, rfl⟩, rfl⟩

end Reader

/-- Decode a SUBSCRIBE. -/
def Subscribe.decode (version : Version) (b : Bytes) :
    Except Fault (UInt16 × Bytes × List Subscription) :=
  Reader.packet PacketType.subscribe.firstByte (Reader.request version (Subscription.read version))
    b

/-- Decode an UNSUBSCRIBE. -/
def Unsubscribe.decode (version : Version) (b : Bytes) :
    Except Fault (UInt16 × Bytes × List String) :=
  Reader.packet PacketType.unsubscribe.firstByte (Reader.request version Reader.text) b

section
variable {version : Version} {id : UInt16} {properties b : Bytes}

/-- Decoding finds the subscriptions whose SUBSCRIBE the bytes are, and refuses all other
bytes. -/
theorem Subscribe.decode_eq_ok {subscriptions : List Subscription} :
    decode version b = .ok (id, properties, subscriptions) ↔
      (id ≠ 0 ∧ Property.RegionFits version properties ∧ subscriptions ≠ [] ∧
        ∀ s ∈ subscriptions, s.Readable version) ∧
        ∃ frame : Frame, frame.firstByte = PacketType.subscribe.firstByte ∧
          frame.body = body version id properties
            (subscriptions.flatMap (Subscription.form version)) ∧ b = frame.bytes := by
  have hpos : ∀ s, Subscription.form version s ≠ [] := by simp [Subscription.form]
  simp only [decode, Reader.packet_eq_ok, Reader.request_eq_ok (Subscription.reads version) hpos]
  grind

/-- Decoding finds the filters whose UNSUBSCRIBE the bytes are, and refuses all other bytes. -/
theorem Unsubscribe.decode_eq_ok {filters : List String} :
    decode version b = .ok (id, properties, filters) ↔
      (id ≠ 0 ∧ Property.RegionFits version properties ∧ filters ≠ [] ∧
        ∀ f ∈ filters, (Bytes.ofText f).length ≤ Bytes.maxFieldLength) ∧
        ∃ frame : Frame, frame.firstByte = PacketType.unsubscribe.firstByte ∧
          frame.body = Subscribe.body version id properties (filters.flatMap Bytes.framedText) ∧
            b = frame.bytes := by
  have hpos : ∀ f, Bytes.framedText f ≠ [] := fun f h => by
    have hlength := congrArg List.length h
    rw [Bytes.framedText, Bytes.length_framed] at hlength
    simp at hlength
  simp only [decode, Reader.packet_eq_ok, Reader.request_eq_ok Reader.reads_text hpos]
  grind

end

/-! ## Reading back what was written -/

section
variable {version : Version} {id : UInt16} {properties : Bytes} {max : UInt32} {size : PacketSize}
  {capacity : ℕ}

theorem Connect.body_shown (version : Version) (c : Connect) :
    c.shown.body version = c.body version := by
  cases hwill : c.will <;> simp [shown, body, flags, hwill, willFlags, willBody, shownWill,
    Message.topicBytes]

theorem Connect.readable_shown {c : Connect} (h : c.size version = .ok size) :
    c.shown.Readable version := by
  obtain ⟨-, hclientId, husername, hpassword, hnamed, -, hwill⟩ :=
    isValid_iff.mp (size_eq_ok.mp h).1
  obtain ⟨hregion, hregions⟩ := regionFits h
  refine ⟨hregion, hclientId, fun w hw => ?_, husername, hpassword, hnamed⟩
  obtain ⟨will, hsome, rfl⟩ := Option.map_eq_some_iff.mp hw
  obtain ⟨-, -, htopic, hpayload, -⟩ := willIsValid_iff.mp (hwill will hsome)
  exact ⟨rfl, hregions will hsome, htopic, hpayload⟩

theorem Subscription.form_shown (version : Version) (s : Subscription) :
    (s.shown version).form version = s.form version := by
  cases version <;> rfl

theorem Subscription.readable_shown {s : Subscription} (h : s.isValid version = true) :
    (s.shown version).Readable version := by
  have hfits := Topic.length_le_of_canSendFilter (canSendFilter_of_isValid h)
  cases version <;> exact ⟨hfits, rfl⟩

theorem Connect.decode_written {c : Connect} (hsize : c.size version = .ok size)
    (hcapacity : size.total ≤ capacity) :
    ∃ b, c.serialize version size capacity = .ok b ∧
      Connect.decode b = .ok (version, c.shown) := by
  have hcounted : (Outgoing.connect version c).size 0 = .ok size := hsize
  have hwritten := Outgoing.serialize_of_size hcounted trivial hcapacity
  exact ⟨_, hwritten, decode_eq_ok.mpr
    ⟨readable_shown hsize, _, rfl, (body_shown version c).symm, rfl⟩⟩

theorem Subscribe.decode_written {subscriptions : List Subscription}
    (hsize : Subscribe.size version subscriptions properties max = .ok size) (hid : id ≠ 0)
    (hcapacity : size.total ≤ capacity) :
    ∃ b, Subscribe.serialize version subscriptions properties id size capacity = .ok b ∧
      Subscribe.decode version b =
        .ok (id, properties, subscriptions.map (Subscription.shown version)) := by
  have hcounted : (Outgoing.subscribe version subscriptions properties id).size max =
      .ok size := hsize
  have hwritten := Outgoing.serialize_of_size hcounted hid hcapacity
  obtain ⟨hne, hplain, hvalid, hcount⟩ := size_eq_ok.mp hsize
  have hreadable : ∀ s ∈ subscriptions.map (Subscription.shown version), s.Readable version := by
    intro s hs
    obtain ⟨t, ht, rfl⟩ := List.mem_map.mp hs
    exact Subscription.readable_shown (hvalid t ht)
  refine ⟨_, hwritten, decode_eq_ok.mpr
    ⟨⟨hid, regionFits hplain hcount, by simpa using hne, hreadable⟩, _, rfl, ?_, rfl⟩⟩
  simp only [List.flatMap_map, Subscription.form_shown]
  rfl

theorem Unsubscribe.decode_written {filters : List String}
    (hsize : Unsubscribe.size version filters properties max = .ok size) (hid : id ≠ 0)
    (hcapacity : size.total ≤ capacity) :
    ∃ b, Unsubscribe.serialize version filters properties id size capacity = .ok b ∧
      Unsubscribe.decode version b = .ok (id, properties, filters) := by
  have hcounted : (Outgoing.unsubscribe version filters properties id).size max =
      .ok size := hsize
  have hwritten := Outgoing.serialize_of_size hcounted hid hcapacity
  obtain ⟨hne, hplain, hvalid, hcount⟩ := size_eq_ok.mp hsize
  exact ⟨_, hwritten, decode_eq_ok.mpr
    ⟨⟨hid, Subscribe.regionFits hplain hcount, hne,
      fun f hf => Topic.length_le_of_canSendFilter (hvalid f hf)⟩, _, rfl, rfl, rfl⟩⟩

end

/-- What a client writes for a request is read back. A CONNECT tells the revision and the whole
request, but for a mark of repeated attempts that its will may have. A SUBSCRIBE tells identifier,
properties and all subscriptions, before MQTT 5 by filter and guarantee, and an UNSUBSCRIBE
identifier, properties and all filters. -/
theorem requests_read_back :
    (∀ version (c : Connect) size capacity, c.size version = .ok size → size.total ≤ capacity →
      ∃ b, c.serialize version size capacity = .ok b ∧
        Connect.decode b = .ok (version, c.shown)) ∧
    (∀ version subscriptions properties id max size capacity,
      Subscribe.size version subscriptions properties max = .ok size → id ≠ 0 →
        size.total ≤ capacity →
      ∃ b, Subscribe.serialize version subscriptions properties id size capacity = .ok b ∧
        Subscribe.decode version b =
          .ok (id, properties, subscriptions.map (Subscription.shown version))) ∧
    ∀ version filters properties id max size capacity,
      Unsubscribe.size version filters properties max = .ok size → id ≠ 0 →
        size.total ≤ capacity →
      ∃ b, Unsubscribe.serialize version filters properties id size capacity = .ok b ∧
        Unsubscribe.decode version b = .ok (id, properties, filters) :=
  ⟨fun _ _ _ _ => Connect.decode_written, fun _ _ _ _ _ _ _ => Subscribe.decode_written,
    fun _ _ _ _ _ _ _ => Unsubscribe.decode_written⟩

/-- An empty password is read back as one, and so are a will and two filters, of which the first
has options that MQTT 3.1.1 does not send. -/
theorem requests_read_back_at_limits :
    let will : Message := { topic := "w", qos := .exactlyOnce, retain := true, dup := true }
    let c : Connect := { clientId := "", password := some [], will := some will }
    let s : Subscription := { filter := "a/#", qos := .atLeastOnce, noLocal := true }
    (c.size .v5 = .ok ⟨21, 23⟩ ∧ 23 ≤ 23 ∧
      ∃ b, c.serialize .v5 ⟨21, 23⟩ 23 = .ok b ∧
        Connect.decode b = .ok (.v5, { c with will := some { will with dup := false } })) ∧
    (Subscribe.size .v311 [s, { filter := "+" }] [] 20 = .ok ⟨12, 14⟩ ∧ (7 : UInt16) ≠ 0 ∧
      14 ≤ 16 ∧
      ∃ b, Subscribe.serialize .v311 [s, { filter := "+" }] [] 7 ⟨12, 14⟩ 16 = .ok b ∧
        Subscribe.decode .v311 b = .ok (7, [], [{ s with noLocal := false }, { filter := "+" }])) ∧
    (Unsubscribe.size .v5 ["a/#", "+"] [0x0B, 1] 20 = .ok ⟨13, 15⟩ ∧ (7 : UInt16) ≠ 0 ∧ 15 ≤ 16 ∧
      ∃ b, Unsubscribe.serialize .v5 ["a/#", "+"] [0x0B, 1] 7 ⟨13, 15⟩ 16 = .ok b ∧
        Unsubscribe.decode .v5 b = .ok (7, [0x0B, 1], ["a/#", "+"])) := by
  intro will c s
  obtain ⟨hconnect, hsubscribe, hunsubscribe⟩ := requests_read_back
  have hc : c.size .v5 = .ok ⟨21, 23⟩ := by decide +kernel
  have hs : Subscribe.size .v311 [s, { filter := "+" }] [] 20 = .ok ⟨12, 14⟩ := by decide +kernel
  have hu : Unsubscribe.size .v5 ["a/#", "+"] [0x0B, 1] 20 = .ok ⟨13, 15⟩ := by decide +kernel
  exact ⟨⟨hc, by decide, hconnect _ _ _ _ hc (by decide)⟩,
    ⟨hs, by decide, by decide, hsubscribe _ _ _ _ _ _ _ hs (by decide) (by decide)⟩,
    ⟨hu, by decide, by decide, hunsubscribe _ _ _ _ _ _ _ hu (by decide) (by decide)⟩⟩

end MqttClient
