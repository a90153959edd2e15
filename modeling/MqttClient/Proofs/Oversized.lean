import MqttClient.Proofs.Logs
import MqttClient.Proofs.Status

/-!
# Packets that are too large

A packet larger than the network buffer is read to its end and dropped (`Session.discard`). Reading
can stop halfway, and what is left to read is not remembered. So the bytes that a client receives
fall into those that it has handled or dropped and those that still wait (`Step.passes`), but where
the next header is looked for depends on how dropping ended (`run_drops_oversized`).
-/
namespace MqttClient
variable {ω : Type}

/-! ## What reads deliver -/

namespace HostCall

/-- Whether a call asks for bytes. -/
def IsRead : HostCall → Prop
  | read _ _ => True
  | _ => False

theorem not_isRead_of_isSending {c : HostCall} (h : c.IsSending) : ¬c.IsRead := by
  intro hread
  cases c <;> trivial

/-- The bytes that a call delivers. -/
def delivered : HostCall → Bytes
  | read _ (some (_, arrived)) => arrived
  | _ => []

/-- A read tells how many bytes it delivers, and delivers no more than it is asked for. -/
def IsHonest : HostCall → Prop
  | read asked (some (count, arrived)) => count = arrived.length ∧ count ≤ asked
  | _ => True

instance : DecidablePred IsHonest := fun c => by
  unfold IsHonest
  split <;> infer_instance

end HostCall

/-- The bytes delivered by calls that are listed latest first. -/
def received (calls : List HostCall) : Bytes := calls.reverse.flatMap HostCall.delivered

@[simp] theorem received_nil : received [] = [] := rfl
@[simp] theorem received_cons (c : HostCall) (calls : List HostCall) :
    received (c :: calls) = received calls ++ c.delivered := by simp [received]
@[simp] theorem received_append (later earlier : List HostCall) :
    received (later ++ earlier) = received earlier ++ received later := by simp [received]

theorem received_eq_nil {calls : List HostCall} (h : ∀ c ∈ calls, ¬c.IsRead) :
    received calls = [] := by
  simp only [received, List.flatMap_eq_nil_iff, List.mem_reverse]
  intro c hc
  cases c with
  | read asked answer => exact (h _ hc trivial).elim
  | _ => rfl

/-- All reads among calls are honest. -/
def Honest (calls : List HostCall) : Prop := ∀ c ∈ calls, c.IsHonest

instance : DecidablePred Honest := fun calls =>
  inferInstanceAs (Decidable (∀ c ∈ calls, c.IsHonest))

theorem honest_append {later earlier : List HostCall} :
    Honest (later ++ earlier) ↔ Honest later ∧ Honest earlier :=
  List.forall_mem_append

variable [Host ω]

namespace Session
variable {σ υ τ : Scene (Watched ω)}

/-! ## Filling and draining -/

/-- How filling up from `k` bytes to `length` bytes ends: it gives the number of bytes that are
there, or fails before the last of them. -/
def Fills (length k : ℕ) : Except Fault ℕ → List HostCall → Prop
  | .ok m, calls => m ≤ length ∧ (Honest calls → m = k + (received calls).length)
  | .error _, calls => Honest calls → k + (received calls).length < length

/-- How dropping `n` bytes ends of which `k` are dropped already. -/
def Drains (n k : ℕ) : Except Fault Unit → List HostCall → Prop
  | .ok (), calls => Honest calls → k + (received calls).length = n
  | .error _, calls => Honest calls → k + (received calls).length < n

section
variable {length k : ℕ} {r : Except Fault ℕ} {calls later : List HostCall}

/-- More room makes no difference to what is filled. -/
theorem Fills.mono {length' : ℕ} (h : length ≤ length') (hfills : Fills length k r calls) :
    Fills length' k r calls := by
  cases r with
  | error fault => exact fun hhonest => Nat.lt_of_lt_of_le (hfills hhonest) h
  | ok m => exact ⟨hfills.1.trans h, hfills.2⟩

/-- What has been received first counts for the rest. -/
theorem length_received_append {j : ℕ} (hfirst : Honest calls → j = k + (received calls).length)
    (hhonest : Honest (later ++ calls)) :
    Honest later ∧ k + (received (later ++ calls)).length = j + (received later).length := by
  obtain ⟨hlater, hcalls⟩ := honest_append.mp hhonest
  refine ⟨hlater, ?_⟩
  rw [received_append, List.length_append, ← Nat.add_assoc, ← hfirst hcalls]

theorem Fills.append {j : ℕ} (hfirst : Honest calls → j = k + (received calls).length)
    (h : Fills length j r later) : Fills length k r (later ++ calls) := by
  cases r with
  | error fault =>
    intro hhonest
    obtain ⟨hlater, hlength⟩ := length_received_append hfirst hhonest
    rw [hlength]
    exact h hlater
  | ok m =>
    refine ⟨h.1, fun hhonest => ?_⟩
    obtain ⟨hlater, hlength⟩ := length_received_append hfirst hhonest
    rw [hlength]
    exact h.2 hlater

theorem Drains.append {j : ℕ} {r : Except Fault Unit}
    (hfirst : Honest calls → j = k + (received calls).length) (h : Drains length j r later) :
    Drains length k r (later ++ calls) := by
  cases r
  all_goals
    intro hhonest
    obtain ⟨hlater, hlength⟩ := length_received_append hfirst hhonest
    rw [hlength]
    exact h hlater

/-- What is left to drop. -/
theorem Drains.of_rest {r : Except Fault Unit} (hk : k ≤ length)
    (h : Drains (length - k) 0 r calls) : Drains length k r calls := by
  cases r
  all_goals
    intro hhonest
    have := h hhonest
    omega

end

theorem readInto_fills (offset : ℕ) {n : ℕ} (hn : 0 < n) :
    Act.Logs (Fills n 0) (Act.readInto offset n : Act (Watched ω) ℕ) := by
  intro σ r τ h
  have hcalls : (Host.read n σ.host).2.calls = .read n (Host.read n σ.host).1 :: σ.host.calls := rfl
  cases hanswer : (Host.read n σ.host).1 with
  | none =>
    rw [runOn_readInto_none hanswer] at h
    rw [hanswer] at hcalls
    cases h
    exact ⟨[.read n none], hcalls, fun _ => by simpa [HostCall.delivered] using hn⟩
  | some answer =>
    obtain ⟨count, arrived⟩ := answer
    rw [runOn_readInto_some hanswer] at h
    rw [hanswer] at hcalls
    cases h
    refine ⟨[.read n (some (count, arrived))], hcalls, Nat.min_le_right count n, fun hhonest => ?_⟩
    obtain ⟨hcount, hle⟩ := hhonest (.read n (some (count, arrived))) (by simp)
    simp [HostCall.delivered, ← hcount, hle]

/-- A look at the clock delivers nothing. -/
theorem now_fills {length k : ℕ} {f : UInt32 → Act (Watched ω) ℕ}
    (h : ∀ now, Act.Logs (Fills length k) (f now)) :
    Act.Logs (Fills length k) (Act.now >>= f) :=
  .host_bind Watched.calls_now fun now => (h now).mono fun _ _ hfills => hfills.append fun _ => rfl

theorem fillFrom_fills {n length k : ℕ} {progress : UInt32} (hk : k ≤ length) :
    Act.Logs (Fills length k) (fillFrom n length k progress : Act (Watched ω) ℕ) := by
  induction n generalizing k progress with
  | zero =>
    rw [fillFrom]
    exact .ite (fun _ => .pure ⟨hk, fun _ => rfl⟩) fun _ => .stall
  | succ n ih =>
    rw [fillFrom]
    refine .ite (fun _ => .pure ⟨hk, fun _ => rfl⟩) fun hlt => ?_
    -- After a read that gives `count` bytes, the rest is filled up from `k + count`.
    refine (readInto_fills k (by omega)).bind (Q := fun count => Fills length (k + count)) ?_ ?_ ?_
    · rintro count calls ⟨hcount, -⟩
      refine now_fills fun now => .ite (fun hzero => ?_) fun _ => ih (by omega)
      rw [hzero, Nat.add_zero]
      exact .session_bind fun _ => .ite (fun _ => .pure ⟨hk, fun _ => rfl⟩) fun _ => ih hk
    · intro fault calls hfails hhonest
      have := hfails hhonest
      omega
    · rintro count r calls later ⟨-, hcount⟩ hrest
      exact hrest.append fun hhonest => by rw [hcount hhonest, Nat.zero_add]

theorem fill_fills (length : ℕ) : Act.Logs (Fills length 0) (fill length : Act (Watched ω) ℕ) :=
  .get_bind fun _ => now_fills fun _ =>
    (fillFrom_fills (Nat.zero_le _)).mono fun _ _ hfills => hfills.mono (Nat.min_le_left _ _)

theorem drain_drains (n remaining : ℕ) :
    Act.Logs (Drains remaining 0) (drain n remaining : Act (Watched ω) Unit) := by
  induction n generalizing remaining with
  | zero =>
    rw [drain]
    exact .ite (fun hzero => .pure fun _ => hzero.symm) fun _ => .stall
  | succ n ih =>
    rw [drain]
    refine .ite (fun hzero => .pure fun _ => hzero.symm) fun _ => .session_bind fun s => ?_
    have hwant : min remaining s.capacity ≤ remaining := Nat.min_le_left _ _
    refine (fill_fills _).bind (Q := Drains remaining) ?_ ?_ ?_
    · rintro got calls ⟨hgot, -⟩
      refine .check (fun hshort _ => ?_) fun _ => (ih (remaining - got)).mono fun r later hrest =>
        hrest.of_rest (hgot.trans hwant)
      rw [received_nil, List.length_nil]
      omega
    · intro fault calls hfails hhonest
      exact Nat.lt_of_lt_of_le (hfails hhonest) hwant
    · rintro got r calls later ⟨-, hgot⟩ hrest
      exact hrest.append hgot

/-- A packet that cannot be kept is read to its end, or not to its end. -/
theorem discard_drains {n : ℕ} (hn : 0 < n) :
    Act.Logs (Drains n 0) (discard n : Act (Watched ω) Unit) := by
  refine .outcome_bind (.session_bind fun _ => .check (fun _ _ => hn) fun _ => drain_drains n n)
    fun r calls hdrains => .change_bind (.ofResult ?_)
  rwa [List.nil_append]

/-- Reading a packet that cannot be kept fails when reading fails, or pauses for too long. -/
theorem discard_error {n : ℕ} {fault : Fault} (hcapacity : σ.session.capacity ≠ 0)
    (h : (discard n).runOn σ = some (.error fault, τ)) : fault = .recvFailed := by
  rcases Act.runOn_bind_inv h with ⟨_, houtcome, -⟩ | ⟨result, υ, houtcome, h⟩ <;>
    rw [Act.runOn_outcome] at houtcome <;>
    obtain ⟨⟨r, ρ⟩, hdrain, heq⟩ := Option.map_eq_some_iff.mp houtcome
  · cases heq
  · rw [Act.runOn_bind_of_ok (Act.runOn_change _ _), Act.runOn_ofResult] at h
    cases h
    cases heq
    rw [Act.runOn_bind_of_ok (Act.runOn_session _), if_neg hcapacity] at hdrain
    exact drain_faults _ _ σ _ _ hdrain

/-! ## What leaves the received bytes alone -/

/-- The part of a session that holds what has been received. -/
def intake (s : Session) : Version × Bytes × ℕ := (s.version, s.buffer, s.filled)

theorem pending_of_intake {s t : Session} (h : s.intake = t.intake) :
    s.version = t.version ∧ s.pending = t.pending ∧ s.capacity = t.capacity ∧
      s.filled = t.filled := by
  obtain ⟨hversion, hrest⟩ := Prod.mk.inj h
  obtain ⟨hbuffer, hfilled⟩ := Prod.mk.inj hrest
  simp only [pending, capacity, hversion, hbuffer, hfilled, and_self]

end Session

/-- Nothing has been read, and what has been received before is as it was. -/
structure Unread (σ τ : Scene (Watched ω)) : Prop where
  makes : Makes (fun c => ¬c.IsRead) σ τ
  same : Same Session.intake σ τ

omit [Host ω] in
theorem Unread.pending_eq {σ τ : Scene (Watched ω)} (h : Unread σ τ) :
    τ.session.pending = σ.session.pending :=
  (Session.pending_of_intake h.same).2.1

omit [Host ω] in
instance : IsPreorder (Scene (Watched ω)) Unread where
  refl σ := ⟨refl_of (Makes _) σ, refl_of (Same _) σ⟩
  trans _ _ _ h h' := ⟨trans_of (Makes _) h.makes h'.makes, trans_of (Same _) h.same h'.same⟩

namespace Session
variable {σ υ τ : Scene (Watched ω)}

theorem outward_unread : Outward (Unread (ω := ω)) := by
  have hmakes : Outward (Makes (ω := ω) fun c => ¬c.IsRead) :=
    outward_makes (fun _ => HostCall.not_isRead_of_isSending) id fun _ => id
  have hsame : Outward (Same (ω := Watched ω) intake) := outward_same fun _ _ _ => rfl
  exact {
    send := fun spans σ r τ h => ⟨hmakes.send spans σ r τ h, hsame.send spans σ r τ h⟩
    track := fun hstep σ r τ h => ⟨hmakes.track hstep σ r τ h, hsame.track hstep σ r τ h⟩
    report := fun event σ r τ h => ⟨hmakes.report event σ r τ h, hsame.report event σ r τ h⟩ }

omit [Host ω] in
theorem unread_change {f : Session → Session} (hf : ∀ s, (f s).intake = s.intake) :
    Act.Keeps (Unread (ω := ω)) (Act.change f) :=
  .change fun σ => ⟨.refl σ.host, hf σ.session⟩

theorem unread_now : Act.Keeps (Unread (ω := ω)) Act.now :=
  .host fun _ => ⟨.of_call rfl id, rfl⟩

theorem ping_unread : Act.Keeps (Unread (ω := ω)) ping :=
  (outward_unread.send _).bind fun _ => unread_change fun _ => rfl

theorem dispatch_unread (managed : Bool) (packet : Packet) :
    Act.Keeps (Unread (ω := ω)) (dispatch managed packet) :=
  outward_unread.answering.dispatch managed packet (unread_change fun _ => rfl) fun _ =>
    unread_change fun _ => rfl

/-! ## The read of a call -/

/-- The read with which a call begins. -/
def firstRead (σ : Scene (Watched ω)) : HostCall :=
  .read (σ.session.capacity - σ.session.filled) (firstAnswer σ).1

/-- After an honest read the bytes that it has delivered stand behind those that were there. -/
theorem pending_fetch (hfilled : σ.session.filled ≤ σ.session.capacity)
    (hhonest : (firstRead σ).IsHonest) :
    (fetch σ).session.pending = σ.session.pending ++ (firstRead σ).delivered := by
  rw [fetch, firstRead] at *
  cases hanswer : (firstAnswer σ).1 with
  | none => exact (List.append_nil _).symm
  | some answer =>
    obtain ⟨count, arrived⟩ := answer
    rw [hanswer] at hhonest
    obtain ⟨rfl, hle⟩ := hhonest
    simp only [afterRead, HostCall.delivered, pending, List.take_of_length_le hle,
      Nat.min_eq_left hle]
    exact take_readAt hfilled arrived

/-- Nothing else is read before a packet is handled. -/
theorem arrive_unread {managed : Bool} {r : Except Fault Unit}
    (h : (arrive managed).runOn σ = some (r, τ)) : Unread (fetch σ) τ := by
  cases hanswer : (firstAnswer σ).1 with
  | none =>
    rw [arrive_none hanswer] at h
    cases h
    exact refl_of Unread _
  | some answer =>
    obtain ⟨count, arrived⟩ := answer
    rw [arrive_some hanswer] at h
    split at h
    · exact keepAliveDuty_keeps outward_unread.send unread_now (unread_change fun _ => rfl)
        (fetch σ) r τ h
    · cases h
      exact refl_of Unread _

/-- Before a packet is handled the network buffer holds what it is said to hold. -/
theorem filled_le_of_arrive {managed : Bool} {r : Except Fault Unit}
    (hfilled : σ.session.filled ≤ σ.session.capacity)
    (h : (arrive managed).runOn σ = some (r, τ)) : τ.session.filled ≤ τ.session.capacity := by
  obtain ⟨-, -, hcapacity, hfilled'⟩ := pending_of_intake (arrive_unread h).same
  rw [hcapacity, hfilled']
  exact (fetch_settles σ).filled_le hfilled

/-- What a call has received before it looks at a packet. -/
theorem arrive_receives {managed : Bool} {r : Except Fault Unit}
    (hfilled : σ.session.filled ≤ σ.session.capacity)
    (h : (arrive managed).runOn σ = some (r, τ)) :
    ∃ calls, τ.host.calls = calls ++ σ.host.calls ∧ firstRead σ ∈ calls ∧
      (Honest calls → τ.session.pending = σ.session.pending ++ received calls) := by
  have hunread := arrive_unread h
  obtain ⟨later, hlater, hkind⟩ := hunread.makes
  refine ⟨later ++ [firstRead σ], by rw [hlater, List.append_assoc]; rfl, by simp, ?_⟩
  intro hhonest
  rw [hunread.pending_eq, pending_fetch hfilled (hhonest _ (by simp)), received_append,
    received_eq_nil hkind, List.append_nil]
  simp

/-! ## A packet that is too large -/

/-- A call has the header of a packet at the front of what has been received, and the network
buffer cannot hold the packet. -/
def Oversized (managed : Bool) (header : Header) (σ : Scene (Watched ω)) : Prop :=
  ∃ υ, (arrive managed).runOn σ = some (.ok (), υ) ∧
    Header.decode υ.session.version υ.session.pending = .ok header ∧
    υ.session.capacity < header.total

/-- The header of the packet that a call comes upon and the network buffer cannot hold. -/
def oversized? (managed : Bool) (σ : Scene (Watched ω)) : Option Header :=
  match (arrive managed).runOn σ with
  | some (.ok (), υ) =>
    match Header.decode υ.session.version υ.session.pending with
    | .ok header => if υ.session.capacity < header.total then some header else none
    | .error _ => none
  | _ => none

theorem oversized_of_oversized? {managed : Bool} {header : Header}
    (h : oversized? managed σ = some header) : Oversized managed header σ := by
  unfold oversized? at h
  split at h
  · rename_i υ harrive
    split at h
    · rename_i front hdecode
      obtain ⟨hlarge, hfront⟩ := Option.ite_none_right_eq_some.mp h
      cases hfront
      exact ⟨υ, harrive, hdecode, hlarge⟩
    · cases h
  · cases h

/-- The call drops the packet up to its end, or fails halfway. Either way nothing is left of what it
has received. -/
theorem receive_oversized {managed : Bool} {header : Header} {r : Except Fault Progress}
    (hfilled : σ.session.filled ≤ σ.session.capacity) (hlarge : Oversized managed header σ)
    (h : (receive managed).runOn σ = some (r, τ)) :
    τ.session.pending = [] ∧ ∃ calls, τ.host.calls = calls ++ σ.host.calls ∧
      firstRead σ ∈ calls ∧ (Honest calls →
        Header.decode σ.session.version (σ.session.pending ++ received calls) = .ok header ∧
        (r = .ok .noData ∧
            (σ.session.pending ++ received calls).length = header.total ∨
          r = .error .recvFailed ∧
            (σ.session.pending ++ received calls).length < header.total)) := by
  obtain ⟨υ, harrive, hdecode, hcapacity⟩ := hlarge
  obtain ⟨hversion, -, hcapacity', hfilled'⟩ := pending_of_intake (arrive_unread harrive).same
  have hfetched := (fetch_settles σ).filled_le hfilled
  rw [receive_eq, Act.runOn_bind_of_ok harrive] at h
  cases handleBuffered_inv h with
  | waits same part => exact absurd hcapacity (Nat.not_lt.mpr (part header hdecode).1)
  | handles decodes fits whole handled =>
    cases decodes.symm.trans hdecode
    exact absurd hcapacity (Nat.not_lt.mpr fits)
  | @drops header' r' decodes large discards result =>
    cases decodes.symm.trans hdecode
    have hlength : υ.session.pending.length = υ.session.filled :=
      length_pending (by rwa [hfilled', hcapacity'])
    have hne : υ.session.pending ≠ [] := by
      intro hnil
      rw [hnil] at hdecode
      cases hdecode
    have hpos := List.length_pos_iff.mpr hne
    obtain ⟨later, hlater, hdrains⟩ :=
      discard_drains (by omega : 0 < header.total - υ.session.filled) υ r' τ discards
    obtain ⟨calls, hcalls, hfirst, hpending⟩ := arrive_receives hfilled harrive
    refine ⟨?_, later ++ calls, by rw [hlater, hcalls, List.append_assoc],
      List.mem_append_right _ hfirst, fun hhonest => ?_⟩
    · rw [pending, filled_of_discard discards, List.take_zero]
    obtain ⟨hhonest', hhonest⟩ := honest_append.mp hhonest
    have hgone : σ.session.pending ++ received (later ++ calls) =
        υ.session.pending ++ received later := by
      rw [received_append, ← List.append_assoc, hpending hhonest]
    rw [hgone, List.length_append, hlength]
    refine ⟨?_, ?_⟩
    · have hσ : υ.session.version = σ.session.version := hversion.trans (version_afterRead ..)
      rw [← hσ, Header.decode_append _ hne (by simp [hdecode]), hdecode]
    · cases r' with
      | ok =>
        have := hdrains hhonest'
        exact .inl ⟨result, by omega⟩
      | error fault =>
        have := hdrains hhonest'
        cases discard_error (by omega) discards
        exact .inr ⟨result, by omega⟩

/-! ## What a call does with the bytes it has received -/

/-- The bytes that a call takes off the front of what has been received. -/
inductive Passes (managed : Bool) (σ : Scene (Watched ω)) (r : Except Fault Progress)
    (gone : Bytes) : Prop where
  /-- No packet is handled, and none is dropped. -/
  | nothing (idle : ∀ packet υ, ¬Dispatches managed packet σ υ)
      (fits : ∀ header, ¬Oversized managed header σ) (none : gone = [])
  /-- The packet at the front is handled. -/
  | handled {packet : Packet} {υ : Scene (Watched ω)} (dispatches : Dispatches managed packet σ υ)
      (whole : gone = υ.session.pending.take packet.total)
  /-- The packet at the front is dropped. -/
  | dropped {header : Header} (oversized : Oversized managed header σ) (done : r = .ok .noData)
      (whole : gone.length = header.total)
  /-- A part of the packet at the front is dropped. -/
  | cut {header : Header} (oversized : Oversized managed header σ)
      (failed : r = .error .recvFailed) (part : gone.length < header.total)

/-- What a call has received, and what was there before, it takes off or leaves waiting. -/
theorem receive_passes {managed : Bool} {r : Except Fault Progress}
    (hfilled : σ.session.filled ≤ σ.session.capacity)
    (h : (receive managed).runOn σ = some (r, τ)) :
    ∃ calls, τ.host.calls = calls ++ σ.host.calls ∧ firstRead σ ∈ calls ∧
      (Honest calls → ∃ gone, σ.session.pending ++ received calls = gone ++ τ.session.pending ∧
        Passes managed σ r gone) := by
  by_cases hlarge : ∃ header, Oversized managed header σ
  · obtain ⟨header, hlarge⟩ := hlarge
    obtain ⟨hempty, calls, hcalls, hfirst, hends⟩ := receive_oversized hfilled hlarge h
    refine ⟨calls, hcalls, hfirst, fun hhonest => ⟨_, by rw [hempty, List.append_nil], ?_⟩⟩
    rcases (hends hhonest).2 with ⟨hr, hlength⟩ | ⟨hr, hlength⟩
    · exact .dropped hlarge hr hlength
    · exact .cut hlarge hr hlength
  have hfits : ∀ header, ¬Oversized managed header σ := not_exists.mp hlarge
  rw [receive_eq] at h
  rcases Act.runOn_bind_inv h with ⟨fault, harrive, -⟩ | ⟨_, υ, harrive, hbuffered⟩
  · obtain ⟨calls, hcalls, hfirst, hpending⟩ := arrive_receives hfilled harrive
    refine ⟨calls, hcalls, hfirst, fun hhonest =>
      ⟨[], (hpending hhonest).symm, .nothing ?_ hfits rfl⟩⟩
    intro packet υ hdispatches
    cases harrive.symm.trans hdispatches.arrives
  obtain ⟨calls, hcalls, hfirst, hpending⟩ := arrive_receives hfilled harrive
  cases handleBuffered_inv hbuffered with
  | waits same part =>
    cases same
    refine ⟨calls, hcalls, hfirst, fun hhonest =>
      ⟨[], (hpending hhonest).symm, .nothing ?_ hfits rfl⟩⟩
    intro packet υ' hdispatches
    cases harrive.symm.trans hdispatches.arrives
    cases (wholePacket?_eq_none part).symm.trans hdispatches.whole
  | drops decodes large discards result => exact absurd ⟨υ, harrive, decodes, large⟩ (hfits _)
  | @handles header decodes fits whole handled =>
    have hunread : Act.Keeps (Makes (ω := ω) fun c => ¬c.IsRead) (handleFront managed header) :=
      handleFront_keeps (fun packet => (dispatch_unread managed packet).mono fun _ _ h => h.makes)
        (fun _ => .makes_change) (fun _ => .makes_change)
        (unread_now.mono fun _ _ h => h.makes) header
    obtain ⟨later, hlater, hkind⟩ := hunread υ r τ handled
    obtain ⟨r', ρ, hdispatch, t, hsession⟩ := session_of_handleFront handled
    obtain ⟨-, hpending', hcapacity, hfilled'⟩ :=
      pending_of_intake (dispatch_unread _ _ υ r' ρ hdispatch).same
    have hυ := filled_le_of_arrive hfilled harrive
    have hleft : τ.session.pending = υ.session.pending.drop header.total := by
      rw [hsession, ← hpending']
      exact (pending_consume (by rwa [hfilled', hcapacity]) (by rwa [hfilled'])).1
    refine ⟨later ++ calls, by rw [hlater, hcalls, List.append_assoc],
      List.mem_append_right _ hfirst, fun hhonest => ?_⟩
    refine ⟨υ.session.pending.take header.total, ?_,
      .handled ⟨harrive, wholePacket?_eq decodes fits whole⟩ rfl⟩
    rw [received_append, received_eq_nil hkind, List.append_nil,
      ← hpending (honest_append.mp hhonest).2, hleft, List.take_append_drop]

end Session

/-! ## Runs -/

theorem Session.receive_sound (managed : Bool) :
    Act.Keeps (@Sound ω) (Session.receive managed) := by
  have harrive : Act.Keeps (@Sound ω) (Session.arrive managed) := by
    intro σ r τ h
    obtain ⟨hversion, -, hcapacity, hfilled⟩ := pending_of_intake (arrive_unread h).same
    exact trans_of Sound (fetch_settles σ).toSound
      ⟨hversion, fun hle => by rwa [hcapacity, hfilled]⟩
  rw [receive_eq]
  exact harrive.bind fun _ => (handleBuffered_settles managed).mono fun _ _ h => h.toSound

namespace Step

/-- No step gets more into the network buffer than it can hold. -/
theorem sound (s : Step ω) : Sound s.before s.after := by
  have houtward : Session.Outward (@Sound ω) := Session.outward_leaves.mono fun _ _ h => h.toSound
  exact s.call.perform_keeps houtward
    (fun c timeout _ => (Session.connect_settles c timeout).mono fun _ _ h => h.toSound)
    (fun _ => Session.close_leaves.mono fun _ _ h => h.toSound)
    (fun _ => (houtward.send _).bind fun _ => .change fun _ => ⟨rfl, id⟩)
    (.change fun _ => ⟨rfl, id⟩) (fun managed _ => Session.receive_sound managed)
    s.before s.result s.after s.performed

/-- The bytes that a step receives. -/
def received (s : Step ω) : Bytes := MqttClient.received s.calls

/-- The bytes that come with the first read of a step. -/
def fetched (s : Step ω) : Bytes := (Session.firstRead s.before).delivered

/-- The bytes that a step that receives looks at. -/
def seen (s : Step ω) : Bytes := (Session.fetch s.before).session.pending

/-- The bytes that a step takes off the front of what has been received. -/
def Passes (s : Step ω) (gone : Bytes) : Prop :=
  (∀ managed, s.call ≠ .receive managed) ∧ gone = [] ∨
    ∃ managed r, s.call = .receive managed ∧ s.result = r.map .progress ∧
      Session.Passes managed s.before r gone

/-- A step goes on with the connection that there is. -/
def StaysConnected (s : Step ω) : Prop :=
  (∀ c timeout, s.call ≠ .connect c timeout) ∧ ¬s.HangsUp

/-- A step that goes on with the connection and does not receive reads nothing. -/
theorem unread {s : Step ω} (hstays : s.StaysConnected)
    (hreceive : ∀ managed, s.call ≠ .receive managed) : Unread s.before s.after :=
  keeps Session.outward_unread Session.ping_unread (Session.unread_change fun _ => rfl) hstays.1
    hreceive hstays.2

/-- What has been received a step takes off or leaves waiting. -/
theorem passes {s : Step ω} (hfilled : s.before.session.filled ≤ s.before.session.capacity)
    (hstays : s.StaysConnected) (hhonest : Honest s.calls) :
    ∃ gone, s.before.session.pending ++ s.received = gone ++ s.after.session.pending ∧
      s.Passes gone := by
  by_cases hcall : ∃ managed, s.call = .receive managed
  · obtain ⟨call, σ, r, τ, hrun⟩ := s
    obtain ⟨managed, rfl⟩ := hcall
    obtain ⟨r', hrun', rfl⟩ := Act.runOn_bind_pure_inv hrun
    obtain ⟨calls, hcalls, -, hpasses⟩ := Session.receive_passes hfilled hrun'
    rw [Step.calls_eq hcalls] at hhonest
    obtain ⟨gone, hgone, hpasses⟩ := hpasses hhonest
    exact ⟨gone, by rw [received, Step.calls_eq hcalls]; exact hgone,
      .inr ⟨managed, r', rfl, rfl, hpasses⟩⟩
  · have hreceive := not_exists.mp hcall
    have hunread := s.unread hstays hreceive
    obtain ⟨calls, hcalls, hkind⟩ := hunread.makes
    refine ⟨[], ?_, .inl ⟨hreceive, rfl⟩⟩
    rw [received, Step.calls_eq hcalls, received_eq_nil hkind, List.append_nil,
      hunread.pending_eq, List.nil_append]

/-- What a step that receives looks at is what was there and what its first read brings. -/
theorem seen_eq {s : Step ω} {managed : Bool} (hcall : s.call = .receive managed)
    (hfilled : s.before.session.filled ≤ s.before.session.capacity) (hhonest : Honest s.calls) :
    s.seen = s.before.session.pending ++ s.fetched := by
  obtain ⟨r, hrun, -⟩ := s.receives hcall
  obtain ⟨calls, hcalls, hfirst, -⟩ := Session.receive_passes hfilled hrun
  rw [Step.calls_eq hcalls] at hhonest
  exact Session.pending_fetch hfilled (hhonest _ hfirst)

end Step

theorem filled_le_of_isRun {steps : List (Step ω)} (hrun : IsRun steps)
    (hfilled : ∀ s ∈ steps.head?, s.before.session.filled ≤ s.before.session.capacity) :
    ∀ s ∈ steps, s.before.session.filled ≤ s.before.session.capacity :=
  before_of_isRun (P := fun s => s.filled ≤ s.capacity) hrun hfilled fun s _ => s.sound.filled_le

/-- Along a connection, what has been received falls into what the steps have taken off, each a
part of its own, and what still waits. -/
theorem received_of_isRun {steps : List (Step ω)} {first last : Step ω}
    (hrun : IsRun (steps ++ [last])) (hfirst : first ∈ (steps ++ [last]).head?)
    (hfilled : first.before.session.filled ≤ first.before.session.capacity)
    (hstays : ∀ s ∈ steps, s.StaysConnected) (hhonest : ∀ s ∈ steps, Honest s.calls) :
    last.before.session.filled ≤ last.before.session.capacity ∧
      ∃ handled, List.Forall₂ Step.Passes steps handled ∧
        first.before.session.pending ++ steps.flatMap Step.received =
          handled.flatten ++ last.before.session.pending := by
  induction steps generalizing first with
  | nil =>
    cases hfirst
    exact ⟨hfilled, [], .nil, by simp⟩
  | cons s steps ih =>
    cases hfirst
    obtain ⟨next, hnext⟩ : ∃ next, (steps ++ [last]).head? = some next := by
      cases steps <;> exact ⟨_, rfl⟩
    have hchain := List.isChain_cons.mp hrun
    have hfollows : next.before.session = s.after.session := hchain.1 next hnext
    obtain ⟨hstay, hstays⟩ := List.forall_mem_cons.mp hstays
    obtain ⟨hcalls, hhonest⟩ := List.forall_mem_cons.mp hhonest
    obtain ⟨gone, hgone, hpasses⟩ := s.passes hfilled hstay hcalls
    obtain ⟨hlast, handled, hhandled, heq⟩ := ih hchain.2 hnext
      (by rw [hfollows]; exact s.sound.filled_le hfilled) hstays hhonest
    refine ⟨hlast, gone :: handled, .cons hpasses hhandled, ?_⟩
    rw [hfollows] at heq
    rw [List.flatMap_cons, ← List.append_assoc, hgone, List.append_assoc, heq, List.flatten_cons,
      List.append_assoc]

/-- The packet that a call handles stands at the front of what the call looks at. -/
theorem Session.Dispatches.packetsIn_seen {managed : Bool} {packet : Packet}
    {σ υ : Scene (Watched ω)} (hfilled : σ.session.filled ≤ σ.session.capacity)
    (h : Dispatches managed packet σ υ) :
    ∃ more, packetsIn σ.session.version (fetch σ).session.pending = packet :: more := by
  obtain ⟨hversion, hpending, -⟩ := pending_of_intake (arrive_unread h.arrives).same
  obtain ⟨header, hdecode, -, hwhole, rfl⟩ := wholePacket?_inv h.whole
  have hwaiting := waiting_consume (filled_le_of_arrive hfilled h.arrives) hdecode hwhole
  rw [waiting, hpending, hversion, fetch, version_afterRead] at hwaiting
  exact ⟨_, hwaiting⟩

/-- **What becomes of a packet that is too large.** The call that comes upon it drops it, read
exactly to its end, or fails because reading fails or pauses for too long, and keeps nothing of what
it has received. As long as the connection lasts, later calls go on at the first byte that had not
been read by then. So no byte of a packet that was dropped is taken for a header or handled. -/
theorem run_drops_oversized {steps earlier later : List (Step ω)} {large : Step ω}
    {managed : Bool} {header : Header} (hrun : IsRun steps)
    (hnew : ∀ s ∈ steps.head?, ∃ capacity exchanges version settings,
      s.before.session = .create capacity exchanges version settings)
    (hsteps : steps = earlier ++ large :: later) (hcall : large.call = .receive managed)
    (hlarge : Session.Oversized managed header large.before)
    (hstays : ∀ s ∈ later, s.StaysConnected) (hhonest : ∀ s ∈ large :: later, Honest s.calls) :
    (Header.decode large.before.session.version
        (large.before.session.pending ++ large.received) = .ok header ∧
      (large.result = .ok (.progress .noData) ∧
          (large.before.session.pending ++ large.received).length = header.total ∨
        large.result = .error .recvFailed ∧
          (large.before.session.pending ++ large.received).length < header.total)) ∧
      ∀ between s rest managed', later = between ++ s :: rest → s.call = .receive managed' →
        (∃ handled, List.Forall₂ Step.Passes between handled ∧
          between.flatMap Step.received ++ s.fetched = handled.flatten ++ s.seen) ∧
        ∀ packet υ, Session.Dispatches managed' packet s.before υ →
          ∃ more, packetsIn s.before.session.version s.seen = packet :: more := by
  subst hsteps
  have hfilled := filled_le_of_isRun hrun fun s hs => by
    obtain ⟨capacity, exchanges, version, settings, hcreate⟩ := hnew s hs
    rw [hcreate]
    exact Nat.zero_le _
  have hconnection : IsRun (large :: later) := (List.isChain_append.mp hrun).2.1
  obtain ⟨r, hreceive, hresult⟩ : ∃ r, (Session.receive managed).runOn large.before =
      some (r, large.after) ∧ large.result = r.map .progress := by
    obtain ⟨call, σ, r, τ, hperform⟩ := large
    cases hcall
    exact Act.runOn_bind_pure_inv hperform
  obtain ⟨hempty, calls, hcalls, -, hends⟩ :=
    Session.receive_oversized (hfilled large (by simp)) hlarge hreceive
  have hgone : large.received = MqttClient.received calls := by
    rw [Step.received, Step.calls_eq hcalls]
  have hhonest' := hhonest large (by simp)
  rw [Step.calls_eq hcalls] at hhonest'
  rw [hgone, hresult]
  refine ⟨(hends hhonest').imp_right ?_, ?_⟩
  · rintro (⟨rfl, hlength⟩ | ⟨rfl, hlength⟩)
    · exact .inl ⟨rfl, hlength⟩
    · exact .inr ⟨rfl, hlength⟩
  rintro between s rest managed' rfl hcall'
  have hs : s.before.session.filled ≤ s.before.session.capacity := hfilled s (by simp)
  refine ⟨?_, fun packet υ hdispatches => hdispatches.packetsIn_seen hs⟩
  obtain ⟨next, hnext⟩ : ∃ next, (between ++ [s]).head? = some next := by
    cases between <;> exact ⟨_, rfl⟩
  have hbetween : IsRun (large :: (between ++ [s])) := hconnection.infix ⟨[], rest, by simp⟩
  obtain ⟨hfollows, hbetween⟩ := List.isChain_cons.mp hbetween
  have hbefore : next.before.session = large.after.session := hfollows next hnext
  have hmem : next ∈ earlier ++ large :: (between ++ s :: rest) := by
    have := List.mem_of_mem_head? hnext
    simp only [List.mem_append, List.mem_singleton] at this
    rcases this with hbetween | rfl <;> simp [*]
  obtain ⟨-, handled, hhandled, heq⟩ := received_of_isRun hbetween hnext (hfilled next hmem)
    (fun t ht => hstays t (by simp [ht])) fun t ht => hhonest t (by simp [ht])
  refine ⟨handled, hhandled, ?_⟩
  rw [hbefore, hempty, List.nil_append] at heq
  rw [Step.seen_eq hcall' hs (hhonest s (by simp)), heq, List.append_assoc]

/-- A client with room for eight bytes receives a packet of twelve, whose last seven look like
another one, and a PINGRESP. What its reads do after connecting is given. -/
def cramped (reads : List Turn) : List (Step Scripted) :=
  stepsFrom
    { session := .create 8 (.empty 0 0) .v311 {}
      host := { host := {
        incoming := [0x20, 2, 0, 0, 0x30, 10, 0, 1, 97, 0x30, 5, 0, 1, 98, 104, 105, 0xD0, 0]
        reads := [.move 1, .move 1, .move 2] ++ reads
        ticks := List.replicate 8 1
        step := 10 } } }
    [.connect { clientId := "c" } 1000, .receive true, .receive true]

/-- When all of it can be read, it is dropped and the PINGRESP is next. -/
theorem run_drops_oversized_cramped :
    ∃ opened large answer, cramped [] = [opened, large, answer] ∧
      Session.Oversized true ⟨0x30, 10, 2⟩ large.before ∧
      large.result = .ok (.progress .noData) ∧
      (large.before.session.pending ++ large.received).length = 12 ∧
      answer.seen = [0xD0, 0] := by
  have hcalls : (cramped []).map (fun s => (s.call, s.result)) =
      [(.connect { clientId := "c" } 1000, .ok (.session false)),
        (.receive true, .ok (.progress .noData)),
        (.receive true, .ok (.progress (.packet 0xD0)))] := by decide +kernel
  have hlarge : (cramped []).map (fun s => Session.oversized? true s.before) =
      [none, some ⟨0x30, 10, 2⟩, none] := by decide +kernel
  have hreads : (cramped []).map (fun s => (decide (Honest s.calls), s.fetched)) =
      [(true, [0x20]), (true, [0x30, 10, 0, 1, 97, 0x30, 5, 0]), (true, [0xD0, 0])] := by
    decide +kernel
  obtain ⟨opened, _, hsteps, hopened, hcalls⟩ := List.map_eq_cons_iff.mp hcalls
  obtain ⟨large, _, rfl, hdropped, hcalls⟩ := List.map_eq_cons_iff.mp hcalls
  obtain ⟨answer, _, rfl, hanswer, hcalls⟩ := List.map_eq_cons_iff.mp hcalls
  cases List.map_eq_nil_iff.mp hcalls
  simp only [Prod.mk.injEq] at hopened hdropped hanswer
  simp only [hsteps, List.map_cons, List.map_nil, List.cons.injEq, Prod.mk.injEq,
    decide_eq_true_eq] at hlarge hreads
  have hrun : IsRun (cramped []) := isRun_stepsFrom _ _
  rw [hsteps] at hrun
  have hcreate : opened.before.session = .create 8 (.empty 0 0) .v311 {} := by
    rw [before_stepsFrom hsteps]
  have hnew : ∀ s ∈ [opened, large, answer].head?, ∃ capacity exchanges version settings,
      s.before.session = .create capacity exchanges version settings := by
    rintro s ⟨⟩
    exact ⟨8, .empty 0 0, .v311, {}, hcreate⟩
  have hoversized := Session.oversized_of_oversized? hlarge.2.1
  have hstays : ∀ s ∈ [answer], s.StaysConnected := by
    simp [Step.StaysConnected, Step.HangsUp, hanswer.1]
  obtain ⟨⟨-, hends⟩, hlater⟩ := run_drops_oversized hrun hnew
    (show [opened, large, answer] = [opened] ++ large :: [answer] from rfl) hdropped.1
    hoversized hstays (by simp [hreads.2.1.1, hreads.2.2.1.1])
  have hlength : (large.before.session.pending ++ large.received).length = 12 := by
    rcases hends with ⟨-, hlength⟩ | ⟨hfails, -⟩
    · exact hlength
    · cases hdropped.2.symm.trans hfails
  obtain ⟨⟨handled, hhandled, hseen⟩, -⟩ := hlater [] answer [] true rfl hanswer.1
  cases hhandled
  exact ⟨opened, large, answer, hsteps, hoversized, hdropped.2, hlength,
    hseen.symm.trans hreads.2.2.1.2⟩

/-- When reading pauses for too long after five bytes, the call fails, and the next one reports what
is left of the packet as a message. -/
theorem cramped_parses_rest :
    ∃ opened large next, cramped [.move 5, .move 0] = [opened, large, next] ∧
      Session.Oversized true ⟨0x30, 10, 2⟩ large.before ∧
      large.result = .error .recvFailed ∧ large.received = [0x30, 10, 0, 1, 97] ∧
      next.call = .receive true ∧ next.fetched = [0x30, 5, 0, 1, 98, 104, 105, 0xD0] ∧
      (reported next.calls).map Event.packet = [⟨⟨0x30, 5, 2⟩, [0, 1, 98, 104, 105]⟩] := by
  have hlarge : (cramped [.move 5, .move 0]).map (fun s => Session.oversized? true s.before) =
      [none, some ⟨0x30, 10, 2⟩, none] := by decide +kernel
  have hresults : (cramped [.move 5, .move 0]).map (fun s => (s.call, s.result)) =
      [(.connect { clientId := "c" } 1000, .ok (.session false)),
        (.receive true, .error .recvFailed),
        (.receive true, .ok (.progress (.packet 0x30)))] := by decide +kernel
  have hreads : (cramped [.move 5, .move 0]).map (fun s => (s.received, s.fetched)) =
      [([0x20, 2, 0, 0], [0x20]), ([0x30, 10, 0, 1, 97], [0x30, 10, 0, 1, 97]),
        ([0x30, 5, 0, 1, 98, 104, 105, 0xD0], [0x30, 5, 0, 1, 98, 104, 105, 0xD0])] := by
    decide +kernel
  have hreports : (cramped [.move 5, .move 0]).map (fun s =>
      (reported s.calls).map Event.packet) =
      [[], [], [⟨⟨0x30, 5, 2⟩, [0, 1, 98, 104, 105]⟩]] := by decide +kernel
  obtain ⟨opened, _, hsteps, -, hlarge'⟩ := List.map_eq_cons_iff.mp hlarge
  obtain ⟨large, _, rfl, -, hlarge'⟩ := List.map_eq_cons_iff.mp hlarge'
  obtain ⟨next, _, rfl, -, hlarge'⟩ := List.map_eq_cons_iff.mp hlarge'
  cases List.map_eq_nil_iff.mp hlarge'
  simp only [hsteps, List.map_cons, List.map_nil, List.cons.injEq, Prod.mk.injEq]
    at hlarge hresults hreads hreports
  exact ⟨opened, large, next, hsteps, Session.oversized_of_oversized? hlarge.2.1, hresults.2.1.2,
    hreads.2.1.1, hresults.2.2.1.1, hreads.2.2.1.2, hreports.2.2.1⟩

end MqttClient
