import Mathlib.Data.Nat.Notation
import MqttClient.Proofs.Keeping
import MqttClient.Session.Connecting

/-!
# Operations that only take bytes in

Filling the network buffer, dropping what does not fit in it and waiting for CONNACK are made of
a few steps: reads, looks at the clock, and changes of the buffer and of what has been negotiated.
A relation between scenes that is kept by each of them is kept by all of it (`Session.Inward`).
-/
namespace MqttClient.Session
variable {ω : Type} [Host ω]

/-- A relation that is kept by the steps of which taking bytes in is made. -/
structure Inward (R : Scene ω → Scene ω → Prop) : Prop where
  read : ∀ offset n, Act.Keeps R (Act.readInto offset n)
  now : Act.Keeps R Act.now
  header : ∀ version, Act.Keeps R (Act.host (Host.readHeader version))
  reset : Act.Keeps R (Act.change resetBuffer)
  blank : ∀ n, Act.Keeps R (Act.change fun s =>
    { s with buffer := List.replicate n 0 ++ s.buffer.drop n })
  negotiate : ∀ negotiated, Act.Keeps R (Act.change fun s => { s with negotiated })

/-- Connecting up to the point where the exchanges go on: whether the broker kept a session. -/
def handshake (c : Connect) (timeout : UInt32) : Act ω Bool := do
  let version := (← Act.session).version
  let negotiated ← Act.ofResult (requested version c)
  let size ← Act.ofResult (c.size version)
  Act.change fun s => { s.resetBuffer with negotiated }
  send (← Act.ofResult (c.spans version size))
  let present ← receiveConnack timeout
  Act.ofResult (Connack.checkSession c.cleanSession present)
  return present

/-- Take up the connection. -/
def establish (c : Connect) : Act ω Unit := do
  Act.change fun s => { s with
    status := .connected
    keepAlive := s.negotiated.serverKeepAlive.getD c.keepAlive
    awaitsPingresp := false
    pingSentAt := 0 }
  let now ← Act.now
  Act.change fun s => { s with lastTx := now, lastRx := now }

theorem connect_eq (c : Connect) (timeout : UInt32) :
    (connect c timeout : Act ω Bool) = (do
      let present ← handshake c timeout
      resume present
      establish c
      return present) := by
  simp only [connect, handshake, establish, bind_assoc, pure_bind]

theorem runOn_establish (c : Connect) (σ : Scene ω) :
    ∃ τ, (establish c).runOn σ = some (.ok (), τ) := ⟨_, rfl⟩

namespace Inward

theorem mono {R R' : Scene ω → Scene ω → Prop} (h : Inward R) (hR : ∀ σ τ, R σ τ → R' σ τ) :
    Inward R' where
  read offset n := (h.read offset n).mono hR
  now := h.now.mono hR
  header version := (h.header version).mono hR
  reset := h.reset.mono hR
  blank n := (h.blank n).mono hR
  negotiate negotiated := (h.negotiate negotiated).mono hR

variable {R : Scene ω → Scene ω → Prop} [IsPreorder (Scene ω) R]

/-! ## Filling and draining -/

theorem fillFrom (h : Inward R) (n length received : ℕ) (progress : UInt32) :
    Act.Keeps R (Session.fillFrom n length received progress) := by
  induction n generalizing received progress with
  | zero =>
    rw [Session.fillFrom]
    exact .ite (.pure _) .stall
  | succ n ih =>
    rw [Session.fillFrom]
    refine .ite (.pure _) <| (h.read _ _).bind fun count => h.now.bind fun now => ?_
    exact .ite (Act.Keeps.session.bind fun _ => .ite (.pure _) (ih _ _)) (ih _ _)

theorem fill (h : Inward R) (length : ℕ) : Act.Keeps R (Session.fill length) :=
  Act.Keeps.get.bind fun _ => h.now.bind fun _ => h.fillFrom _ _ _ _

theorem drain (h : Inward R) (n remaining : ℕ) : Act.Keeps R (Session.drain n remaining) := by
  induction n generalizing remaining with
  | zero =>
    rw [Session.drain]
    exact .ite (.pure _) .stall
  | succ n ih =>
    rw [Session.drain]
    exact .ite (.pure _) <| Act.Keeps.session.bind fun _ => (h.fill _).bind fun _ => .check (ih _)

theorem discard (h : Inward R) (remaining : ℕ) : Act.Keeps R (Session.discard remaining) :=
  (Act.Keeps.outcome <| Act.Keeps.session.bind fun _ => .check (h.drain _ _)).bind
    fun _ => h.reset.bind fun _ => .ofResult _

/-! ## Connecting -/

theorem connackOverdue (h : Inward R) (start timeout : UInt32) (attempts : ℕ) :
    Act.Keeps R (Session.connackOverdue start timeout attempts) :=
  .ite (h.now.bind fun _ => .pure _) (Act.Keeps.session.bind fun _ => .pure _)

theorem awaitHeader (h : Inward R) (n : ℕ) (start timeout : UInt32) (attempts : ℕ) :
    Act.Keeps R (Session.awaitHeader n start timeout attempts) := by
  induction n generalizing attempts with
  | zero => exact .stall
  | succ n ih =>
    rw [Session.awaitHeader]
    refine Act.Keeps.session.bind fun s => (h.header _).bind fun result => ?_
    split
    · exact .pure _
    · exact (h.connackOverdue _ _ _).bind fun _ => .check (ih _)
    · exact .throw _

theorem acceptConnack (h : Inward R) (header : Header) :
    Act.Keeps R (Session.acceptConnack header) :=
  Act.Keeps.session.bind fun _ => (h.negotiate _).bind fun _ =>
    (Act.Keeps.ofResult _).bind fun _ => (h.blank _).bind fun _ => .pure _

theorem receiveConnack (h : Inward R) (timeout : UInt32) :
    Act.Keeps R (Session.receiveConnack timeout) :=
  h.now.bind fun _ => Act.Keeps.get.bind fun _ => (h.awaitHeader _ _ _ _).bind fun _ => .check <|
    .ite ((h.discard _).bind fun _ => .throw_bind _ _)
      ((h.fill _).bind fun _ => .check (h.acceptConnack _))

theorem handshake (h : Inward R) (hsend : ∀ spans, Act.Keeps R (send spans)) (c : Connect)
    (timeout : UInt32) : Act.Keeps R (Session.handshake c timeout) := by
  have hbegin : ∀ negotiated, Act.Keeps R
      (Act.change fun s => { s.resetBuffer with negotiated } : Act ω Unit) := fun negotiated =>
    h.reset.bind fun _ => h.negotiate negotiated
  exact Act.Keeps.session.bind fun _ => (Act.Keeps.ofResult _).bind fun _ =>
    (Act.Keeps.ofResult _).bind fun _ => (hbegin _).bind fun _ =>
      (Act.Keeps.ofResult _).bind fun _ => (hsend _).bind fun _ =>
        (h.receiveConnack _).bind fun _ => (Act.Keeps.ofResult _).bind fun _ => .pure _

end Inward

end MqttClient.Session
