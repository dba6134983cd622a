import AesEcb.Boundary.Create
import AesEcb.Boundary.Encrypt

/-!
# Sessions

A session is a process together with the contexts that its caller holds itself, one slot for
each context that was opened.  `Session.step` carries out one step and `Session.run` a list.
-/

namespace AesEcb

/-- One call of a caller.  Buffers go by name, contexts of its own by slot. -/
inductive Step where
  | openKey (key : String)
  | openRegion (key : String) (offset length : Nat)
  | openOn (config : Configuration) (key : String) (offset length : Nat)
  | openWith (provider : Provider) (key : String)
  | request (key : String) (offset length : Nat)
  | encryptRegion (slot : Nat) (input : String) (inOffset length : Nat) (output : String)
      (outOffset : Nat)
  | encrypt (slot : Nat) (input output : String)
  | encryptInPlace (slot : Nat) (output : String)
  | release (slot : Nat)
  | setDefault (engine : Engine)
  | setOverride (o : Option Override)
  | getDefault
  | handleCreate (key : Pointer) (offset length : Int32)
  | handleEncrypt (handle : Handle) (input : Pointer) (inOffset length : Int32)
      (output : Pointer) (outOffset : Int32)
  | handleRelease (handle : Handle)

inductive Reply where
  | opened (slot : Nat) (context : Context)
  | counted (count : Nat)
  | done
  | defaultIs (engine : Engine)
  | handle (h : Handle)
  | signed (count : Int32)
  | failed (cause : CipherError)
  | panicked
  /-- The slot holds no context. -/
  | noContext
  /-- The call does not return. -/
  | unending

def Reply.ends : Reply → Bool
  | unending => false
  | _ => true

structure Session where
  process : Process := {}
  /-- The contexts opened so far, without those that were released. -/
  slots : List (Option Context) := []

structure Session.Result where
  reply : Reply
  trace : Trace
  session : Session

namespace Session

def context? (s : Session) (slot : Nat) : Option Context := s.slots[slot]?.join

/-- The session goes on where the run has left the process. -/
def conclude {α : Type} (s : Session) (r : Run CipherError α) (reply : α → Reply) : Result where
  reply :=
    match r.outcome with
    | .ok a => reply a
    | .error e => .failed e
    | .panicked => .panicked
  trace := r.trace
  session := { s with process := r.process }

def perform {α : Type} (s : Session) (x : Action CipherError α) (reply : α → Reply) : Result :=
  s.conclude (x s.process) reply

/-- The result that there is when the call never returns: nothing comes of it. -/
def unending (s : Session) : Result := ⟨.unending, [], s⟩

/-- Opens a context and puts it into the next slot. -/
def openSlot (s : Session) (x : Action CipherError Context) : Result :=
  let r := s.perform x (.opened s.slots.length)
  match r.reply with
  | .opened _ c => { r with session := { r.session with slots := s.slots ++ [some c] } }
  | _ => r

/-- Encrypts with the context in a slot and writes the output buffer back. -/
def useSlot (s : Session) (slot : Nat) (output : String)
    (x : Context → Action CipherError Encryption) : Result :=
  match s.context? slot with
  | none => ⟨.noContext, [], s⟩
  | some c => s.perform (writeBack c) .counted
where
  /-- Encrypts, writes the buffer, and ends as the encryption does. -/
  writeBack (c : Context) : Action CipherError Nat := do
    let e ← x c
    Action.modify fun p ↦ { p with memory := p.memory.write output e.buffer }
    Action.finish e.result

variable [LinkedCipher]

def step (s : Session) : Step → Result
  | .openKey key => s.openSlot (Context.ofKey (s.process.memory key))
  | .openRegion key offset length =>
    s.openSlot (Context.create (s.process.memory key) offset length)
  | .openOn config key offset length =>
    s.openSlot (Context.ofConfig config (s.process.memory key) offset length)
  | .openWith provider key => s.openSlot (Context.ofProvider provider (s.process.memory key))
  | .request key offset length =>
    s.openSlot (Factory.request (s.process.memory key) offset length)
  | .encryptRegion slot input inOffset length output outOffset =>
    s.useSlot slot output fun c ↦
      c.encryptRegion (s.process.memory input) inOffset length (s.process.memory output) outOffset
  | .encrypt slot input output =>
    s.useSlot slot output fun c ↦ c.encrypt (s.process.memory input) (s.process.memory output)
  | .encryptInPlace slot output =>
    s.useSlot slot output fun c ↦ c.encryptInPlace none (s.process.memory output)
  | .release slot =>
    match s.context? slot with
    | none => ⟨.noContext, [], s⟩
    | some c => ⟨.done, c.teardown, { s with slots := s.slots.set slot none }⟩
  | .setDefault engine => s.perform (changeDefault engine) fun _ ↦ .done
  | .setOverride o => s.perform (installOverride o) fun _ ↦ .done
  | .getDefault => s.perform .state fun p ↦ .defaultIs p.defaultEngine
  | .handleCreate key offset length =>
    match Boundary.create key offset length s.process with
    | some r => s.conclude r .handle
    | none => s.unending
  | .handleEncrypt h input inOffset length output outOffset =>
    s.perform (Boundary.encrypt h input inOffset length output outOffset) .signed
  | .handleRelease h => s.perform (Boundary.release none h) fun _ ↦ .done

/-- The results of the steps, each from the session that the one before it left.  After a step that
does not come to an end there is no other. -/
def run (s : Session) : List Step → List Result
  | [] => []
  | x :: xs =>
    let r := s.step x
    if r.reply.ends then r :: run r.session xs else []

/-- The session after the steps, up to one that does not come to an end. -/
def after (s : Session) : List Step → Session
  | [] => s
  | x :: xs =>
    let r := s.step x
    if r.reply.ends then r.session.after xs else s

end Session

end AesEcb
