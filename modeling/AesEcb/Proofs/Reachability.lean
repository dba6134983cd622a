import AesEcb.Proofs.Containment

/-!
# The states of a session

A session starts with a fresh process, and goes on by its steps.  In between the caller does with
its buffers what it likes.  In no state that arises like this does the null handle refer to a
context.
-/

namespace AesEcb

/-- No context is bound to the null handle. -/
def Process.NullFree (p : Process) : Prop := p.handles.get? .null = none

/-- Calls back into the library release handles, but they bind none. -/
theorem Process.Called.nullFree {p p' : Process} {cs : List Callback} (h : p.Called cs p')
    (hp : p.NullFree) : p'.NullFree := by
  rw [NullFree, h.get?_eq]
  split
  · rfl
  · exact hp

namespace Action

variable {ε α β : Type} {x : Action ε α}

/-- The action binds no context to the null handle. -/
def SparesNull (x : Action ε α) : Prop := ∀ p : Process, p.NullFree → (x p).process.NullFree

namespace SparesNull

theorem of_handles (h : ∀ p, (x p).process.handles = p.handles) : SparesNull x := by
  intro p hp
  rw [Process.NullFree, h]
  exact hp

theorem of_called (h : ∀ p : Process, ∃ cs, p.Called cs (x p).process) : SparesNull x := by
  intro p hp
  obtain ⟨cs, hcalled⟩ := h p
  exact hcalled.nullFree hp

theorem finish (o : Outcome ε α) : SparesNull (finish o) := of_handles fun _ ↦ rfl

theorem bind {f : α → Action ε β} (hx : SparesNull x) (hf : ∀ a, SparesNull (f a)) :
    SparesNull (x >>= f) := by
  intro p hp
  have hfirst := hx p hp
  cases hrun : (x p).outcome with
  | ok a =>
    rw [bind_run, Run.andThen_of_ok hrun]
    exact hf a _ hfirst
  | error e =>
    simp only [bind_run, Run.andThen, hrun]
    exact hfirst
  | panicked =>
    simp only [bind_run, Run.andThen, hrun]
    exact hfirst

end SparesNull

end Action

section Actions

variable {ε : Type}

theorem Context.encryptInPlace_sparesNull (c : Context) (data : Bytes) :
    Action.SparesNull (c.encryptInPlace none data : Action ε Encryption) := by
  apply Action.SparesNull.of_called
  intro p
  rw [encryptInPlace_run]
  exact ⟨_, runCallbacks_called none _ p⟩

theorem Boundary.encrypt_called (h : Handle) (input : Pointer) (inOffset length : Int32)
    (output : Pointer) (outOffset : Int32) (p : Process) :
    p.Called (callsOnEncrypt p h input inOffset length outOffset)
      ((encrypt h input inOffset length output outOffset : Action ε Int32) p).process := by
  rw [encrypt_run, callsOnEncrypt]
  cases p.handles.get? h with
  | none => exact .refl p
  | some c =>
    simp only [encryptWith_run]
    cases arguments p.memory input inOffset length outOffset with
    | error e => exact .refl p
    | ok named =>
      obtain ⟨target, data⟩ := named
      simp only [Context.encryptInPlace_run]
      have hcalled := runCallbacks_called (ε := Empty) (some ⟨h, c.owner⟩)
        (c.key.transform data).callbacks p
      exact ⟨hcalled.entries_eq, hcalled.nextId_eq, hcalled.defaultEngine_eq, hcalled.override_eq⟩

theorem Boundary.encrypt_sparesNull (h : Handle) (input : Pointer) (inOffset length : Int32)
    (output : Pointer) (outOffset : Int32) :
    Action.SparesNull (encrypt h input inOffset length output outOffset : Action ε Int32) :=
  .of_called fun p ↦ ⟨_, encrypt_called h input inOffset length output outOffset p⟩

theorem Boundary.release_sparesNull (h : Handle) :
    Action.SparesNull (release none h : Action ε Unit) :=
  .of_called fun p ↦ ⟨_, (Callback.release h).run_called none p⟩

variable [LinkedCipher]

theorem Context.ofProvider_sparesNull (provider : Provider) (key : Bytes) :
    Action.SparesNull (ofProvider provider key) :=
  .of_called fun p ↦ ⟨_, ofProvider_called provider key p⟩

theorem Context.ofConfig_sparesNull (config : Configuration) (key : Bytes)
    (offset length : Nat) : Action.SparesNull (ofConfig config key offset length) :=
  .of_called fun p ↦ ⟨_, ofConfig_called config key offset length p⟩

theorem Factory.request_sparesNull (key : Bytes) (offset length : Nat) :
    Action.SparesNull (request key offset length) :=
  .of_called (request_called key offset length)

/-- A handle that is issued is not the null handle. -/
theorem Boundary.create_nullFree {key : Pointer} {offset length : Int32} {p : Process}
    {r : Run ε Handle} (hr : create key offset length p = some r) (hp : p.NullFree) :
    r.process.NullFree := by
  have hacquired := (acquire_called key offset length p).nullFree hp
  rcases createBy_cases hr with ⟨c, h, u, -, hins, rfl⟩ | ⟨-, rfl⟩
  · obtain ⟨hfresh, -, -⟩ := Registry.insert?_eq_some_iff.1 hins
    have hne : Handle.null ≠ h := (Registry.isFree_of_fresh? hfresh).1.symm
    rw [Process.NullFree, Registry.get?_of_insert? hins, if_neg hne]
    exact hacquired
  · exact hacquired

end Actions

namespace Session

variable {s : Session}

theorem process_openSlot (s : Session) (x : Action CipherError Context) :
    (s.openSlot x).session.process = (x s.process).process := by
  simp only [openSlot]
  split
  · rfl
  · rfl

theorem openSlot_nullFree {x : Action CipherError Context} (hx : Action.SparesNull x)
    (hs : s.process.NullFree) : (s.openSlot x).session.process.NullFree := by
  rw [process_openSlot]
  exact hx _ hs

theorem useSlot_nullFree {x : Context → Action CipherError Encryption}
    (hx : ∀ c, Action.SparesNull (x c)) (slot : Nat) (output : String) (hs : s.process.NullFree) :
    (s.useSlot slot output x).session.process.NullFree := by
  rw [useSlot]
  cases s.context? slot with
  | none => exact hs
  | some c =>
    refine Action.SparesNull.bind (hx c) (fun e ↦ ?_) s.process hs
    exact Action.SparesNull.bind (.of_handles fun _ ↦ rfl) fun _ ↦ .finish _

variable [LinkedCipher]

theorem step_nullFree (x : Step) (hs : s.process.NullFree) :
    (s.step x).session.process.NullFree := by
  cases x with
  | openKey key => exact openSlot_nullFree (Context.ofConfig_sparesNull _ _ _ _) hs
  | openRegion key offset length =>
    exact openSlot_nullFree (Context.ofConfig_sparesNull _ _ _ _) hs
  | openOn config key offset length =>
    exact openSlot_nullFree (Context.ofConfig_sparesNull _ _ _ _) hs
  | openWith provider key => exact openSlot_nullFree (Context.ofProvider_sparesNull _ _) hs
  | request key offset length => exact openSlot_nullFree (Factory.request_sparesNull _ _ _) hs
  | encryptRegion slot input inOffset length output outOffset =>
    refine useSlot_nullFree (fun c ↦ ?_) _ _ hs
    exact Context.encryptRegion_induction (P := Action.SparesNull) _ _ _ _ _ (fun _ ↦ .finish _)
      c.encryptInPlace_sparesNull fun _ _ hx ↦ hx.bind fun _ ↦ .finish _
  | encrypt slot input output =>
    refine useSlot_nullFree (fun c ↦ ?_) _ _ hs
    exact Context.encrypt_induction (P := Action.SparesNull) _ _ (fun _ ↦ .finish _)
      c.encryptInPlace_sparesNull fun _ _ hx ↦ hx.bind fun _ ↦ .finish _
  | encryptInPlace slot output =>
    exact useSlot_nullFree (fun c ↦ c.encryptInPlace_sparesNull _) _ _ hs
  | release slot =>
    simp only [step]
    cases s.context? slot with
    | none => exact hs
    | some c => exact hs
  | setDefault engine => exact hs
  | setOverride o => exact hs
  | getDefault => exact hs
  | handleCreate key offset length =>
    simp only [step]
    cases hcreate : Boundary.create key offset length s.process with
    | none => exact hs
    | some r => exact Boundary.create_nullFree hcreate hs
  | handleEncrypt h input inOffset length output outOffset =>
    exact Boundary.encrypt_sparesNull (ε := CipherError) h input inOffset length output outOffset _
      hs
  | handleRelease h => exact Boundary.release_sparesNull (ε := CipherError) h _ hs

/-- The states of a session. -/
inductive Reachable : Session → Prop
  | start (m : Memory) : Reachable { process := { memory := m } }
  | step {s : Session} (hs : Reachable s) (x : Step) : Reachable (s.step x).session
  /-- Between two calls the caller may write to its buffers. -/
  | write {s : Session} (hs : Reachable s) (m : Memory) : Reachable (s.withMemory m)

/-- In no state of a session is a context bound to the null handle. -/
theorem Reachable.nullFree (hs : s.Reachable) : s.process.NullFree := by
  induction hs with
  | start m => rfl
  | step hs x ih => exact step_nullFree x ih
  | write hs m ih => exact ih

end Session

end AesEcb
