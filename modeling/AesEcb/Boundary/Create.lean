import AesEcb.Boundary.Contain
import AesEcb.Boundary.Memory
import AesEcb.Factory

/-!
# Creating a context behind a handle

The context comes from the cipher factory and goes into the registry.  No handle is issued
unless everything succeeds, and where no handle is free the search for one never ends.
-/

namespace AesEcb.Boundary

/-- Binds the context to a fresh handle. -/
def issue? (c : Context) (p : Process) : Option (Run BoundaryError Handle) :=
  (p.handles.insert? c).map fun (h, t) ↦
    ⟨.ok h, [.diagnostic (.handleIssued h)], { p with handles := t }⟩

variable [LinkedCipher] {ε : Type}

/-- A new context with the key in a region of the caller's memory.  An override is asked for it by
`ask`. -/
def acquireBy (ask : Override → Bytes → Action Empty (Option Context)) (key : Pointer)
    (offset length : Int32) : Action BoundaryError Context := do
  let r ← region offset length
  let _ ← Action.ofExcept ((KeySize.ofLength r.length).mapError .cipher)
  let bytes ← Action.ofExcept (view .key key r (← Action.state).memory)
  (Factory.requestBy ask bytes r.offset r.length).mapError .cipher

/-- A handle for a new context, or the null handle; `none` if the call never returns. -/
def createBy (ask : Override → Bytes → Action Empty (Option Context)) (key : Pointer)
    (offset length : Int32) (p : Process) : Option (Run ε Handle) :=
  ((acquireBy ask key offset length p).andThen? issue?).map (Run.contained .create .null)

def create (key : Pointer) (offset length : Int32) (p : Process) : Option (Run ε Handle) :=
  createBy Override.ask key offset length p

end AesEcb.Boundary
