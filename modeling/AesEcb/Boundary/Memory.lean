import AesEcb.Process.Action
import AesEcb.Region

/-!
# Reading and writing the caller's memory

A call sees the part of a buffer that its region reaches into, from the first byte to the end of
the region.  The caller promises that the buffer is that long.
-/

namespace AesEcb.Boundary

/-- No buffer has as many bytes as this. -/
def bufferLimit : Nat := 0x8000000000000000

def region (offset length : Int32) : Action BoundaryError Region :=
  .ofExcept ((Region.ofSigned offset length).mapError .cipher)

/-- The number of bytes up to the end of the region. -/
def span (r : Region) : Except BoundaryError Nat :=
  match r.stop? with
  | none => .error (.spanOverflow r.offset r.length)
  | some stop => if stop < bufferLimit then .ok stop else .error (.spanTooLarge stop)

/-- The bytes behind a pointer up to the end of `r`; there are none behind a null pointer. -/
def view (what : Pointed) (pointer : Pointer) (r : Region) (m : Memory) :
    Except BoundaryError Bytes :=
  match pointer with
  | none => .error (.nullPointer what)
  | some name => (span r).map (m name).take

def load (what : Pointed) (pointer : Pointer) (r : Region) : Action BoundaryError Bytes := do
  let bytes ← Action.ofExcept (view what pointer r (← Action.state).memory)
  Action.ofExcept ((r.slice bytes).mapError .cipher)

/-- Puts `data` in the place of the bytes of `r`. -/
def store (what : Pointed) (pointer : Pointer) (r : Region) (data : Bytes) :
    Action BoundaryError Unit := do
  let bytes ← Action.ofExcept (view what pointer r (← Action.state).memory)
  Action.ofExcept ((r.check bytes.length).mapError .cipher)
  Action.modify fun p ↦
    match pointer with
    | none => p
    | some name => { p with memory := p.memory.write name (r.replace (p.memory name) data) }

end AesEcb.Boundary
