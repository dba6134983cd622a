/-!
# Handles

A handle is a 64-bit number that stands for a context.  Zero stands for none.
-/

namespace AesEcb

structure Handle where
  id : UInt64
deriving DecidableEq, Repr

namespace Handle

/-- The handle that never refers to a context. -/
def null : Handle := ⟨0⟩

instance : Inhabited Handle := ⟨null⟩

def isNull (h : Handle) : Bool := h.id == 0

def debug (h : Handle) : String := s!"EcbHandle({h.id.toNat})"

theorem isNull_iff {h : Handle} : h.isNull = true ↔ h = null := by
  cases h
  simp [isNull, null]

end Handle

end AesEcb
