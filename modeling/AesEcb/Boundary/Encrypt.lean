import AesEcb.Boundary.Memory
import AesEcb.Boundary.Contain
import AesEcb.Context.Encrypt

/-!
# Encrypting through a handle

The input is copied out before anything is written, so the two regions may overlap.  The output
is written once the key has succeeded, and before the byte count is looked at.
-/

namespace AesEcb.Boundary

/-- No signed 32-bit integer counts as far as this. -/
def countLimit : Nat := 0x80000000

/-- The count as a signed 32-bit integer. -/
def signedCount (count : Nat) : Except BoundaryError Int32 :=
  if count < countLimit then .ok (Int32.ofNat count) else .error (.spanTooLarge count)

/-- Has `transform` encrypt the input region, and writes what it leaves to the output region. -/
def encryptWith (transform : Bytes → Action Empty Encryption) (input : Pointer)
    (inOffset length : Int32) (output : Pointer) (outOffset : Int32) :
    Action BoundaryError Int32 := do
  let source ← region inOffset length
  let target ← region outOffset length
  let data ← load .input input source
  let e ← .ofInfallible (transform data)
  let count ← (Action.finish e.result).mapError .cipher
  store .output output target e.buffer
  Action.ofExcept (signedCount count)

/-- Encrypts with the context that `h` refers to, by having `transform` use it. -/
def encryptBy {ε : Type} (transform : Reference → Context → Bytes → Action Empty Encryption)
    (h : Handle) (input : Pointer) (inOffset length : Int32) (output : Pointer)
    (outOffset : Int32) : Action ε Int32 :=
  contain .encrypt 0 do
    match (← Action.state).handles.get? h with
    | none => Action.fail .invalidHandle
    | some c =>
      (encryptWith (transform ⟨h, c.owner⟩ c) input inOffset length output outOffset).atExit
        fun _ p ↦ p.dropped none h c

/-- Encrypts a region of the caller's memory into another, and returns the byte count, or zero.
A context whose handle is released in the course of the call is given up at its end. -/
def encrypt {ε : Type} (h : Handle) (input : Pointer) (inOffset length : Int32)
    (output : Pointer) (outOffset : Int32) : Action ε Int32 :=
  encryptBy (fun running c ↦ c.encryptInPlace (some running)) h input inOffset length output
    outOffset

end AesEcb.Boundary
