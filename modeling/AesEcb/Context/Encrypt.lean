import AesEcb.Process.Callback
import AesEcb.Region

/-!
# Encrypting with a context

Three ways to encrypt: a buffer in place, one buffer into another, and a region of one buffer
into a region of another.  All hand the bytes to the key of the context, in place without any
check and otherwise only whole blocks.
-/

namespace AesEcb

/-- How an encryption ends, and what its output buffer holds then. -/
structure Encryption where
  buffer : Bytes
  result : Outcome CipherError Nat

/-- The encryption that `x` refuses, with `buffer` unchanged, or else the one that follows. -/
def Encryption.afterCheck {ε α : Type} (x : Except CipherError α) (buffer : Bytes)
    (next : α → Action ε Encryption) : Action ε Encryption :=
  match x with
  | .ok a => next a
  | .error e => pure ⟨buffer, .error e⟩

namespace Context

variable {ε : Type}

/-- Has the key encrypt `data`.  The buffer holds what the key leaves there, even if it fails.
The context of `running` is in use by a running call. -/
def encryptInPlace (running : Option Reference) (c : Context) (data : Bytes) :
    Action ε Encryption := do
  Action.diagnose (.encrypting data.length)
  Action.cross (.transformAsked c.owner data)
  let t := c.key.transform data
  runCallbacks running t.callbacks
  return ⟨t.left, t.outcome⟩

/-- Encrypts `input` into a buffer of the same length, which changes only on success. -/
def encrypt (c : Context) (input output : Bytes) : Action ε Encryption :=
  if input.length ≠ output.length then
    pure ⟨output, .error (.lengthMismatch input.length output.length)⟩
  else
    Encryption.afterCheck (checkAligned input.length) output fun _ ↦ do
      let e ← c.encryptInPlace none input
      return { e with buffer := if e.result.isOk then e.buffer else output }

def encryptRegion (c : Context) (input : Bytes) (inOffset length : Nat) (output : Bytes)
    (outOffset : Nat) : Action ε Encryption :=
  Encryption.afterCheck ((Region.mk inOffset length).slice input) output fun source ↦
    let target := Region.mk outOffset length
    Encryption.afterCheck (target.slice output) output fun old ↦ do
      let e ← c.encrypt source old
      return { e with buffer := target.replace output e.buffer }

end Context

end AesEcb
