import AesEcb.Text.Quoted

/-!
# Why a call fails

`CipherError` holds the causes that creating or using a cipher can report, `BoundaryError`
those of the calls made through handles and raw pointers.  `message` is the text meant for
people, `debug` the text that shows the value itself.
-/

namespace AesEcb

/-- The two signed arguments that describe a region. -/
inductive Argument where
  | offset
  | length
deriving DecidableEq, Repr

def Argument.name : Argument → String
  | .offset => "offset"
  | .length => "length"

inductive CipherError where
  /-- A key has 16, 24 or 32 bytes. -/
  | invalidKeyLength (length : Nat)
  | negativeArgument (what : Argument) (value : Int)
  /-- The region ends beyond its buffer, or beyond the address space. -/
  | outOfBounds (offset length bufferLength : Nat)
  | lengthMismatch (input output : Nat)
  | unalignedInput (length : Nat)
  | emptyInput
  /-- The provider refused the key or failed to encrypt. -/
  | provider (name reason : String)
deriving DecidableEq, Repr

namespace CipherError

def message : CipherError → String
  | invalidKeyLength n => s!"invalid AES key length {n} (expected 16, 24 or 32)"
  | negativeArgument what value => s!"negative {what.name}: {value}"
  | outOfBounds offset length size =>
    s!"region {offset}..{offset}+{length} exceeds buffer of {size} bytes"
  | lengthMismatch input output =>
    s!"output length ({output}) does not match input length ({input})"
  | unalignedInput n => s!"input length {n} is not a multiple of the 16-byte AES block"
  | emptyInput => "input is empty"
  | provider name reason => s!"provider {name}: {reason}"

def debug : CipherError → String
  | invalidKeyLength n => s!"InvalidKeyLength({n})"
  | negativeArgument what value =>
    s!"NegativeArgument \x7b what: {Text.quoted what.name}, value: {value} \x7d"
  | outOfBounds offset length size =>
    s!"OutOfBounds \x7b offset: {offset}, len: {length}, buffer_len: {size} \x7d"
  | lengthMismatch input output => s!"LengthMismatch \x7b input: {input}, output: {output} \x7d"
  | unalignedInput n => s!"UnalignedInput({n})"
  | emptyInput => "EmptyInput"
  | provider name reason =>
    s!"Provider \x7b provider: {Text.quoted name}, reason: {Text.quoted reason} \x7d"

/-- The name of the cause, without its values. -/
def kind : CipherError → String
  | invalidKeyLength _ => "InvalidKeyLength"
  | negativeArgument _ _ => "NegativeArgument"
  | outOfBounds _ _ _ => "OutOfBounds"
  | lengthMismatch _ _ => "LengthMismatch"
  | unalignedInput _ => "UnalignedInput"
  | emptyInput => "EmptyInput"
  | provider _ _ => "Provider"

end CipherError

/-- The pointers that a call may be given as null. -/
inductive Pointed where
  | key
  | input
  | output
deriving DecidableEq, Repr

def Pointed.name : Pointed → String
  | .key => "key"
  | .input => "input"
  | .output => "output"

inductive BoundaryError where
  | nullPointer (what : Pointed)
  | invalidHandle
  /-- The region ends beyond the address space. -/
  | spanOverflow (offset length : Nat)
  /-- The bytes up to the end of a region are more than any buffer has, or the bytes that were
  encrypted are more than a signed 32-bit integer counts. -/
  | spanTooLarge (size : Nat)
  | cipher (cause : CipherError)
deriving DecidableEq, Repr

def BoundaryError.message : BoundaryError → String
  | .nullPointer what => s!"null {what.name} pointer"
  | .invalidHandle => "handle does not refer to a live context"
  | .spanOverflow offset length => s!"region {offset}+{length} overflows the address space"
  | .spanTooLarge n => s!"buffer span of {n} bytes is too large"
  | .cipher cause => cause.message

end AesEcb
