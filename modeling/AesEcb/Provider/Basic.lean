import AesEcb.Aes.Key
import AesEcb.Handle.Basic

/-!
# Providers

A provider imports key bytes, and an imported key encrypts buffers.  Of a provider from outside
nothing is known but what it does when it is called: which calls it makes back into the library,
in which order, and how it ends.  A `Reaction` records just that.
-/

namespace AesEcb

inductive Outcome (ε α : Type) where
  | ok (value : α)
  | error (cause : ε)
  | panicked
deriving DecidableEq, Repr

namespace Outcome

variable {ε ε' α β : Type}

def ofExcept : Except ε α → Outcome ε α
  | .ok a => ok a
  | .error e => error e

def map (f : α → β) : Outcome ε α → Outcome ε β
  | ok a => ok (f a)
  | error e => error e
  | panicked => panicked

def mapError (f : ε → ε') : Outcome ε α → Outcome ε' α
  | ok a => ok a
  | error e => error (f e)
  | panicked => panicked

def isPanicked : Outcome ε α → Bool
  | panicked => true
  | _ => false

def isOk : Outcome ε α → Bool
  | ok _ => true
  | _ => false

@[simp] theorem isOk_mapError (f : ε → ε') (o : Outcome ε α) : (o.mapError f).isOk = o.isOk := by
  cases o with
  | ok a => rfl
  | error e => rfl
  | panicked => rfl

end Outcome

/-- The engines that the library brings along. -/
inductive Engine where
  /-- Looks substitutions up in a table. -/
  | software
  /-- Leaves the block cipher to a library that is linked in. -/
  | linked
deriving DecidableEq, Repr

namespace Engine

def name : Engine → String
  | software => "software"
  | linked => "rustcrypto"

def ofName? : String → Option Engine
  | "software" => some software
  | "rustcrypto" => some linked
  | _ => none

def debug : Engine → String
  | software => "Software"
  | linked => "RustCrypto"

/-- How a provider shows itself that is opened on this engine. -/
def providerDebug (k : Engine) : String := k.debug ++ "Provider"

instance : Inhabited Engine := ⟨software⟩

end Engine

/-- A call that outside code makes back into the library while it is being called. -/
inductive Callback where
  | release (handle : Handle)
  | setDefault (engine : Engine)
  | clearOverride
deriving DecidableEq, Repr

/-- What outside code does when it is called: the calls it makes, and how it ends. -/
structure Reaction (α : Type) where
  callbacks : List Callback := []
  outcome : Outcome CipherError α

/-- What an imported key does with a buffer: the bytes it leaves there, the calls it makes, and
the byte count, error or panic it ends with. -/
structure Transformation extends Reaction Nat where
  left : Bytes

structure ImportedKey where
  size : KeySize
  transform : Bytes → Transformation
  /-- A buffer keeps its length, however the call ends. -/
  length_left : ∀ data, (transform data).left.length = data.length

inductive Provider where
  | builtIn (engine : Engine)
  /-- A provider from outside, by its name and what it does with key bytes.  To tell its name, and
  to be destroyed or have its key destroyed, is taken neither to panic nor to call back. -/
  | foreign (label : String) (onImport : Bytes → Reaction ImportedKey)

def Provider.name : Provider → String
  | builtIn engine => engine.name
  | foreign label _ => label

def Provider.isBuiltIn : Provider → Bool
  | builtIn _ => true
  | foreign _ _ => false

/-- One of the things that an override does before it answers.  The contexts that it opens are its
own, and stand in a list with the latest first. -/
inductive Deed where
  | call (c : Callback)
  /-- Opens a context, or goes on without where that fails. -/
  | opens (provider : Provider) (key : Bytes)
  /-- Gives up the context in the given place, if there is one. -/
  | drops (place : Nat)

/-- What an override makes of a request for a cipher.  Whatever it still owns and does not hand over
is given up. -/
inductive Answer where
  | panic
  /-- Leaves the request to the default provider. -/
  | decline
  /-- Hands over the context in the given place, and declines if there is none. -/
  | hands (place : Nat)

structure OverrideReaction where
  deeds : List Deed := []
  answer : Answer

/-- Makes the calls, and then opens a context and hands it over. -/
def OverrideReaction.offer (callbacks : List Callback) (provider : Provider) (key : Bytes) :
    OverrideReaction where
  deeds := callbacks.map .call ++ [.opens provider key]
  answer := .hands 0

/-- A replacement for the cipher factory.  It sees the key bytes and the default provider. -/
structure Override where
  react : Bytes → Engine → OverrideReaction

end AesEcb
