import AesEcb.Provider.BuiltIn

/-!
# Scripted providers and overrides

Providers and overrides that follow a script.  The scripted key adds a fixed byte to every byte
it is given.  By its script a provider may refuse keys, fail, panic, report a count of its own or
release a handle while it encrypts.
-/

namespace AesEcb

inductive PanicPoint where
  | onImport
  | onEncrypt
deriving DecidableEq, Repr

structure ProviderScript where
  name : String
  /-- The byte that is added to every byte. -/
  mask : UInt8 := 0
  /-- The reason to refuse every key. -/
  refuse? : Option String := none
  /-- The reason to fail every encryption. -/
  fail? : Option String := none
  /-- The count to report in the place of the right one. -/
  written? : Option Nat := none
  /-- The size to report in the place of the one the key length gives. -/
  size? : Option KeySize := none
  panicAt? : Option PanicPoint := none
  /-- The handle to release while encrypting. -/
  release? : Option Handle := none

namespace ProviderScript

def transform (s : ProviderScript) (data : Bytes) : Transformation where
  left := data.map (· ^^^ s.mask)
  callbacks := s.release?.toList.map .release
  outcome :=
    if s.panicAt? = some .onEncrypt then .panicked
    else match s.fail? with
      | some reason => .error (.provider s.name reason)
      | none => .ok (s.written?.getD data.length)

def importedKey (s : ProviderScript) (size : KeySize) : ImportedKey where
  size := s.size?.getD size
  transform := s.transform
  length_left data := by simp [transform]

def onImport (s : ProviderScript) (key : Bytes) : Reaction ImportedKey where
  outcome :=
    if s.panicAt? = some .onImport then .panicked
    else match s.refuse? with
      | some reason => .error (.provider s.name reason)
      | none => (Outcome.ofExcept (KeySize.ofLength key.length)).map s.importedKey

def provider (s : ProviderScript) : Provider := .foreign s.name s.onImport

end ProviderScript

structure OverrideScript where
  provider : Provider
  /-- The key lengths to answer; every length where there is no list. -/
  lengths? : Option (List Nat) := none
  /-- The default provider to set before anything else. -/
  setDefault? : Option Engine := none
  /-- Whether to remove the override. -/
  clears : Bool := false
  panics : Bool := false

namespace OverrideScript

def callbacks (s : OverrideScript) : List Callback :=
  s.setDefault?.toList.map .setDefault ++ if s.clears then [.clearOverride] else []

def answers (s : OverrideScript) (length : Nat) : Bool :=
  s.lengths?.all (length ∈ ·)

def react (s : OverrideScript) (key : Bytes) : OverrideReaction :=
  if s.panics then { deeds := s.callbacks.map .call, answer := .panic }
  else if s.answers key.length then .offer s.callbacks s.provider key
  else { deeds := s.callbacks.map .call, answer := .decline }

/-- The override that follows a script; it takes no account of the default provider. -/
def override (s : OverrideScript) : Override where
  react key _ := s.react key

end OverrideScript

end AesEcb
