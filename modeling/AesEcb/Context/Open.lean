import AesEcb.Process.Callback
import AesEcb.Region

/-!
# Opening contexts

A context is opened by handing a provider over and having it import the key.  Whatever has been
acquired by then is given up again when that fails.
-/

namespace AesEcb

structure Configuration where
  engine : Engine := .software
deriving DecidableEq, Repr

def Configuration.debug (c : Configuration) : String :=
  s!"CipherConfig \x7b provider: {c.engine.debug} \x7d"

/-- Gives the provider its serial number. -/
def Provider.receive {ε : Type} (provider : Provider) : Action ε Instance := do
  let owner : Instance :=
    { serial := (← Action.state).nextSerial
      name := provider.name
      builtIn := provider.isBuiltIn }
  Action.modify fun p ↦ { p with nextSerial := p.nextSerial + 1 }
  Action.cross (.providerReceived owner)
  return owner

variable [LinkedCipher]

namespace Context

/-- Has `provider` import `key`.  If it cannot, it is destroyed. -/
def importKey (owner : Instance) (provider : Provider) (key : Bytes) :
    Action CipherError Context := do
  let _ ← Action.ofExcept (KeySize.ofLength key.length)
  Action.cross (.importAsked owner key)
  let handle ← (provider.importKey key).run none
  Action.cross (.keyReceived owner)
  Action.diagnose (.contextOpened owner.name handle.size)
  return { owner, key := handle }

def ofProvider (provider : Provider) (key : Bytes) : Action CipherError Context := do
  let owner ← provider.receive
  (importKey owner provider key).atExit fun o _ ↦
    if o.isOk then [] else [.crossing (.providerDestroyed owner)]

/-- Opens a context on an engine.  The key length is checked before the region, and both before
the engine is opened. -/
def ofConfig (config : Configuration) (key : Bytes) (offset length : Nat) :
    Action CipherError Context := do
  let _ ← Action.ofExcept (KeySize.ofLength length)
  let bytes ← Action.ofExcept ((Region.mk offset length).slice key)
  ofProvider (.builtIn config.engine) bytes

/-- Opens a context on the engine that is chosen where none is named. -/
def create (key : Bytes) (offset length : Nat) : Action CipherError Context :=
  ofConfig {} key offset length

/-- Opens a context with the whole of `key`. -/
def ofKey (key : Bytes) : Action CipherError Context := create key 0 key.length

end Context

end AesEcb
