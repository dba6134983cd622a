import AesEcb.Boundary.Release

/-!
# Calls back into the library

Providers and overrides may call into the library while they are being called.  Such calls act
on the process at once and tell their caller nothing.
-/

namespace AesEcb

variable {ε α : Type}

def changeDefault (engine : Engine) : Action ε Unit := do
  Action.diagnose (.defaultChanged engine)
  Action.modify fun p ↦ { p with defaultEngine := engine }

def installOverride (o : Option Override) : Action ε Unit :=
  Action.modify fun p ↦ { p with override? := o }

/-- Makes the call, while the context of `running` is in use by a running call. -/
def Callback.run (running : Option Reference) : Callback → Action ε Unit
  | release h => Boundary.release running h
  | setDefault engine => changeDefault engine
  | clearOverride => installOverride none

def runCallbacks (running : Option Reference) : List Callback → Action ε Unit
  | [] => pure ()
  | c :: cs => do
    c.run running
    runCallbacks running cs

/-- Makes the calls of the reaction and ends as it does. -/
def Reaction.run (running : Option Reference) (r : Reaction α) : Action CipherError α := do
  runCallbacks running r.callbacks
  Action.finish r.outcome

end AesEcb
