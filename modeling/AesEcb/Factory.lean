import AesEcb.Context.Open

/-!
# The cipher factory

An override, where one is installed, is asked first for every new cipher.  If it declines, or if
there is none, the default provider is used that was in force when the request came in.
-/

namespace AesEcb

variable [LinkedCipher] {ε : Type}

/-- What is given up with a list of contexts. -/
def teardowns (own : List Context) : Trace := own.flatMap Context.teardown

/-- What is left of the contexts `own` of an override. -/
def Deed.run (own : List Context) : Deed → Action ε (List Context)
  | call c => do
    c.run none
    return own
  | opens provider key => do
    match ← (Context.ofProvider provider key).orNone with
    | some c => return c :: own
    | none => return own
  | drops place =>
    match own[place]? with
    | some c => do
      Action.emit c.teardown
      return own.eraseIdx place
    | none => return own

/-- A panic takes the contexts with it that are owned by then. -/
def runDeeds (own : List Context) : List Deed → Action ε (List Context)
  | [] => return own
  | d :: ds => do
    let own' ← (d.run own).atExit fun o _ ↦ if o.isOk then [] else teardowns own
    runDeeds own' ds

/-- Hands over what the answer names, and gives up the rest. -/
def Answer.run (own : List Context) : Answer → Action ε (Option Context)
  | panic => do
    Action.emit (teardowns own)
    Action.finish .panicked
  | decline => do
    Action.emit (teardowns own)
    return none
  | hands place => do
    Action.emit (teardowns (own.eraseIdx place))
    return own[place]?

/-- Has the override answer a request for a context for `key`; `none` when it declines. -/
def Override.ask (o : Override) (key : Bytes) : Action ε (Option Context) := do
  let reaction := o.react key (← Action.state).defaultEngine
  let own ← runDeeds [] reaction.deeds
  reaction.answer.run own

namespace Factory

/-- Asks the override, if there is one, for a context for a region of `key`.  What becomes of the
question is up to `ask`. -/
def askOverride (ask : Override → Bytes → Action Empty (Option Context)) (o : Option Override)
    (key : Bytes) (offset length : Nat) : Action CipherError (Option Context) :=
  match o with
  | none => pure none
  | some o => do
    let bytes ← Action.ofExcept ((Region.mk offset length).slice key)
    Action.cross (.overrideAsked bytes (← Action.state).defaultEngine)
    match ← Action.ofInfallible (ask o bytes) with
    | some c => return some c
    | none => do
      Action.diagnose .overrideDeclined
      return none

def requestBy (ask : Override → Bytes → Action Empty (Option Context)) (key : Bytes)
    (offset length : Nat) : Action CipherError Context := do
  let _ ← Action.ofExcept (KeySize.ofLength length)
  let before ← Action.state
  match ← askOverride ask before.override? key offset length with
  | some c => return c
  | none => Context.ofConfig ⟨before.defaultEngine⟩ key offset length

def request (key : Bytes) (offset length : Nat) : Action CipherError Context :=
  requestBy Override.ask key offset length

end Factory

end AesEcb
