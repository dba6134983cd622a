import AesEcb.Process.Basic

/-!
# Actions

An action runs on the state of a process.  Whether it succeeds, fails or panics, it leaves a
state and a trace; of two actions in a row the second runs only if the first succeeds.
-/

namespace AesEcb

structure Run (ε α : Type) where
  outcome : Outcome ε α
  trace : Trace
  process : Process

namespace Run

variable {ε ε' α β : Type}

/-- The same result after the events `t`. -/
def after (r : Run ε α) (t : Trace) : Run ε α := { r with trace := t ++ r.trace }

def andThen (r : Run ε α) (f : α → Process → Run ε β) : Run ε β :=
  match r.outcome with
  | .ok a => (f a r.process).after r.trace
  | .error e => ⟨.error e, r.trace, r.process⟩
  | .panicked => ⟨.panicked, r.trace, r.process⟩

/-- Goes on with `f`, which may never come to an end: then there is no run. -/
def andThen? (r : Run ε α) (f : α → Process → Option (Run ε β)) : Option (Run ε β) :=
  match r.outcome with
  | .ok a => (f a r.process).map fun next ↦ next.after r.trace
  | .error e => some ⟨.error e, r.trace, r.process⟩
  | .panicked => some ⟨.panicked, r.trace, r.process⟩

def mapOutcome (r : Run ε α) (f : Outcome ε α → Outcome ε' β) : Run ε' β :=
  ⟨f r.outcome, r.trace, r.process⟩

def followedBy (r : Run ε α) (last : Outcome ε α → Process → Trace) : Run ε α :=
  { r with trace := r.trace ++ last r.outcome r.process }

end Run

def Action (ε α : Type) := Process → Run ε α

namespace Action

variable {ε ε' α β : Type}

instance : Monad (Action ε) where
  pure a := fun p ↦ ⟨.ok a, [], p⟩
  bind x f := fun p ↦ (x p).andThen f

def state : Action ε Process := fun p ↦ ⟨.ok p, [], p⟩

def modify (f : Process → Process) : Action ε Unit := fun p ↦ ⟨.ok (), [], f p⟩

def emit (t : Trace) : Action ε Unit := fun p ↦ ⟨.ok (), t, p⟩

def diagnose (d : Diagnostic) : Action ε Unit := emit [.diagnostic d]

def cross (c : Crossing) : Action ε Unit := emit [.crossing c]

def finish (o : Outcome ε α) : Action ε α := fun p ↦ ⟨o, [], p⟩

def fail (e : ε) : Action ε α := finish (.error e)

def ofExcept (x : Except ε α) : Action ε α := finish (.ofExcept x)

def mapError (f : ε → ε') (x : Action ε α) : Action ε' α := fun p ↦
  (x p).mapOutcome (Outcome.mapError f)

/-- An action that cannot fail, where others might. -/
def ofInfallible (x : Action Empty α) : Action ε α := x.mapError Empty.elim

/-- Adds to the trace when `x` is over, however it ends. -/
def atExit (x : Action ε α) (last : Outcome ε α → Process → Trace) : Action ε α := fun p ↦
  (x p).followedBy last

/-- Turns an error of `x` into `none`; a panic stays a panic. -/
def orNone (x : Action ε α) : Action ε' (Option α) := fun p ↦
  (x p).mapOutcome fun
    | .ok a => .ok (some a)
    | .error _ => .ok none
    | .panicked => .panicked

variable {p : Process}

@[simp] theorem pure_run (a : α) : (pure a : Action ε α) p = ⟨.ok a, [], p⟩ := rfl

@[simp] theorem bind_run (x : Action ε α) (f : α → Action ε β) :
    (x >>= f) p = (x p).andThen f := rfl

@[simp] theorem state_run : (state : Action ε Process) p = ⟨.ok p, [], p⟩ := rfl

@[simp] theorem modify_run (f : Process → Process) :
    (modify f : Action ε Unit) p = ⟨.ok (), [], f p⟩ := rfl

@[simp] theorem emit_run (t : Trace) : (emit t : Action ε Unit) p = ⟨.ok (), t, p⟩ := rfl

@[simp] theorem finish_run (o : Outcome ε α) : finish o p = ⟨o, [], p⟩ := rfl

end Action

end AesEcb
