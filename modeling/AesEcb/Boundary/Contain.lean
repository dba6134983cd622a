import AesEcb.Process.Action

/-!
# Containment

A call made through handles fails quietly.  An error or a panic inside it becomes a warning and the
value that stands for failure.
-/

namespace AesEcb

/-- What comes of the body of a call, with `failure` for its value if it did not succeed. -/
def Run.contained {ε α : Type} (operation : Operation) (failure : α) (r : Run BoundaryError α) :
    Run ε α :=
  (r.followedBy fun o _ ↦
      match o with
      | .ok _ => []
      | .error e => [.diagnostic (.callFailed operation e)]
      | .panicked => [.diagnostic (.panicContained operation)]).mapOutcome fun
    | .ok a => .ok a
    | _ => .ok failure

/-- Runs the body of a call. -/
def Boundary.contain {ε α : Type} (operation : Operation) (failure : α)
    (body : Action BoundaryError α) : Action ε α := fun p ↦
  (body p).contained operation failure

end AesEcb
