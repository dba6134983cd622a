import AesEcb.Boundary.Contain

/-!
# Releasing a handle

A released handle no longer refers to a context.  The context itself is given up with the last
reference to it: at once, or when the call that uses it has come to its end.
-/

namespace AesEcb.Boundary

/-- Releases `h`, while the context of `running` is in use by a running call. -/
def release {ε : Type} (running : Option Reference) (h : Handle) : Action ε Unit :=
  contain .release () <|
    if h.isNull then pure ()
    else do
      match (← Action.state).handles.remove h with
      | (none, _) => Action.fail .invalidHandle
      | (some c, t) => do
        Action.modify fun p ↦ { p with handles := t }
        Action.emit ((← Action.state).dropped running h c)
        Action.diagnose (.handleReleased h)

end AesEcb.Boundary
