import AesEcb.Proofs.Agreement
import AesEcb.Proofs.Requests
import AesEcb.Provider.Scripted

/-!
# Requests and overrides

A request that names no key is refused before anyone is asked.  Otherwise the override, if there is
one, is asked once, about the bytes of the key alone.  What it hands over is the result, and a
request that it declines falls to the engine that was the default when the request came in.
-/

namespace AesEcb

/-- What an override is told when it is asked: the key bytes and the default engine. -/
def Event.asked? : Event → Option (Bytes × Engine)
  | .crossing (.overrideAsked key default) => some (key, default)
  | _ => none

namespace Trace

variable {t : Trace}

/-- What the overrides are asked in the course of a trace, in order. -/
def asked (t : Trace) : List (Bytes × Engine) := t.filterMap Event.asked?

end Trace

namespace Factory

namespace Concludes

variable {fallback : Action CipherError Context} {key : Bytes} {default : Engine}
  {asked : Run Empty (Option Context)} {run : Run CipherError Context}

end Concludes

section Requests

variable [LinkedCipher] {key data : Bytes} {r : Region} {size : KeySize} {p : Process}

end Requests

end Factory

end AesEcb
