import AesEcb.Trace

/-!
# The log of a session

The log shows every diagnostic, and of the crossings those that code from outside notices: an
override or a foreign provider being asked, and a foreign provider or its key being destroyed.
An entry is a list of named fields.
-/

namespace AesEcb

inductive LogValue where
  | text (s : String)
  | number (n : Nat)
  | bytes (data : Bytes)
deriving DecidableEq, Repr

abbrev LogEntry := List (String × LogValue)

namespace Diagnostic

def level : Diagnostic → String
  | encrypting _ => "TRACE"
  | callFailed _ _ | panicContained _ => "WARN"
  | _ => "DEBUG"

def message : Diagnostic → String
  | contextOpened _ _ => "created AES-ECB context"
  | encrypting _ => "encrypt"
  | contextClosed _ => "released AES-ECB context"
  | defaultChanged _ => "default AES provider changed"
  | overrideDeclined => "override declined, falling back to default provider"
  | handleIssued _ => "context created"
  | handleReleased _ => "context released"
  | callFailed _ _ => "call failed"
  | panicContained _ => "panic caught at ABI boundary"

def fields : Diagnostic → LogEntry
  | contextOpened provider size => [("provider", .text provider), ("key_size", .text size.display)]
  | encrypting length => [("len", .number length)]
  | contextClosed provider => [("provider", .text provider)]
  | defaultChanged engine => [("provider", .text engine.name)]
  | overrideDeclined => []
  | handleIssued h | handleReleased h => [("handle", .number h.id.toNat)]
  | callFailed operation cause => [("op", .text operation.name), ("err", .text cause.message)]
  | panicContained operation => [("op", .text operation.name)]

def entry (d : Diagnostic) : LogEntry :=
  [("level", .text d.level), ("message", .text d.message)] ++ d.fields

end Diagnostic

/-- The entry of a crossing, with the provider it concerns. -/
def Crossing.entry? : Crossing → Option LogEntry
  | overrideAsked key engine =>
    some [("event", .text "override"), ("key", .bytes key), ("default", .text engine.name)]
  | importAsked owner key =>
    ofForeign owner [("event", .text "import"), ("key", .bytes key)]
  | transformAsked owner data =>
    ofForeign owner [("event", .text "transform"), ("len", .number data.length)]
  | keyDestroyed owner => ofForeign owner [("event", .text "drop_key"), ("name", .text owner.name)]
  | providerDestroyed owner =>
    ofForeign owner [("event", .text "drop_provider"), ("name", .text owner.name)]
  | providerReceived _ | keyReceived _ => none
where
  /-- Nothing is shown of a provider that comes with the library. -/
  ofForeign (owner : Instance) (entry : LogEntry) : Option LogEntry :=
    if owner.builtIn then none else some entry

def Event.entry? : Event → Option LogEntry
  | diagnostic d => some d.entry
  | crossing c => c.entry?

def Trace.log (t : Trace) : List LogEntry := t.filterMap Event.entry?

end AesEcb
