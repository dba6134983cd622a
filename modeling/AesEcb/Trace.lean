import AesEcb.Error
import AesEcb.Provider.Basic

/-!
# Traces

A trace lists what happened during a call, in order: the diagnostics that the library emits, and
the crossings between the library and the providers and overrides it calls.  Every opened
provider has a serial number, so that a trace tells two of the same name apart.
-/

namespace AesEcb

/-- An opened provider, and with it the key it may have imported. -/
structure Instance where
  serial : Nat
  name : String
  /-- Whether the provider comes with the library. -/
  builtIn : Bool
deriving DecidableEq, Repr

inductive Operation where
  | create
  | encrypt
  | release
deriving DecidableEq, Repr

def Operation.name : Operation → String
  | .create => "create"
  | .encrypt => "encrypt_block"
  | .release => "release"

inductive Diagnostic where
  | contextOpened (provider : String) (size : KeySize)
  | encrypting (length : Nat)
  | contextClosed (provider : String)
  | defaultChanged (engine : Engine)
  | overrideDeclined
  | handleIssued (handle : Handle)
  | handleReleased (handle : Handle)
  | callFailed (operation : Operation) (cause : BoundaryError)
  | panicContained (operation : Operation)
deriving DecidableEq, Repr

inductive Crossing where
  | overrideAsked (key : Bytes) (default : Engine)
  /-- A provider is handed over to become part of a context. -/
  | providerReceived (owner : Instance)
  | importAsked (owner : Instance) (key : Bytes)
  /-- The provider has returned the imported key. -/
  | keyReceived (owner : Instance)
  | transformAsked (owner : Instance) (data : Bytes)
  | keyDestroyed (owner : Instance)
  | providerDestroyed (owner : Instance)
deriving DecidableEq, Repr

inductive Event where
  | diagnostic (d : Diagnostic)
  | crossing (c : Crossing)
deriving DecidableEq, Repr

def Event.diagnostic? : Event → Option Diagnostic
  | diagnostic d => some d
  | crossing _ => none

abbrev Trace := List Event

def Trace.diagnostics (t : Trace) : List Diagnostic := t.filterMap Event.diagnostic?

end AesEcb
