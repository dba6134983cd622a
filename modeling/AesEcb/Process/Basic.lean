import AesEcb.Context.Basic
import AesEcb.Handle.Registry

/-!
# The state of a process

All cipher calls of a process share an optional override, a default engine and one registry of
handles.  Besides, the caller's buffers are part of the state: they are named, and two pointers
to one name are pointers to the same memory.
-/

namespace AesEcb

abbrev Memory := String → Bytes

def Memory.write (m : Memory) (name : String) (data : Bytes) : Memory :=
  fun other ↦ if other = name then data else m other

/-- A pointer to the first byte of a buffer, or the null pointer. -/
abbrev Pointer := Option String

structure Process where
  override? : Option Override := none
  defaultEngine : Engine := .software
  handles : Registry Context := {}
  memory : Memory := fun _ ↦ []
  /-- The serial number of the next provider to be opened. -/
  nextSerial : Nat := 0

/-- What a context is referred to by: its handle, and the provider it owns. -/
structure Reference where
  handle : Handle
  owner : Instance
deriving DecidableEq, Repr

/-- The registry refers to every context that it binds. -/
def Registry.references (t : Registry Context) : List Reference :=
  t.entries.map fun e ↦ ⟨e.1, e.2.owner⟩

/-- How many references to a context there are: that of the registry, and that of the call that is
`running` if it uses the context. -/
def Process.referenceCount (p : Process) (running : Option Reference) (r : Reference) : Nat :=
  (p.handles.references ++ running.toList).count r

/-- What happens when a reference to the context `c` of the handle `h` has been given up: with the
last one goes the context. -/
def Process.dropped (p : Process) (running : Option Reference) (h : Handle) (c : Context) : Trace :=
  if p.referenceCount running ⟨h, c.owner⟩ = 0 then c.teardown else []

@[simp] theorem Memory.write_self (m : Memory) (name : String) (data : Bytes) :
    m.write name data name = data := by
  simp [write]

theorem Memory.write_of_ne (m : Memory) {name other : String} (data : Bytes)
    (h : other ≠ name) : m.write name data other = m other := by
  simp [write, h]

end AesEcb
