import AesEcb.Handle.Basic

/-!
# The registry of handles

A registry binds handles to values and keeps the number it issued last.  A new value gets the
first free handle after the counter, which wraps around at 2⁶⁴; zero is never free.
-/

namespace AesEcb

structure Registry (α : Type) where
  entries : List (Handle × α) := []
  /-- The number issued last. -/
  nextId : UInt64 := 0
  /-- No handle is bound twice. -/
  nodup : (entries.map Prod.fst).Nodup := by exact List.nodup_nil

namespace Registry

variable {α : Type}

def keys (t : Registry α) : List Handle := t.entries.map Prod.fst

def size (t : Registry α) : Nat := t.entries.length

def get? (t : Registry α) (h : Handle) : Option α :=
  (t.entries.find? fun e ↦ e.1 = h).map Prod.snd

/-- Handle number `k + 1` after the counter, in the cyclic order. -/
def candidate (t : Registry α) (k : Nat) : Handle := ⟨t.nextId + 1 + UInt64.ofNat k⟩

def IsFree (t : Registry α) (h : Handle) : Prop := h ≠ .null ∧ h ∉ t.keys

instance (t : Registry α) (h : Handle) : Decidable (t.IsFree h) :=
  inferInstanceAs (Decidable (_ ∧ _))

/-- The first free handle after the counter.  Besides the live handles only zero can be in the
way, so two candidates more than there are entries are enough. -/
def fresh? (t : Registry α) : Option Handle :=
  ((List.range (t.size + 2)).map t.candidate).find? fun h ↦ t.IsFree h

theorem isFree_of_fresh? {t : Registry α} {h : Handle} (hf : t.fresh? = some h) :
    t.IsFree h := by
  simpa using List.find?_some hf

/-- Binds `a` to a fresh handle; `none` when no handle is free. -/
def insert? (t : Registry α) (a : α) : Option (Handle × Registry α) :=
  match hf : t.fresh? with
  | none => none
  | some h =>
    some (h,
      { entries := (h, a) :: t.entries
        nextId := h.id
        nodup := List.nodup_cons.2 ⟨(isFree_of_fresh? hf).2, t.nodup⟩ })

def erase (t : Registry α) (h : Handle) : Registry α where
  entries := t.entries.filter fun e ↦ e.1 ≠ h
  nextId := t.nextId
  nodup := (List.filter_sublist.map Prod.fst).nodup t.nodup

/-- Takes the value bound to `h` out of the registry. -/
def remove (t : Registry α) (h : Handle) : Option α × Registry α := (t.get? h, t.erase h)

def setNextId (t : Registry α) (n : UInt64) : Registry α := { t with nextId := n }

@[simp] theorem get?_erase_self (t : Registry α) (h : Handle) : (t.erase h).get? h = none := by
  simp [get?, erase]

theorem get?_erase_of_ne (t : Registry α) {h k : Handle} (hk : k ≠ h) :
    (t.erase h).get? k = t.get? k := by
  simp only [get?, erase, List.find?_filter]
  congr 2
  funext e
  by_cases he : e.1 = k <;> simp [he, hk]

theorem insert?_eq_some_iff {t u : Registry α} {a : α} {h : Handle} :
    t.insert? a = some (h, u) ↔
      t.fresh? = some h ∧ u.entries = (h, a) :: t.entries ∧ u.nextId = h.id := by
  unfold insert?
  split <;> rename_i hf
  · simp [hf]
  · constructor
    · rintro ⟨⟩
      exact ⟨hf, rfl, rfl⟩
    · rintro ⟨hk, he, hn⟩
      obtain rfl := Option.some.inj (hf.symm.trans hk)
      cases u
      simp only at he hn
      subst he hn
      rfl

end Registry

end AesEcb
