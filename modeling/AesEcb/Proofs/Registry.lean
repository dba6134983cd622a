import AesEcb.Handle.Registry
import Mathlib.Data.List.Nodup

/-!
# Looking handles up

A lookup after an insertion or a removal, the entries after a removal, and the handle that an
insertion takes while the counter has not wrapped around.
-/

namespace AesEcb

theorem Handle.toNat_inj {h k : Handle} : h.id.toNat = k.id.toNat ↔ h = k := by
  cases h; cases k
  simp [UInt64.toNat_inj]

namespace Registry

variable {α : Type} {t u : Registry α} {a : α} {h k : Handle}

theorem get?_eq_none_iff : t.get? h = none ↔ h ∉ t.keys := by
  rw [get?, Option.map_eq_none_iff, List.find?_eq_none, keys, List.mem_map]
  constructor
  · rintro hnone ⟨e, he, rfl⟩
    exact hnone e he (by simp)
  · intro hmem e he heq
    exact hmem ⟨e, he, by simpa using heq⟩

theorem mem_keys_iff : h ∈ t.keys ↔ (t.get? h).isSome := by
  rw [← Option.ne_none_iff_isSome, ne_eq, get?_eq_none_iff, not_not]

theorem get?_eq_some_iff : t.get? h = some a ↔ (h, a) ∈ t.entries := by
  have hfound : ∀ {b}, t.get? h = some b → (h, b) ∈ t.entries := by
    intro b hget
    obtain ⟨⟨k, b⟩, hfind, rfl⟩ := Option.map_eq_some_iff.1 hget
    obtain rfl : k = h := by simpa using List.find?_some hfind
    exact List.mem_of_find?_eq_some hfind
  refine ⟨hfound, fun hmem ↦ ?_⟩
  cases hget : t.get? h with
  | none => exact absurd (List.mem_map.2 ⟨_, hmem, rfl⟩) (get?_eq_none_iff.1 hget)
  | some b =>
    have heq := List.inj_on_of_nodup_map t.nodup (hfound hget) hmem rfl
    rw [(Prod.mk.inj heq).2]

theorem insert?_eq_none_iff : t.insert? a = none ↔ t.fresh? = none := by
  unfold insert?
  split
  · simp [*]
  · simp [*]

theorem get?_of_insert? (hins : t.insert? a = some (h, u)) :
    u.get? k = if k = h then some a else t.get? k := by
  obtain ⟨-, hentries, -⟩ := insert?_eq_some_iff.1 hins
  rw [get?, hentries, List.find?_cons]
  by_cases hk : k = h
  · simp [hk]
  · simp [hk, Ne.symm hk, get?]

theorem get?_erase (t : Registry α) (h k : Handle) :
    (t.erase h).get? k = if k = h then none else t.get? k := by
  by_cases hk : k = h
  · rw [if_pos hk, hk, get?_erase_self]
  · rw [if_neg hk, get?_erase_of_ne t hk]

theorem entries_erase_of_get?_none (hget : t.get? h = none) : (t.erase h).entries = t.entries := by
  rw [get?_eq_none_iff, keys, List.mem_map] at hget
  refine List.filter_eq_self.2 fun e he ↦ ?_
  simpa using fun heq ↦ hget ⟨e, he, heq⟩

/-- A bound handle stands in one entry, and erasing it takes just this entry away. -/
theorem entries_perm_of_get? (hget : t.get? h = some a) :
    t.entries.Perm ((h, a) :: (t.erase h).entries) := by
  obtain ⟨⟨k, b⟩, hfind, rfl⟩ := Option.map_eq_some_iff.1 hget
  obtain rfl : k = h := by simpa using List.find?_some hfind
  have hnodup := t.nodup
  rw [erase]
  simp only
  generalize t.entries = entries at hfind hnodup ⊢
  induction entries with
  | nil => cases hfind
  | cons e rest ih =>
    rw [List.map_cons, List.nodup_cons] at hnodup
    by_cases he : e.1 = k
    · have hrest : rest.filter (fun e ↦ e.1 ≠ k) = rest := by
        refine List.filter_eq_self.2 fun e' he' ↦ ?_
        have hne : e'.1 ≠ k := fun heq ↦ hnodup.1 (List.mem_map.2 ⟨e', he', heq.trans he.symm⟩)
        simpa using hne
      obtain rfl : e = (k, b) := by simpa [he] using hfind
      rw [List.filter_cons_of_neg (by simp), hrest]
    · rw [List.find?_cons_of_neg (by simpa using he)] at hfind
      rw [List.filter_cons_of_pos (by simpa using he)]
      exact ((ih hfind hnodup.2).cons e).trans (List.Perm.swap _ _ _)

theorem size_erase (t : Registry α) (h : Handle) :
    (t.erase h).size + (if (t.get? h).isSome then 1 else 0) = t.size := by
  cases hget : t.get? h with
  | none =>
    rw [size, entries_erase_of_get?_none hget]
    rfl
  | some a =>
    rw [size, size, (entries_perm_of_get? hget).length_eq]
    rfl

theorem fresh?_of_isFree (hfree : t.IsFree (t.candidate 0)) :
    t.fresh? = some (t.candidate 0) := by
  rw [fresh?, List.range_succ_eq_map, List.map_cons, List.find?_cons]
  simp [hfree]

theorem candidate_zero_toNat (hroom : t.nextId.toNat + 1 < UInt64.size) :
    (t.candidate 0).id.toNat = t.nextId.toNat + 1 := by
  simp only [candidate, UInt64.toNat_add]
  simpa using Nat.mod_eq_of_lt hroom

/-- While every handle in use is at most the counter, the next number is free. -/
theorem insert?_of_le (a : α) (hroom : t.nextId.toNat + 1 < UInt64.size)
    (hused : ∀ k ∈ t.keys, k.id.toNat ≤ t.nextId.toNat) :
    ∃ h u, t.insert? a = some (h, u) ∧ h.id.toNat = t.nextId.toNat + 1 := by
  have hnext := candidate_zero_toNat hroom
  have hfree : t.IsFree (t.candidate 0) := by
    refine ⟨?_, ?_⟩
    · intro hnull
      rw [hnull] at hnext
      exact absurd hnext (by simp [Handle.null])
    · intro hmem
      have := hused _ hmem
      omega
  have hfresh := fresh?_of_isFree hfree
  refine ⟨t.candidate 0, ⟨(t.candidate 0, a) :: t.entries, (t.candidate 0).id,
    List.nodup_cons.2 ⟨hfree.2, t.nodup⟩⟩, ?_, hnext⟩
  exact insert?_eq_some_iff.2 ⟨hfresh, rfl, rfl⟩

end Registry

end AesEcb
