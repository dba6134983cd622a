import AesEcb.Proofs.Candidates

/-!
# The search for a free handle

The search moves the counter on, one number at a time, until it has come to a free handle.  Nothing
in it bounds the number of turns; it is the handles in use that do, for the counter cannot pass more
of them than there are.
-/

namespace AesEcb.Registry

variable {α : Type} {t u : Registry α} {a : α} {h : Handle} {n m : UInt64} {k : Nat}

/-- From the counter `n`, the search looks at `k` candidates and stops with the counter at `m`. -/
inductive Search (t : Registry α) : UInt64 → Nat → UInt64 → Prop
  | stop {n : UInt64} (hfree : t.IsFree ⟨n + 1⟩) : Search t n 1 (n + 1)
  | next {n m : UInt64} {k : Nat} (hbusy : ¬ t.IsFree ⟨n + 1⟩) (hrest : Search t (n + 1) k m) :
    Search t n (k + 1) m

theorem add_one_add_ofNat_succ (n : UInt64) (j : Nat) :
    n + 1 + UInt64.ofNat (j + 1) = n + 1 + 1 + UInt64.ofNat j := by
  rw [UInt64.ofNat_add]
  grind

namespace Search

theorem isFree (hsearch : t.Search n k m) : t.IsFree ⟨m⟩ := by
  induction hsearch with
  | stop hfree => exact hfree
  | next hbusy hrest ih => exact ih

/-- The search has no choice. -/
theorem unique {k' : Nat} {m' : UInt64} (hsearch : t.Search n k m) (hsearch' : t.Search n k' m') :
    k = k' ∧ m = m' := by
  induction hsearch generalizing k' with
  | stop hfree =>
    cases hsearch' with
    | stop hfree' => exact ⟨rfl, rfl⟩
    | next hbusy' hrest' => exact absurd hfree hbusy'
  | next hbusy hrest ih =>
    cases hsearch' with
    | stop hfree' => exact absurd hfree' hbusy
    | next hbusy' hrest' =>
      obtain ⟨hk, hm⟩ := ih hrest'
      exact ⟨congrArg (· + 1) hk, hm⟩

/-- It stops at the first number that is free. -/
theorem of_first_free (hfree : t.IsFree ⟨n + 1 + UInt64.ofNat k⟩)
    (hbusy : ∀ j < k, ¬ t.IsFree ⟨n + 1 + UInt64.ofNat j⟩) :
    t.Search n (k + 1) (n + 1 + UInt64.ofNat k) := by
  induction k generalizing n with
  | zero =>
    have hstop : n + 1 + UInt64.ofNat 0 = n + 1 := UInt64.add_zero _
    rw [hstop] at hfree ⊢
    exact .stop hfree
  | succ k ih =>
    have hfirst := hbusy 0 (Nat.succ_pos k)
    rw [show n + 1 + UInt64.ofNat 0 = n + 1 from UInt64.add_zero _] at hfirst
    rw [add_one_add_ofNat_succ] at hfree ⊢
    refine .next hfirst (ih hfree fun j hj ↦ ?_)
    rw [← add_one_add_ofNat_succ]
    exact hbusy (j + 1) (Nat.succ_lt_succ hj)

end Search

/-- The bound on the candidates takes nothing away: what is found among them is what the search
stops at. -/
theorem search_of_fresh? (hfresh : t.fresh? = some h) :
    ∃ k ≤ t.size + 1, t.candidate k = h ∧ (∀ j < k, ¬ t.IsFree (t.candidate j)) ∧
      t.Search t.nextId (k + 1) h.id := by
  obtain ⟨k, hk, rfl, hfree, hbusy⟩ := fresh?_eq_some_iff.1 hfresh
  exact ⟨k, Nat.le_of_lt_succ hk, rfl, hbusy, .of_first_free hfree hbusy⟩

/-- While some handle besides zero is not bound, the search for one ends, after two candidates more
than there are entries at the latest, and an insertion binds the handle it stops at: the first free
one in the cyclic order after the counter.  If all are bound it never ends, wherever it starts. -/
theorem insert?_first_free (t : Registry α) (a : α) :
    (t.size < 2 ^ 64 - 1 → ∃ k h u,
      t.candidate k = h ∧ t.IsFree h ∧ (∀ j < k, ¬ t.IsFree (t.candidate j)) ∧
      k + 1 ≤ t.size + 2 ∧ t.Search t.nextId (k + 1) h.id ∧
      (∀ k' m', t.Search t.nextId k' m' → k' = k + 1 ∧ m' = h.id) ∧
      t.insert? a = some (h, u) ∧ u.nextId = h.id ∧ u.entries = (h, a) :: t.entries) ∧
    ((∀ h, h ≠ .null → h ∈ t.keys) →
      (∀ n k m, ¬ t.Search n k m) ∧ t.insert? a = none) := by
  constructor
  · intro hroom
    obtain ⟨h, u, hins⟩ := exists_insert? a hroom
    obtain ⟨hfresh, hentries, hnext⟩ := insert?_eq_some_iff.1 hins
    obtain ⟨k, hk, hcandidate, hbusy, hsearch⟩ := search_of_fresh? hfresh
    exact ⟨k, h, u, hcandidate, isFree_of_fresh? hfresh, hbusy, Nat.succ_le_succ hk, hsearch,
      fun k' m' hsearch' ↦ hsearch'.unique hsearch, hins, hnext, hentries⟩
  · intro hfull
    have hnone : ∀ h, ¬ t.IsFree h := fun h hfree ↦ hfree.2 (hfull h hfree.1)
    refine ⟨fun n k m hsearch ↦ hnone _ hsearch.isFree, ?_⟩
    rw [insert?_eq_none_iff, Option.eq_none_iff_forall_not_mem]
    exact fun h hfresh ↦ hnone h (isFree_of_fresh? hfresh)

/-- A registry in which every handle but zero is bound. -/
def full : Registry Unit where
  entries := (List.range (2 ^ 64 - 1)).map fun i ↦ (⟨UInt64.ofNat (i + 1)⟩, ())
  nodup := by
    rw [List.map_map]
    refine List.Nodup.map_on (fun i hi j hj heq ↦ ?_) List.nodup_range
    rw [List.mem_range] at hi hj
    have hsucc : UInt64.ofNat (i + 1) = UInt64.ofNat (j + 1) := congrArg Handle.id heq
    rw [← UInt64.toNat_inj, UInt64.toNat_ofNat_of_lt' (by simp only [UInt64.size]; omega),
      UInt64.toNat_ofNat_of_lt' (by simp only [UInt64.size]; omega)] at hsucc
    exact Nat.succ.inj hsucc

theorem mem_keys_full (hne : h ≠ .null) : h ∈ full.keys := by
  have hpos : h.id.toNat ≠ 0 := fun hzero ↦ hne (Handle.toNat_inj.1 hzero)
  have hlt := h.id.toNat_lt
  have hself : UInt64.ofNat (h.id.toNat - 1 + 1) = h.id := by
    rw [Nat.sub_add_cancel (by omega), UInt64.ofNat_toNat]
  rw [keys, full, List.map_map, List.mem_map]
  refine ⟨h.id.toNat - 1, List.mem_range.2 (by omega), ?_⟩
  simp only [Function.comp_apply, hself]

/-- The search passes a handle in use, zero, and another handle in use: no fewer candidates than it
may look at for two entries. -/
theorem insert?_first_free_wrapping :
    let t : Registry Nat :=
      { entries := [(⟨0xffffffffffffffff⟩, 7), (⟨1⟩, 8)]
        nextId := 0xfffffffffffffffe
        nodup := by decide }
    t.size < 2 ^ 64 - 1 ∧ t.Search t.nextId (t.size + 2) 2 ∧
      (∃ u, t.insert? 9 = some (⟨2⟩, u) ∧ u.nextId = 2 ∧ u.entries = (⟨2⟩, 9) :: t.entries) ∧
      (∀ h, h ≠ .null → h ∈ full.keys) ∧ (∀ n k m, ¬ full.Search n k m) ∧
      full.insert? () = none := by
  intro t
  have hroom : t.size < 2 ^ 64 - 1 := by decide
  obtain ⟨k, h, u, hcandidate, -, -, hk, hsearch, -, hins, hnext, hentries⟩ :=
    (insert?_first_free t 9).1 hroom
  have hfresh : t.fresh? = some ⟨2⟩ := by decide
  obtain rfl : h = ⟨2⟩ := Option.some.inj ((insert?_eq_some_iff.1 hins).1.symm.trans hfresh)
  have hthird : t.candidate 3 = ⟨2⟩ := by decide
  have hlt : k < UInt64.size := (Nat.lt_of_succ_le hk).trans (by decide : t.size + 2 < UInt64.size)
  obtain rfl : k = 3 := candidate_inj hlt (by decide) (hcandidate.trans hthird.symm)
  have hall : ∀ h, h ≠ .null → h ∈ full.keys := fun h ↦ mem_keys_full
  obtain ⟨hnever, hnone⟩ := (insert?_first_free full ()).2 hall
  exact ⟨hroom, hsearch, ⟨u, hins, hnext, hentries⟩, hall, hnever, hnone⟩

end AesEcb.Registry
