import AesEcb.Proofs.Registry
import Mathlib.Algebra.Group.Nat.Defs
import Mathlib.Data.Finset.Card

/-!
# The candidates for the next handle

The candidates run through all 2⁶⁴ handles before the first of them comes again.  A search
through more candidates than there are values, zero counted among them, finds a free one.
-/

namespace AesEcb.Registry

variable {α : Type} {t u : Registry α} {a : α} {h : Handle}

theorem candidate_of_nextId {n : Nat} (hnext : u.nextId = t.nextId + UInt64.ofNat n) (k : Nat) :
    u.candidate k = t.candidate (n + k) := by
  simp only [candidate, hnext, UInt64.ofNat_add]
  congr 1
  grind

theorem candidate_inj {j k : Nat} (hj : j < UInt64.size) (hk : k < UInt64.size)
    (h : t.candidate j = t.candidate k) : j = k := by
  have hoffset : UInt64.ofNat j = UInt64.ofNat k := by
    have hid := congrArg Handle.id h
    simpa only [candidate, UInt64.add_right_inj] using hid
  rw [← UInt64.toNat_ofNat_of_lt' hj, hoffset, UInt64.toNat_ofNat_of_lt' hk]

theorem le_length_of_candidates_mem {L : List Handle} {n : Nat} (hn : n ≤ UInt64.size)
    (hmem : ∀ k < n, t.candidate k ∈ L) : n ≤ L.length := by
  have hcard : (Finset.range n).card ≤ L.toFinset.card := by
    apply Finset.card_le_card_of_injOn t.candidate
    · intro k hk
      simpa using hmem k (by simpa using hk)
    · intro j hj k hk
      simp only [Finset.coe_range, Set.mem_Iio] at hj hk
      exact candidate_inj (hj.trans_le hn) (hk.trans_le hn)
  rw [Finset.card_range] at hcard
  exact hcard.trans L.toFinset_card_le

theorem not_isFree_iff : ¬ t.IsFree h ↔ h ∈ Handle.null :: t.keys := by
  rw [IsFree, not_and_or, not_not, not_not, List.mem_cons]

theorem fresh?_eq_some_iff :
    t.fresh? = some h ↔ ∃ k < t.size + 2, t.candidate k = h ∧ t.IsFree h ∧
      ∀ j < k, ¬ t.IsFree (t.candidate j) := by
  rw [fresh?, List.find?_map, Option.map_eq_some_iff]
  simp only [List.find?_range_eq_some, Function.comp_apply, decide_eq_true_eq, List.mem_range,
    Bool.not_eq_true', decide_eq_false_iff_not]
  constructor
  · rintro ⟨k, ⟨hfree, hk, hall⟩, rfl⟩
    exact ⟨k, hk, rfl, hfree, hall⟩
  · rintro ⟨k, hk, rfl, hfree, hall⟩
    exact ⟨k, ⟨hfree, hk, hall⟩, rfl⟩

/-- While some handle besides zero is not bound, an insertion succeeds. -/
theorem exists_insert? (a : α) (hroom : t.size < 2 ^ 64 - 1) :
    ∃ h u, t.insert? a = some (h, u) := by
  cases hfresh : t.fresh? with
  | none =>
    exfalso
    have hmem : ∀ k < t.size + 2, t.candidate k ∈ Handle.null :: t.keys := by
      intro k hk
      rw [← not_isFree_iff]
      rw [fresh?, List.find?_eq_none] at hfresh
      simpa using hfresh (t.candidate k) (List.mem_map.2 ⟨k, List.mem_range.2 hk, rfl⟩)
    have hle := le_length_of_candidates_mem (by simp only [UInt64.size]; omega) hmem
    simp only [List.length_cons, keys, List.length_map, size] at hle
    omega
  | some h =>
    have hfree := isFree_of_fresh? hfresh
    refine ⟨h, ⟨(h, a) :: t.entries, h.id, List.nodup_cons.2 ⟨hfree.2, t.nodup⟩⟩, ?_⟩
    exact insert?_eq_some_iff.2 ⟨hfresh, rfl, rfl⟩

end AesEcb.Registry
