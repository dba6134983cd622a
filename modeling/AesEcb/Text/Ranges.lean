/-!
# Sets of characters as ranges

A set of characters is a list of closed ranges of code points.  The ranges ascend and lie apart,
so a search may stop at the first one that does not lie before the character (`contains_iff`).
The tables built on this follow Unicode 17.0.
-/

namespace AesEcb.Text

/-- Whether the ranges ascend from `low` on, with a gap between neighbours. -/
def ascendingFrom (low : Nat) : List (Nat × Nat) → Bool
  | [] => true
  | (first, last) :: rs => low ≤ first && first ≤ last && ascendingFrom (last + 2) rs

structure Ranges where
  /-- The first and the last code point of each range. -/
  rows : List (Nat × Nat)
  ascending : ascendingFrom 0 rows = true := by decide +kernel

namespace Ranges

def search : List (Nat × Nat) → Nat → Bool
  | [], _ => false
  | (first, last) :: rs, n => if n ≤ last then first ≤ n else search rs n

def contains (t : Ranges) (c : Char) : Bool := search t.rows c.toNat

def size (t : Ranges) : Nat := t.rows.foldl (fun n r ↦ n + (r.2 + 1 - r.1)) 0

theorem le_of_ascendingFrom {low : Nat} {rs : List (Nat × Nat)}
    (h : ascendingFrom low rs = true) {r : Nat × Nat} (hr : r ∈ rs) : low ≤ r.1 := by
  induction rs generalizing low with
  | nil => simp at hr
  | cons s rs ih =>
    simp only [ascendingFrom, Bool.and_eq_true, decide_eq_true_eq] at h
    rcases List.mem_cons.1 hr with rfl | hr
    · exact h.1.1
    · have := ih h.2 hr
      omega

theorem search_iff {low : Nat} {rs : List (Nat × Nat)} (h : ascendingFrom low rs = true)
    (n : Nat) : search rs n = true ↔ ∃ r ∈ rs, r.1 ≤ n ∧ n ≤ r.2 := by
  induction rs generalizing low with
  | nil => simp [search]
  | cons s rs ih =>
    simp only [ascendingFrom, Bool.and_eq_true, decide_eq_true_eq] at h
    simp only [search, List.mem_cons, exists_eq_or_imp]
    split
    next hn =>
      constructor
      · intro hs
        exact .inl ⟨by simpa using hs, hn⟩
      · rintro (hs | ⟨r, hr, hrn, -⟩)
        · simpa using hs.1
        · have := le_of_ascendingFrom h.2 hr
          omega
    next hn => simp [ih h.2, hn]

/-- The search finds a character exactly when one of the ranges holds it. -/
theorem contains_iff (t : Ranges) (c : Char) :
    t.contains c = true ↔ ∃ r ∈ t.rows, r.1 ≤ c.toNat ∧ c.toNat ≤ r.2 :=
  search_iff t.ascending c.toNat

end Ranges

end AesEcb.Text
