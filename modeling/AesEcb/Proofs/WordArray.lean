import AesEcb.Aes.WordArray
import Mathlib.Tactic.Common

/-!
# Sixty words are enough

The array of the key schedule always begins with the words computed so far, and every index that
the next word needs lies among them.  So no look-up fails, and the array yields the round keys.
-/

namespace AesEcb.Aes

theorem scheduleLength_le (s : KeySize) : scheduleLength s ≤ 60 := by
  cases s <;> decide

namespace WordArray

/-- The array starts with the words `v`. -/
def Begins (w : WordArray) {m : Nat} (v : Vector Word m) : Prop :=
  ∀ i (h : i < m), w[i]? = some v[i]

theorem difference?_eq_some {a b : Nat} (h : b ≤ a) : difference? a b = some (a - b) :=
  if_pos h

theorem exists_write? {w : WordArray} {m : Nat} {v : Vector Word m} (hw : w.Begins v)
    (hm : m < 60) (x : Word) : ∃ w', w.write? m x = some w' ∧ w'.Begins (v.push x) := by
  refine ⟨w.set m x, dif_pos hm, ?_⟩
  intro i hi
  rw [Vector.getElem?_set, Vector.getElem_push]
  by_cases him : m = i
  · subst him
    simp
  · have hlt : i < m := by omega
    simp [him, hlt, hw i hlt]

theorem exists_ofKey? (k : Key) (n : Nat) (h : n ≤ k.size.words) :
    ∃ w, ofKey? k n h = some w ∧
      w.Begins (Vector.ofFn fun i : Fin n ↦ keyWord k (i.castLE h)) := by
  induction n with
  | zero => exact ⟨_, rfl, fun i hi ↦ absurd hi (Nat.not_lt_zero i)⟩
  | succ n ih =>
    obtain ⟨w, hw, hbegins⟩ := ih (Nat.le_of_succ_le h)
    have hn : n < 60 := by
      have := scheduleLength_le k.size
      have := words_add_extra k.size
      omega
    obtain ⟨w', hw', hbegins'⟩ := exists_write? hbegins hn (keyWord k ⟨n, h⟩)
    refine ⟨w', by rw [ofKey?, hw]; exact hw', ?_⟩
    rw [Vector.ofFn_succ]
    exact hbegins'

theorem mixWord?_eq_some {s : KeySize} {i : Nat} (hs : s.words ≤ i) (h : i < scheduleLength s)
    (before : Word) : mixWord? s i before = some (mixWord s i h before) := by
  have hone : 1 ≤ i / s.words := (Nat.one_le_div_iff (words_pos s)).2 hs
  have hc := constant_index_lt h
  rw [mixWord?, mixWord]
  split
  · rw [difference?_eq_some hone]
    simp [hc]
  · split <;> rfl

theorem exists_extend? {k : Key} {n : Nat} {w : WordArray}
    (h : k.size.words + (n + 1) ≤ scheduleLength k.size)
    (hw : w.Begins (expandWords k n (Nat.le_of_succ_le h))) :
    ∃ w', w.extend? k.size (k.size.words + n) = some w' ∧ w'.Begins (expandWords k (n + 1) h) := by
  have hpos := words_pos k.size
  have hle := scheduleLength_le k.size
  have hlast := hw (k.size.words + n - 1) (by omega)
  have hback := hw n (by omega)
  obtain ⟨w', hw', hbegins⟩ := exists_write? hw (by omega)
    ((expandWords k n (Nat.le_of_succ_le h))[n] ^^^
      mixWord k.size (k.size.words + n) h
        (expandWords k n (Nat.le_of_succ_le h))[k.size.words + n - 1])
  refine ⟨w', ?_, hbegins⟩
  rw [extend?, difference?_eq_some (by omega), difference?_eq_some (by omega),
    Nat.add_sub_cancel_left]
  simp only [Option.bind_eq_bind, Option.bind_some, hlast, hback,
    mixWord?_eq_some (Nat.le_add_right _ _) h, hw']

theorem exists_grow? (k : Key) (n : Nat) (h : k.size.words + n ≤ scheduleLength k.size) :
    ∃ w, grow? k n = some w ∧ w.Begins (expandWords k n h) := by
  induction n with
  | zero => exact exists_ofKey? k k.size.words (Nat.le_refl _)
  | succ n ih =>
    obtain ⟨w, hw, hbegins⟩ := ih (Nat.le_of_succ_le h)
    obtain ⟨w', hw', hbegins'⟩ := exists_extend? h hbegins
    exact ⟨w', by rw [grow?, hw]; exact hw', hbegins'⟩

end WordArray

/-- No index of the schedule is out of range. -/
theorem expandKey?_eq_some (k : Key) : expandKey? k = some (expandKey k) := by
  obtain ⟨w, hw, hbegins⟩ := WordArray.exists_grow? k _ (Nat.le_of_eq (words_add_extra k.size))
  have hword {i : Nat} (hi : i < scheduleLength k.size) (h60 : i < 60) :
      w[i] = (schedule k)[i] := by
    have := hbegins i (by rw [words_add_extra]; exact hi)
    rw [Vector.getElem?_eq_getElem h60] at this
    exact Option.some.inj this
  have hslots : w.slots (scheduleLength k.size) = (expandKey k).slots := by
    apply Vector.ext
    intro r hr
    have hfill : r < scheduleLength k.size / 4 ↔ r ≤ k.size.rounds := by
      rw [scheduleLength]
      omega
    by_cases hrounds : r ≤ k.size.rounds
    · have hlt (i : Fin 16) : 4 * r + i.val / 4 < scheduleLength k.size := by
        rw [scheduleLength]
        omega
      simp [WordArray.slots, expandKey, hfill, hrounds, hword (hlt _)]
    · simp [WordArray.slots, expandKey, hfill, hrounds]
  simp only [expandKey?, hw, Option.bind_eq_bind, Option.bind_some, hslots,
    if_pos (scheduleLength_le k.size)]
  rfl

end AesEcb.Aes
