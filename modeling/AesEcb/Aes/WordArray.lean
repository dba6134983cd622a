import AesEcb.Aes.KeySchedule

/-!
# The key schedule in one array

One array of sixty words serves every key size: the key goes to its front, the schedule is written
behind it, and the rest stays zero.  Every index is checked, and the result is `none` as soon as
one of them is negative or lies outside its array.
-/

namespace AesEcb.Aes

abbrev WordArray := Vector Word 60

namespace WordArray

/-- The difference, or `none` where it would be negative. -/
def difference? (a b : Nat) : Option Nat := if b ≤ a then some (a - b) else none

def write? (w : WordArray) (i : Nat) (x : Word) : Option WordArray :=
  if h : i < 60 then some (w.set i x) else none

def mixWord? (s : KeySize) (i : Nat) (before : Word) : Option Word :=
  if i % s.words = 0 then do
    let constant ← roundConstants[← difference? (i / s.words) 1]?
    return before.rotate.substitute ^^^ (constant.toUInt32 <<< 24)
  else if 6 < s.words ∧ i % s.words = 4 then some before.substitute
  else some before

/-- Writes word `i` of the schedule. -/
def extend? (w : WordArray) (s : KeySize) (i : Nat) : Option WordArray := do
  let before ← w[← difference? i 1]?
  let mixed ← mixWord? s i before
  let back ← w[← difference? i s.words]?
  w.write? i (back ^^^ mixed)

/-- The first `n` words of the key, and zeros. -/
def ofKey? (k : Key) : (n : Nat) → n ≤ k.size.words → Option WordArray
  | 0, _ => some (Vector.replicate 60 0)
  | n + 1, h => do
    let w ← ofKey? k n (Nat.le_of_succ_le h)
    w.write? n (keyWord k ⟨n, h⟩)

/-- The words of the key, the next `n` words of its schedule, and zeros. -/
def grow? (k : Key) : Nat → Option WordArray
  | 0 => ofKey? k k.size.words (Nat.le_refl _)
  | n + 1 => do
    let w ← grow? k n
    w.extend? k.size (k.size.words + n)

/-- The slots that the first `total` words fill, and zeros. -/
def slots (w : WordArray) (total : Nat) : Vector Block 15 :=
  Vector.ofFn fun r : Fin 15 ↦
    if r.val < total / 4 then
      Vector.ofFn fun i : Fin 16 ↦
        have : 4 * r.val + i.val / 4 < 60 := by omega
        w[4 * r.val + i.val / 4].byte ⟨i.val % 4, Block.row_lt i⟩
    else Block.zero

end WordArray

/-- The round keys, if no index on the way is out of range. -/
def expandKey? (k : Key) : Option RoundKeys := do
  let w ← WordArray.grow? k (scheduleLength k.size - k.size.words)
  if scheduleLength k.size ≤ 60 then
    some ⟨w.slots (scheduleLength k.size), k.size⟩
  else none

end AesEcb.Aes
