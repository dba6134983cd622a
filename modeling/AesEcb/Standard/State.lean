import AesEcb.Block
import AesEcb.Standard.Field

/-!
# States and the layers of a round, as the standard defines them

A state is four rows of four bytes.  A block fills it column by column.
-/

namespace AesEcb.Standard

def rotateLeft (b n : UInt8) : UInt8 := (b <<< n) ||| (b >>> (8 - n))

/-- The affine map: each bit is added to the four that follow it cyclically, and to a constant. -/
def affine (b : UInt8) : UInt8 :=
  b ^^^ rotateLeft b 1 ^^^ rotateLeft b 2 ^^^ rotateLeft b 3 ^^^ rotateLeft b 4 ^^^ 0x63

/-- The substitution of a byte: the field inverse, then the affine map. -/
def substitute (b : UInt8) : UInt8 := affine (Field.inverse b)

abbrev State := Vector (Vector UInt8 4) 4

namespace State

/-- The state whose byte in row `r` and column `c` is `f r c`. -/
def ofFn (f : Fin 4 → Fin 4 → UInt8) : State := Vector.ofFn fun r ↦ Vector.ofFn fun c ↦ f r c

def ofBlock (b : Block) : State := ofFn fun r c ↦ b[4 * c.val + r.val]

def toBlock (s : State) : Block :=
  Vector.ofFn fun i : Fin 16 ↦
    have := Block.row_lt i
    have := Block.column_lt i
    s[i.val % 4][i.val / 4]

def subBytes (s : State) : State := ofFn fun r c ↦ substitute s[r][c]

/-- Turns row `r` left by `r` places. -/
def shiftRows (s : State) : State := ofFn fun r c ↦ s[r][(c.val + r.val) % 4]

/-- The entry in row `r` and column `k` of the circulant matrix with first row `2, 3, 1, 1`. -/
def coefficient (r k : Fin 4) : UInt8 :=
  (#v[0x02, 0x03, 0x01, 0x01] : Vector UInt8 4)[(k.val + 4 - r.val) % 4]

/-- The product of the circulant matrix with every column. -/
def mixColumns (s : State) : State :=
  ofFn fun r c ↦
    Field.mul (coefficient r 0) s[0][c] ^^^ Field.mul (coefficient r 1) s[1][c] ^^^
      Field.mul (coefficient r 2) s[2][c] ^^^ Field.mul (coefficient r 3) s[3][c]

def add (s t : State) : State := ofFn fun r c ↦ s[r][c] ^^^ t[r][c]

end State

/-- The cipher with the given number of rounds on the round keys `key 0, …, key rounds`. -/
def cipher (rounds : Nat) (key : Nat → Block) (b : Block) : Block :=
  let start := (State.ofBlock b).add (State.ofBlock (key 0))
  let middle := (List.range (rounds - 1)).foldl
    (fun s i ↦ s.subBytes.shiftRows.mixColumns.add (State.ofBlock (key (i + 1)))) start
  (middle.subBytes.shiftRows.add (State.ofBlock (key rounds))).toBlock

end AesEcb.Standard
