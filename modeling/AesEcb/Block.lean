/-!
# Byte strings and blocks

A block is sixteen bytes.  `Bytes.blocks` cuts a byte string into its whole blocks and
`Bytes.ofBlocks` strings blocks together again; on strings of whole blocks the two are
inverse to each other.
-/

namespace AesEcb

abbrev Bytes := List UInt8

/-- Sixteen bytes, column by column: byte `4 * c + r` stands in row `r` of column `c`. -/
abbrev Block := Vector UInt8 16

namespace Block

/-- Byte `i` stands in row `i % 4` of column `i / 4`. -/
theorem row_lt (i : Fin 16) : i.val % 4 < 4 := Nat.mod_lt _ (by decide)

theorem column_lt (i : Fin 16) : i.val / 4 < 4 := by omega

def zero : Block := Vector.replicate 16 0

def xor (a b : Block) : Block := Vector.zipWith (· ^^^ ·) a b

/-- The first sixteen bytes of `data`, filled up with zeros where `data` is shorter. -/
def ofBytes (data : Bytes) : Block := Vector.ofFn fun i ↦ data.getD i.val 0

@[simp] theorem getElem_xor (a b : Block) (i : Nat) (h : i < 16) :
    (xor a b)[i] = a[i] ^^^ b[i] := by
  simp [xor]

@[simp] theorem ofBytes_toList (b : Block) : ofBytes b.toList = b := by
  ext i hi
  simp [ofBytes]

theorem toList_ofBytes {data : Bytes} (h : data.length = 16) :
    (ofBytes data).toList = data := by
  apply List.ext_getElem
  · simp [h]
  · intro i h₁ h₂
    simp [ofBytes, h₂]

end Block

namespace Bytes

def takeBlocks : Nat → Bytes → List Block
  | 0, _ => []
  | n + 1, data => Block.ofBytes (data.take 16) :: takeBlocks n (data.drop 16)

/-- The whole blocks at the front of `data`; a shorter rest at the end is left out. -/
def blocks (data : Bytes) : List Block := takeBlocks (data.length / 16) data

def ofBlocks (bs : List Block) : Bytes := bs.flatMap Vector.toList

@[simp] theorem ofBlocks_nil : ofBlocks [] = [] := rfl

@[simp] theorem ofBlocks_cons (b : Block) (bs : List Block) :
    ofBlocks (b :: bs) = b.toList ++ ofBlocks bs := rfl

@[simp] theorem length_ofBlocks (bs : List Block) : (ofBlocks bs).length = 16 * bs.length := by
  induction bs with
  | nil => rfl
  | cons b bs ih =>
    rw [ofBlocks_cons, List.length_append, ih, List.length_cons]
    simp
    omega

@[simp] theorem length_takeBlocks (n : Nat) (data : Bytes) : (takeBlocks n data).length = n := by
  induction n generalizing data with
  | zero => rfl
  | succ n ih => simp [takeBlocks, ih]

@[simp] theorem length_blocks (data : Bytes) : data.blocks.length = data.length / 16 :=
  length_takeBlocks _ _

theorem takeBlocks_ofBlocks (bs : List Block) : takeBlocks bs.length (ofBlocks bs) = bs := by
  induction bs with
  | nil => rfl
  | cons b bs ih => simp [takeBlocks, ih]

@[simp] theorem blocks_ofBlocks (bs : List Block) : (ofBlocks bs).blocks = bs := by
  rw [blocks, length_ofBlocks, Nat.mul_div_cancel_left _ (by decide), takeBlocks_ofBlocks]

theorem ofBlocks_takeBlocks {n : Nat} {data : Bytes} (h : data.length = 16 * n) :
    ofBlocks (takeBlocks n data) = data := by
  induction n generalizing data with
  | zero => simp [takeBlocks, List.eq_nil_of_length_eq_zero h]
  | succ n ih =>
    rw [takeBlocks, ofBlocks_cons, ih (by rw [List.length_drop]; omega),
      Block.toList_ofBytes (by rw [List.length_take]; omega), List.take_append_drop]

theorem ofBlocks_blocks {data : Bytes} (h : data.length % 16 = 0) :
    ofBlocks data.blocks = data :=
  ofBlocks_takeBlocks (by omega)

end Bytes

end AesEcb
