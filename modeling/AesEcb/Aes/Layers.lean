import AesEcb.Aes.Substitution

/-!
# The four layers of a round

Each layer maps a block to a block; byte `i` stands in row `i % 4` of column `i / 4`.
-/

namespace AesEcb.Aes

def subBytes (b : Block) : Block := b.map substitute

/-- Turns row `r` left by `r` places. -/
def shiftRows (b : Block) : Block :=
  Vector.ofFn fun i : Fin 16 ↦ b[4 * ((i.val / 4 + i.val % 4) % 4) + i.val % 4]

/-- The product with `x`: the modulus is added exactly when a bit leaves the byte. -/
def timesX (a : UInt8) : UInt8 := (a <<< 1) ^^^ ((0x1b : UInt8) * (a >>> 7))

/-- One byte of a mixed column, from the byte above the sum, the next byte and the column sum. -/
def mixByte (a next sum : UInt8) : UInt8 := a ^^^ sum ^^^ timesX (a ^^^ next)

/-- The sum of the four bytes of column `c`. -/
def columnSum (b : Block) (c : Fin 4) : UInt8 :=
  b[4 * c.val] ^^^ b[4 * c.val + 1] ^^^ b[4 * c.val + 2] ^^^ b[4 * c.val + 3]

def mixColumns (b : Block) : Block :=
  Vector.ofFn fun i : Fin 16 ↦
    mixByte b[i] b[4 * (i.val / 4) + (i.val + 1) % 4] (columnSum b ⟨i.val / 4, by omega⟩)

def addRoundKey (b key : Block) : Block := b.xor key

end AesEcb.Aes
