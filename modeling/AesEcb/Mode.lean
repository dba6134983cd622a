import AesEcb.Block
import AesEcb.Error

/-!
# The electronic codebook mode

Every block is encrypted by itself, whatever stands around it.  The mode is meant for whole
blocks only: `checkAligned` refuses every other length.
-/

namespace AesEcb

def ecb (f : Block → Block) (data : Bytes) : Bytes := Bytes.ofBlocks (data.blocks.map f)

/-- Refuses the empty length and every length that is no multiple of sixteen. -/
def checkAligned (n : Nat) : Except CipherError Unit :=
  if n = 0 then .error .emptyInput
  else if n % 16 ≠ 0 then .error (.unalignedInput n)
  else .ok ()

variable {f : Block → Block} {data : Bytes} {n : Nat}

@[simp] theorem blocks_ecb : (ecb f data).blocks = data.blocks.map f :=
  Bytes.blocks_ofBlocks _

theorem length_ecb (h : data.length % 16 = 0) : (ecb f data).length = data.length := by
  simp only [ecb, Bytes.length_ofBlocks, List.length_map, Bytes.length_blocks]
  omega

theorem checkAligned_eq_ok_iff : checkAligned n = .ok () ↔ n ≠ 0 ∧ n % 16 = 0 := by
  unfold checkAligned
  split
  · simp [*]
  · split <;> simp_all

end AesEcb
