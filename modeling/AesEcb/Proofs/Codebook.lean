import AesEcb.Mode
import Mathlib.Logic.Function.Basic

/-!
# The codebook mode, byte by byte

Byte `i` of the result is byte `i % 16` of what becomes of block `i / 16`.
-/

namespace AesEcb

/-- Block `k` of `data`, counted from zero. -/
def Bytes.blockAt (data : Bytes) (k : Nat) : Block :=
  Vector.ofFn fun j : Fin 16 ↦ data.getD (16 * k + j) 0

/-- Encryption block by block: every byte is found in the image of the block it stands in. -/
def codebook (f : Block → Block) (data : Bytes) : Bytes :=
  List.ofFn fun i : Fin data.length ↦ (f (data.blockAt (i.val / 16)))[i.val % 16]

namespace Bytes

theorem ofBytes_take_drop (data : Bytes) (k : Nat) :
    Block.ofBytes ((data.drop (16 * k)).take 16) = data.blockAt k := by
  apply Vector.ext
  intro j hj
  simp [Block.ofBytes, blockAt, List.getD_eq_getElem?_getD]

theorem getElem_takeBlocks (n : Nat) (data : Bytes) (k : Nat) (h : k < (takeBlocks n data).length) :
    (takeBlocks n data)[k] = data.blockAt k := by
  rw [← ofBytes_take_drop]
  induction n generalizing data k with
  | zero => exact absurd h (by simp)
  | succ n ih =>
    cases k with
    | zero => rfl
    | succ k =>
      have hrest := ih (data.drop 16) k (by simpa using h)
      rw [List.drop_drop, show 16 + 16 * k = 16 * (k + 1) by omega] at hrest
      simpa [takeBlocks] using hrest

theorem getElem_blocks (data : Bytes) (k : Nat) (h : k < data.blocks.length) :
    data.blocks[k] = data.blockAt k :=
  getElem_takeBlocks _ _ k h

theorem getElem_ofBlocks (bs : List Block) (i : Nat) (h : i < (ofBlocks bs).length) :
    (ofBlocks bs)[i] =
      (bs.get ⟨i / 16, by rw [length_ofBlocks] at h; omega⟩)[i % 16] := by
  induction bs generalizing i with
  | nil => exact absurd h (by simp)
  | cons b bs ih =>
    have hlength : b.toList.length = 16 := by simp
    simp only [ofBlocks_cons]
    by_cases hi : i < 16
    · have hdiv : i / 16 = 0 := Nat.div_eq_of_lt hi
      have hmod : i % 16 = i := Nat.mod_eq_of_lt hi
      rw [List.getElem_append_left (by omega)]
      simp [hdiv, hmod]
    · obtain ⟨j, rfl⟩ := Nat.exists_eq_add_of_le (Nat.not_lt.1 hi)
      have hdiv : (16 + j) / 16 = j / 16 + 1 := by omega
      have hmod : (16 + j) % 16 = j % 16 := by omega
      have hj : j < (ofBlocks bs).length := by
        rw [ofBlocks_cons, List.length_append] at h
        omega
      rw [List.getElem_append_right (by omega)]
      simp only [List.get_eq_getElem, hlength, Nat.add_sub_cancel_left, hdiv, hmod,
        List.getElem_cons_succ]
      exact ih j hj

end Bytes

theorem ecb_eq_codebook {f : Block → Block} {data : Bytes} (h : data.length % 16 = 0) :
    ecb f data = codebook f data := by
  apply List.ext_getElem
  · rw [length_ecb h, codebook, List.length_ofFn]
  · intro i h₁ h₂
    simp only [ecb, Bytes.getElem_ofBlocks, List.get_eq_getElem, List.getElem_map, Bytes.blocks,
      Bytes.getElem_takeBlocks, codebook, List.getElem_ofFn]

/-- A block of the result is the image of the block that stood in its place. -/
theorem blockAt_ecb {f : Block → Block} {data : Bytes} {k : Nat} (h : k < data.length / 16) :
    (ecb f data).blockAt k = f (data.blockAt k) := by
  have hk : k < data.blocks.length := by
    rw [Bytes.length_blocks]
    exact h
  have hk' : k < (ecb f data).blocks.length := by
    rw [blocks_ecb, List.length_map]
    exact hk
  rw [← Bytes.getElem_blocks _ k hk', ← Bytes.getElem_blocks _ k hk]
  simp only [blocks_ecb, List.getElem_map]

theorem ecb_leftInverse {f g : Block → Block} (hg : Function.LeftInverse g f) {data : Bytes}
    (h : data.length % 16 = 0) : ecb g (ecb f data) = data := by
  rw [ecb, blocks_ecb, List.map_map, hg.comp_eq_id, List.map_id, Bytes.ofBlocks_blocks h]

end AesEcb
