import AesEcb.Aes.Encrypt
import AesEcb.Proofs.Field

/-!
# The rounds agree with the standard

A block read as a state turns every layer of a round into the layer of the standard, and with it
each round and the whole encryption.
-/

namespace AesEcb

namespace Standard

/-- The number of rounds for each key size. -/
def rounds : KeySize → Nat
  | .aes128 => 10
  | .aes192 => 12
  | .aes256 => 14

theorem rounds_eq (s : KeySize) : rounds s = s.rounds := by
  cases s <;> rfl

namespace State

@[simp] theorem getElem_ofFn (f : Fin 4 → Fin 4 → UInt8) (r c : Nat) (hr : r < 4) (hc : c < 4) :
    (ofFn f)[r][c] = f ⟨r, hr⟩ ⟨c, hc⟩ := by
  simp [ofFn]

theorem ext_getElem {s t : State}
    (h : ∀ (r c : Nat) (hr : r < 4) (hc : c < 4), s[r][c] = t[r][c]) : s = t := by
  apply Vector.ext
  intro r hr
  apply Vector.ext
  intro c hc
  exact h r c hr hc

theorem getElem_ofBlock (b : Block) (r c : Nat) (hr : r < 4) (hc : c < 4) :
    (ofBlock b)[r][c] = b[4 * c + r] := by
  simp [ofBlock]

@[simp] theorem toBlock_ofBlock (b : Block) : (ofBlock b).toBlock = b := by
  ext i hi
  have : 4 * (i / 4) + i % 4 = i := by omega
  simp [toBlock, getElem_ofBlock, this]

theorem ofBlock_subBytes (b : Block) : ofBlock (Aes.subBytes b) = (ofBlock b).subBytes := by
  apply ext_getElem
  intro r c hr hc
  simp [subBytes, getElem_ofBlock, Aes.subBytes, Field.substitute_eq]

theorem ofBlock_addRoundKey (b key : Block) :
    ofBlock (Aes.addRoundKey b key) = (ofBlock b).add (ofBlock key) := by
  apply ext_getElem
  intro r c hr hc
  simp [add, getElem_ofBlock, Aes.addRoundKey]

theorem ofBlock_shiftRows (b : Block) : ofBlock (Aes.shiftRows b) = (ofBlock b).shiftRows := by
  apply ext_getElem
  intro r c hr hc
  have hcol : (4 * c + r) / 4 = c := by omega
  have hrow : (4 * c + r) % 4 = r := by omega
  have hturn : (c + (4 * c + r)) % 4 = (c + r) % 4 := by omega
  simp [shiftRows, getElem_ofBlock, Aes.shiftRows, hcol, hrow, hturn]

theorem timesX_eq_double : ∀ a : UInt8, Aes.timesX a = Field.double a := by
  decide +kernel

theorem mul_coefficients : ∀ a : UInt8, Field.mul 1 a = a ∧ Field.mul 2 a = Field.double a ∧
    Field.mul 3 a = Field.double a ^^^ a := by
  decide +kernel

/-- The first row of the matrix, applied to a column. -/
theorem mixByte_eq (a₀ a₁ a₂ a₃ : UInt8) :
    Aes.mixByte a₀ a₁ (a₀ ^^^ a₁ ^^^ a₂ ^^^ a₃) =
      Field.mul 2 a₀ ^^^ Field.mul 3 a₁ ^^^ Field.mul 1 a₂ ^^^ Field.mul 1 a₃ := by
  obtain ⟨-, h₀, -⟩ := mul_coefficients a₀
  obtain ⟨-, -, h₁⟩ := mul_coefficients a₁
  rw [h₀, h₁, (mul_coefficients a₂).1, (mul_coefficients a₃).1, Aes.mixByte, timesX_eq_double]
  apply Field.value_injective
  simp only [Field.value_xor, Field.value_double]
  linear_combination Field.value a₀ * CharTwo.two_eq_zero (R := Field.Residue)

/-- A row of the matrix turns with the row it computes. -/
theorem getElem_mixColumns (s : State) (r c : Nat) (hr : r < 4) (hc : c < 4) :
    s.mixColumns[r][c] = Field.mul 2 s[r][c] ^^^ Field.mul 3 s[(r + 1) % 4][c] ^^^
      Field.mul 1 s[(r + 2) % 4][c] ^^^ Field.mul 1 s[(r + 3) % 4][c] := by
  have hcoefficient : ∀ r k : Fin 4, coefficient r k =
      if k = r then 2 else if k = r + 1 then 3 else 1 := by decide
  simp only [mixColumns, getElem_ofFn, Fin.getElem_fin, hcoefficient]
  interval_cases r
  · rfl
  · simp
    ac_rfl
  · simp
    ac_rfl
  · simp
    ac_rfl

theorem columnSum_eq (b : Block) (r c : Nat) (hr : r < 4) (hc : c < 4) :
    Aes.columnSum b ⟨c, hc⟩ = b[4 * c + r] ^^^ b[4 * c + (r + 1) % 4] ^^^
      b[4 * c + (r + 2) % 4] ^^^ b[4 * c + (r + 3) % 4] := by
  rw [Aes.columnSum]
  interval_cases r
  · rfl
  · simp
    ac_rfl
  · simp
    ac_rfl
  · simp
    ac_rfl

theorem ofBlock_mixColumns (b : Block) : ofBlock (Aes.mixColumns b) = (ofBlock b).mixColumns := by
  apply ext_getElem
  intro r c hr hc
  have hcol : (4 * c + r) / 4 = c := by omega
  have hnext : (4 * c + r + 1) % 4 = (r + 1) % 4 := by omega
  have hrow : (ofBlock (Aes.mixColumns b))[r][c] =
      Aes.mixByte b[4 * c + r] b[4 * c + (r + 1) % 4] (Aes.columnSum b ⟨c, hc⟩) := by
    simp [getElem_ofBlock, Aes.mixColumns, hcol, hnext]
  rw [hrow, columnSum_eq b r c hr hc, mixByte_eq, getElem_mixColumns _ r c hr hc]
  simp only [getElem_ofBlock]

/-- One full round on states. -/
def round (key : Block) (s : State) : State := s.subBytes.shiftRows.mixColumns.add (ofBlock key)

theorem ofBlock_round (key b : Block) : ofBlock (Aes.round key b) = round key (ofBlock b) := by
  rw [Aes.round, round, ofBlock_addRoundKey, ofBlock_mixColumns, ofBlock_shiftRows,
    ofBlock_subBytes]

theorem ofBlock_lastRound (key b : Block) :
    ofBlock (Aes.lastRound key b) = (ofBlock b).subBytes.shiftRows.add (ofBlock key) := by
  rw [Aes.lastRound, ofBlock_addRoundKey, ofBlock_shiftRows, ofBlock_subBytes]

end State

/-- The cipher looks at no round keys but those from `0` to `rounds`. -/
theorem cipher_congr {n : Nat} {key key' : Nat → Block} (h : ∀ r ≤ n, key r = key' r) (b : Block) :
    cipher n key b = cipher n key' b := by
  have hmiddle : ∀ s : State, (List.range (n - 1)).foldl
      (fun s i ↦ s.subBytes.shiftRows.mixColumns.add (State.ofBlock (key (i + 1)))) s =
      (List.range (n - 1)).foldl
      (fun s i ↦ s.subBytes.shiftRows.mixColumns.add (State.ofBlock (key' (i + 1)))) s := by
    intro s
    refine List.foldl_ext _ _ s ?_
    intro s' i hi
    have hlt := List.mem_range.1 hi
    rw [h (i + 1) (by omega)]
  rw [cipher, cipher, hmiddle, h 0 (Nat.zero_le n), h n le_rfl]

end Standard

namespace RoundKeys

/-- The round key in slot `r`; zero where there is no such slot. -/
def key (k : RoundKeys) (r : Nat) : Block := (k.get? r).getD Block.zero

theorem key_eq_getElem (k : RoundKeys) {r : Nat} (h : r < 15) : k.key r = k.slots[r] := by
  simp [key, get?, h]

theorem last_eq_key (k : RoundKeys) : k.last = k.key k.rounds := by
  rw [key_eq_getElem k k.rounds_lt]
  rfl

end RoundKeys

namespace Aes

open Standard (State)

theorem ofBlock_afterRounds (k : RoundKeys) (b : Block) (n : Nat) (h : n < 15) :
    State.ofBlock (afterRounds k b n h) =
      (List.range n).foldl (fun s i ↦ State.round (k.key (i + 1)) s)
        ((State.ofBlock b).add (State.ofBlock (k.key 0))) := by
  induction n with
  | zero =>
    rw [afterRounds, State.ofBlock_addRoundKey, RoundKeys.key_eq_getElem k h]
    rfl
  | succ n ih =>
    rw [afterRounds, State.ofBlock_round, ih, List.range_succ, List.foldl_append,
      List.foldl_cons, List.foldl_nil, RoundKeys.key_eq_getElem k h]

theorem encryptBlock_eq (k : RoundKeys) (b : Block) :
    encryptBlock k b = Standard.cipher (Standard.rounds k.size) k.key b := by
  have hlast : State.ofBlock (encryptBlock k b) = _ := State.ofBlock_lastRound _ _
  rw [ofBlock_afterRounds, RoundKeys.last_eq_key] at hlast
  rw [Standard.cipher, Standard.rounds_eq, ← State.toBlock_ofBlock (encryptBlock k b), hlast]
  rfl

theorem encryptTimes_eq (k : RoundKeys) (n : Nat) (b : Block) :
    encryptTimes k n b = (Standard.cipher (Standard.rounds k.size) k.key)^[n] b := by
  induction n generalizing b with
  | zero => rfl
  | succ n ih => rw [encryptTimes, ih, encryptBlock_eq, Function.iterate_succ_apply]

/-- Every block, under any round keys, is encrypted as the standard says, once or again and
again in its place. -/
theorem encryptBlock_eq_cipher (k : RoundKeys) (b : Block) :
    encryptBlock k b = Standard.cipher (Standard.rounds k.size) k.key b ∧
      ∀ n, encryptTimes k n b = (Standard.cipher (Standard.rounds k.size) k.key)^[n] b :=
  ⟨encryptBlock_eq k b, fun n ↦ encryptTimes_eq k n b⟩

end Aes

end AesEcb
