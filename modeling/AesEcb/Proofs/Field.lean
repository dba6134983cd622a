import AesEcb.Aes.Substitution
import AesEcb.Standard.State
import Mathlib.Algebra.CharP.Algebra
import Mathlib.Algebra.CharP.Frobenius
import Mathlib.Algebra.Field.ZMod
import Mathlib.RingTheory.AdjoinRoot
import Mathlib.Tactic.ComputeDegree
import Mathlib.Tactic.LinearCombination

/-!
# Bytes as residues of polynomials

The bits of a byte are the coefficients of a polynomial over the field of two elements.  Sums and
products of bytes are those of polynomials modulo `x ^ 8 + x ^ 4 + x ^ 3 + x + 1`, and every byte
but zero has an inverse.  The substitution table is the affine map after that inverse.
-/

namespace AesEcb

theorem forall_byte_iff {P : UInt8 → Prop} : (∀ a, P a) ↔ ∀ i : Fin 256, P (UInt8.ofFin i) := by
  constructor
  · intro h i
    exact h _
  · intro h a
    simpa using h a.toFin

instance decidableForallByte {P : UInt8 → Prop} [DecidablePred P] : Decidable (∀ a, P a) :=
  decidable_of_iff _ forall_byte_iff.symm

namespace Standard.Field

open Polynomial

def bit (a : UInt8) (i : Nat) : Bool := a.toNat.testBit i

theorem bit_xor (a b : UInt8) (i : Nat) : bit (a ^^^ b) i = (bit a i ^^ bit b i) := by
  simp [bit, Nat.testBit_xor]

theorem bit_double : ∀ a : UInt8,
    bit (double a) 0 = bit a 7 ∧ bit (double a) 1 = (bit a 0 ^^ bit a 7) ∧
    bit (double a) 2 = bit a 1 ∧ bit (double a) 3 = (bit a 2 ^^ bit a 7) ∧
    bit (double a) 4 = (bit a 3 ^^ bit a 7) ∧ bit (double a) 5 = bit a 4 ∧
    bit (double a) 6 = bit a 5 ∧ bit (double a) 7 = bit a 6 := by
  decide +kernel

noncomputable def modulus : (ZMod 2)[X] := X ^ 8 + X ^ 4 + X ^ 3 + X + 1

/-- Polynomials over the field of two elements, modulo `modulus`. -/
abbrev Residue := AdjoinRoot modulus

/-- The polynomial whose coefficients are the bits of `a`. -/
noncomputable def toPolynomial (a : UInt8) : (ZMod 2)[X] :=
  ∑ i : Fin 8, if bit a i then X ^ i.val else 0

noncomputable def value (a : UInt8) : Residue := AdjoinRoot.mk modulus (toPolynomial a)

theorem degree_modulus : modulus.degree = 8 := by
  rw [modulus]
  compute_degree!

instance : Nontrivial Residue := AdjoinRoot.nontrivial modulus (by rw [degree_modulus]; decide)

instance : CharP Residue 2 := charP_of_injective_algebraMap' (ZMod 2) 2

theorem root_pow_eight : AdjoinRoot.root modulus ^ 8 =
    AdjoinRoot.root modulus ^ 4 + AdjoinRoot.root modulus ^ 3 + AdjoinRoot.root modulus + 1 := by
  have h : AdjoinRoot.mk modulus (X ^ 8 + X ^ 4 + X ^ 3 + X + 1) = 0 := AdjoinRoot.mk_self
  simp only [map_add, map_pow, AdjoinRoot.mk_X, map_one, add_assoc] at h
  rw [CharTwo.add_eq_zero] at h
  rw [h]
  ring

/-- A bit as an element of the residue ring. -/
noncomputable def ofBit (p : Bool) : Residue := if p then 1 else 0

@[simp] theorem ofBit_xor (p q : Bool) : ofBit (p ^^ q) = ofBit p + ofBit q := by
  cases p <;> cases q <;> simp [ofBit, CharTwo.add_self_eq_zero]

theorem value_eq_sum (a : UInt8) :
    value a = ∑ i : Fin 8, ofBit (bit a i) * AdjoinRoot.root modulus ^ i.val := by
  simp only [value, toPolynomial, map_sum, apply_ite (AdjoinRoot.mk modulus), map_pow,
    AdjoinRoot.mk_X, map_zero, ofBit, ite_mul, one_mul, zero_mul]

@[simp] theorem value_xor (a b : UInt8) : value (a ^^^ b) = value a + value b := by
  simp only [value_eq_sum, bit_xor, ofBit_xor, add_mul, Finset.sum_add_distrib]

@[simp] theorem value_zero : value 0 = 0 := by
  simp [value_eq_sum, bit, ofBit]

@[simp] theorem value_one : value 1 = 1 := by
  have h0 : bit 1 0 = true := by decide
  have hsucc : ∀ i : Fin 7, bit 1 (i.val + 1) = false := by decide
  rw [value_eq_sum, Fin.sum_univ_succ]
  simp [ofBit, h0, hsucc]

theorem value_double (a : UInt8) : value (double a) = AdjoinRoot.root modulus * value a := by
  obtain ⟨h₀, h₁, h₂, h₃, h₄, h₅, h₆, h₇⟩ := bit_double a
  simp only [value_eq_sum, Fin.sum_univ_eight, Fin.isValue, Fin.coe_ofNat_eq_mod, Nat.reduceMod,
    h₀, h₁, h₂, h₃, h₄, h₅, h₆, h₇, ofBit_xor]
  linear_combination (-ofBit (bit a 7)) * root_pow_eight

theorem bit_shiftRight_one (b : UInt8) (i : Nat) : bit (b >>> 1) i = bit b (i + 1) := by
  simp [bit, Nat.testBit_shiftRight, Nat.add_comm]

theorem and_one_eq_one_iff : ∀ b : UInt8, b &&& 1 = 1 ↔ bit b 0 = true := by
  decide +kernel

theorem value_mulBits (n : Nat) (a b : UInt8) :
    value (mulBits n a b) =
      value a * ∑ i ∈ Finset.range n, ofBit (bit b i) * AdjoinRoot.root modulus ^ i := by
  induction n generalizing a b with
  | zero => simp [mulBits]
  | succ n ih =>
    have hhead : value (if b &&& 1 = 1 then a else 0) = value a * ofBit (bit b 0) := by
      simp only [and_one_eq_one_iff, ofBit]
      cases bit b 0 <;> simp
    rw [mulBits, value_xor, hhead, ih, value_double, Finset.sum_range_succ', pow_zero, mul_one,
      mul_add, Finset.mul_sum, Finset.mul_sum, add_comm]
    congr 1
    apply Finset.sum_congr rfl
    intro i _
    rw [bit_shiftRight_one]
    ring

/-- The product of bytes is the product of polynomials modulo `modulus`. -/
theorem value_mul (a b : UInt8) : value (mul a b) = value a * value b := by
  rw [mul, value_mulBits, value_eq_sum b, Fin.sum_univ_eq_sum_range
    (fun i ↦ ofBit (bit b i) * AdjoinRoot.root modulus ^ i)]

theorem value_square (a : UInt8) : value (square a) = value a ^ 2 := by
  rw [square, value_mul, pow_two]

theorem value_squares (n : Nat) (a : UInt8) :
    value (squares n a) = value a ^ (2 ^ (n + 1) - 2) := by
  induction n generalizing a with
  | zero => simp [squares]
  | succ n ih =>
    have hexp : 2 + 2 * (2 ^ (n + 1) - 2) = 2 ^ (n + 1 + 1) - 2 := by
      have := Nat.pow_le_pow_right (n := 2) (by decide) (Nat.le_add_left 1 n)
      rw [Nat.pow_succ 2 (n + 1)]
      omega
    rw [squares, value_mul, ih, value_square, ← pow_mul, ← pow_add, hexp]

theorem value_inverse (a : UInt8) : value (inverse a) = value a ^ 254 :=
  value_squares 7 a

theorem root_pow_card : AdjoinRoot.root modulus ^ 256 = AdjoinRoot.root modulus := by
  have hroot : AdjoinRoot.root modulus = value 2 := by
    have := value_double 1
    rw [value_one, mul_one] at this
    exact this.symm
  have hsquares : square (square (square (square (square (square (square (square 2))))))) = 2 := by
    decide +kernel
  have h := congrArg value hsquares
  simp only [value_square, ← pow_mul] at h
  rw [hroot]
  exact h

theorem ofBit_pow (p : Bool) {n : Nat} (h : n ≠ 0) : ofBit p ^ n = ofBit p := by
  cases p <;> simp [ofBit, h]

/-- Every element of the field is fixed by the eighth power of squaring. -/
theorem value_pow_card (a : UInt8) : value a ^ 256 = value a := by
  have h := map_sum (iterateFrobenius Residue 2 8)
    (fun i : Fin 8 ↦ ofBit (bit a i) * AdjoinRoot.root modulus ^ i.val) Finset.univ
  simp only [← value_eq_sum, iterateFrobenius_def, map_mul, map_pow, Nat.reducePow] at h
  rw [h, value_eq_sum]
  apply Finset.sum_congr rfl
  intro i _
  rw [ofBit_pow _ (by decide), root_pow_card]

/-- The affine map read backwards. -/
def unaffine (b : UInt8) : UInt8 :=
  rotateLeft b 1 ^^^ rotateLeft b 3 ^^^ rotateLeft b 6 ^^^ 0x05

theorem affine_unaffine : ∀ b : UInt8, affine (unaffine b) = b := by
  decide +kernel

/-- The table holds an inverse of every byte but zero. -/
theorem mul_unaffine_substitute :
    ∀ a : UInt8, a ≠ 0 → mul a (unaffine (Aes.substitute a)) = 1 := by
  decide +kernel

theorem value_ne_zero {a : UInt8} (ha : a ≠ 0) : value a ≠ 0 := by
  intro h
  have hone := congrArg value (mul_unaffine_substitute a ha)
  rw [value_mul, h, zero_mul, value_one] at hone
  exact zero_ne_one hone

theorem value_injective : Function.Injective value := by
  intro a b hab
  by_contra hne
  have hx : a ^^^ b ≠ 0 := fun h ↦ hne (UInt8.xor_eq_zero_iff.1 h)
  apply value_ne_zero hx
  rw [value_xor, hab, CharTwo.add_self_eq_zero]

theorem value_mul_inverse {a : UInt8} (ha : a ≠ 0) : value a * value (inverse a) = 1 := by
  have hinv : value a * value (unaffine (Aes.substitute a)) = 1 := by
    rw [← value_mul, mul_unaffine_substitute a ha, value_one]
  calc value a * value (inverse a)
      = value a ^ 255 * (value a * value (unaffine (Aes.substitute a))) := by
        rw [hinv, value_inverse, mul_one, ← pow_succ']
    _ = value a ^ 256 * value (unaffine (Aes.substitute a)) := by ring
    _ = 1 := by rw [value_pow_card, hinv]

theorem mul_inverse {a : UInt8} (ha : a ≠ 0) : mul a (inverse a) = 1 := by
  apply value_injective
  rw [value_mul, value_mul_inverse ha, value_one]

theorem eq_inverse_of_mul_eq_one {a b : UInt8} (h : mul a b = 1) : b = inverse a := by
  have ha : a ≠ 0 := by
    rintro rfl
    have h0 := congrArg value h
    rw [value_mul, value_zero, zero_mul, value_one] at h0
    exact zero_ne_one h0
  apply value_injective
  have hb : value a * value b = 1 := by rw [← value_mul, h, value_one]
  exact left_inv_eq_right_inv ((mul_comm _ _).trans hb) (value_mul_inverse ha)

@[simp] theorem inverse_zero : inverse 0 = 0 := by
  decide +kernel

theorem substitute_eq (a : UInt8) : Aes.substitute a = Standard.substitute a := by
  by_cases ha : a = 0
  · subst ha
    decide +kernel
  · rw [Standard.substitute, ← eq_inverse_of_mul_eq_one (mul_unaffine_substitute a ha),
      affine_unaffine]

end Standard.Field
end AesEcb
