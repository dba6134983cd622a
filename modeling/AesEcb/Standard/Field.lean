/-!
# The field of 256 elements

A byte stands for the polynomial over the field of two elements whose coefficients are its bits;
sums are exclusive or, products are taken modulo `x ^ 8 + x ^ 4 + x ^ 3 + x + 1`.
-/

namespace AesEcb.Standard.Field

/-- The product with `x`. -/
def double (a : UInt8) : UInt8 := if a < 0x80 then a <<< 1 else (a <<< 1) ^^^ 0x1b

/-- The sum of `x ^ i * a` over the bits `i < n` that are set in `b`. -/
def mulBits : Nat → UInt8 → UInt8 → UInt8
  | 0, _, _ => 0
  | n + 1, a, b => (if b &&& 1 = 1 then a else 0) ^^^ mulBits n (double a) (b >>> 1)

def mul (a b : UInt8) : UInt8 := mulBits 8 a b

def square (a : UInt8) : UInt8 := mul a a

/-- The power `x ^ n`. -/
def xPower : Nat → UInt8
  | 0 => 1
  | n + 1 => double (xPower n)

/-- The product of `a ^ 2, a ^ 4, …, a ^ (2 ^ n)`. -/
def squares : Nat → UInt8 → UInt8
  | 0, _ => 1
  | n + 1, a => mul (square a) (squares n (square a))

/-- The power `a ^ 254`, which is the inverse of `a`, and zero for zero. -/
def inverse (a : UInt8) : UInt8 := squares 7 a

end AesEcb.Standard.Field
