import AesEcb.Block
import AesEcb.Error

/-!
# Keys and round keys

A key carries as many bytes as its size asks for.  Round keys always fill fifteen slots, of
which a size with `n` rounds uses the first `n + 1`.
-/

namespace AesEcb

inductive KeySize where
  | aes128
  | aes192
  | aes256
deriving DecidableEq, Repr

namespace KeySize

/-- The number of 32-bit words of a key. -/
def words : KeySize → Nat
  | aes128 => 4
  | aes192 => 6
  | aes256 => 8

/-- The number of bytes of a key. -/
def length (s : KeySize) : Nat := 4 * s.words

def rounds (s : KeySize) : Nat := s.words + 6

def ofLength? : Nat → Option KeySize
  | 16 => some aes128
  | 24 => some aes192
  | 32 => some aes256
  | _ => none

/-- The key size for `n` bytes, or the error that `n` is no key length. -/
def ofLength (n : Nat) : Except CipherError KeySize :=
  match ofLength? n with
  | some s => .ok s
  | none => .error (.invalidKeyLength n)

def display (s : KeySize) : String := s!"AES-{8 * s.length}"

def debug : KeySize → String
  | aes128 => "Aes128"
  | aes192 => "Aes192"
  | aes256 => "Aes256"

theorem ofLength?_eq_some_iff {n : Nat} {s : KeySize} : ofLength? n = some s ↔ s.length = n := by
  constructor
  · intro h
    unfold ofLength? at h
    split at h <;> simp_all <;> subst h <;> rfl
  · rintro rfl
    cases s <;> rfl

@[simp] theorem ofLength?_length (s : KeySize) : ofLength? s.length = some s :=
  ofLength?_eq_some_iff.2 rfl

theorem ofLength_eq_ok_iff {n : Nat} {s : KeySize} : ofLength n = .ok s ↔ s.length = n := by
  rw [← ofLength?_eq_some_iff, ofLength]
  cases ofLength? n <;> simp

theorem rounds_lt (s : KeySize) : s.rounds < 15 := by
  cases s <;> decide

end KeySize

structure Key where
  size : KeySize
  bytes : Vector UInt8 size.length

namespace Key

def ofBytes (data : Bytes) : Except CipherError Key :=
  match KeySize.ofLength? data.length with
  | some s => .ok ⟨s, Vector.ofFn fun i ↦ data.getD i.val 0⟩
  | none => .error (.invalidKeyLength data.length)

def toBytes (k : Key) : Bytes := k.bytes.toList

def wipe (k : Key) : Key := { k with bytes := Vector.replicate k.size.length 0 }

/-- Shows the size and never the bytes. -/
def debug (k : Key) : String := s!"AesKey \x7b size: {k.size.debug}, .. \x7d"

@[simp] theorem length_toBytes (k : Key) : k.toBytes.length = k.size.length := by
  simp [toBytes]

theorem ofBytes_toBytes (k : Key) : ofBytes k.toBytes = .ok k := by
  rw [ofBytes, length_toBytes, KeySize.ofLength?_length]
  simp [toBytes]

theorem ofBytes_eq_ok_iff {data : Bytes} {k : Key} : ofBytes data = .ok k ↔ k.toBytes = data := by
  constructor
  · intro h
    rw [ofBytes] at h
    cases hs : KeySize.ofLength? data.length with
    | none => simp [hs] at h
    | some s =>
      rw [hs] at h
      obtain rfl := Except.ok.inj h
      have hlength := KeySize.ofLength?_eq_some_iff.1 hs
      apply List.ext_getElem
      · rw [length_toBytes, hlength]
      · intro i h₁ h₂
        simp [toBytes, h₂]
  · rintro rfl
    exact ofBytes_toBytes k

theorem ofLength_of_ofBytes {data : Bytes} {k : Key} (h : ofBytes data = .ok k) :
    KeySize.ofLength data.length = .ok k.size := by
  rw [KeySize.ofLength_eq_ok_iff, ← ofBytes_eq_ok_iff.1 h, length_toBytes]

theorem ofLength_of_ofBytes_error {data : Bytes} {e : CipherError} (h : ofBytes data = .error e) :
    KeySize.ofLength data.length = .error e := by
  rw [ofBytes] at h
  rw [KeySize.ofLength]
  cases hs : KeySize.ofLength? data.length with
  | none => simpa [hs] using h
  | some s => simp [hs] at h

end Key

structure RoundKeys where
  slots : Vector Block 15
  size : KeySize

namespace RoundKeys

def rounds (k : RoundKeys) : Nat := k.size.rounds

/-- The round key in slot `i`; there are fifteen slots, whatever the size. -/
def get? (k : RoundKeys) (i : Nat) : Option Block := k.slots[i]?

def wipe (k : RoundKeys) : RoundKeys := { k with slots := Vector.replicate 15 Block.zero }

/-- Shows the size and never the slots. -/
def debug (k : RoundKeys) : String := s!"RoundKeys \x7b size: {k.size.debug}, .. \x7d"

theorem rounds_lt (k : RoundKeys) : k.rounds < 15 := k.size.rounds_lt

/-- The round key that closes the last round. -/
def last (k : RoundKeys) : Block := k.slots.get ⟨k.rounds, k.rounds_lt⟩

/-- The round keys in use, from the first to the one that closes the last round. -/
def used (k : RoundKeys) : List Block := k.slots.toList.take (k.rounds + 1)

end RoundKeys

end AesEcb
