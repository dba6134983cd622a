import AesEcb.Aes.Key
import AesEcb.Aes.Substitution

/-!
# The key schedule

The words of the key are followed by words that each combine the word one key length back with
the word just before, until there are four words for every round key.  Words hold their bytes
big end first.
-/

namespace AesEcb.Aes

abbrev Word := UInt32

namespace Word

def ofBytes (b₀ b₁ b₂ b₃ : UInt8) : Word :=
  (b₀.toUInt32 <<< 24) ||| (b₁.toUInt32 <<< 16) ||| (b₂.toUInt32 <<< 8) ||| b₃.toUInt32

/-- Byte `i` of the word, counted from the big end. -/
def byte (w : Word) (i : Fin 4) : UInt8 := (w >>> (24 - 8 * i.val).toUInt32).toUInt8

def substitute (w : Word) : Word :=
  ofBytes (Aes.substitute (w >>> 24).toUInt8) (Aes.substitute (w >>> 16).toUInt8)
    (Aes.substitute (w >>> 8).toUInt8) (Aes.substitute (w >>> 0).toUInt8)

/-- Moves the first byte to the end. -/
def rotate (w : Word) : Word := (w <<< 8) ||| (w >>> 24)

end Word

def roundConstants : Vector UInt8 10 :=
  #v[0x01, 0x02, 0x04, 0x08, 0x10, 0x20, 0x40, 0x80, 0x1b, 0x36]

/-- The number of words in all round keys of a key of the given size. -/
def scheduleLength (s : KeySize) : Nat := 4 * (s.rounds + 1)

theorem constant_index_lt {s : KeySize} {i : Nat} (h : i < scheduleLength s) :
    i / s.words - 1 < 10 := by
  cases s <;> simp only [scheduleLength, KeySize.rounds, KeySize.words] at h ⊢ <;> omega

theorem words_pos (s : KeySize) : 0 < s.words := by
  cases s <;> decide

def keyWord (k : Key) (i : Fin k.size.words) : Word :=
  have h : 4 * i.val + 3 < k.size.length := by
    have := i.isLt
    simp only [KeySize.length]
    omega
  Word.ofBytes k.bytes[4 * i.val] k.bytes[4 * i.val + 1] k.bytes[4 * i.val + 2]
    k.bytes[4 * i.val + 3]

/-- What the word before contributes to word `i`. -/
def mixWord (s : KeySize) (i : Nat) (h : i < scheduleLength s) (before : Word) : Word :=
  have := constant_index_lt h
  if i % s.words = 0 then
    before.rotate.substitute ^^^ (roundConstants[i / s.words - 1].toUInt32 <<< 24)
  else if 6 < s.words ∧ i % s.words = 4 then before.substitute
  else before

/-- The words of the key and the next `n` words of its schedule. -/
def expandWords (k : Key) : (n : Nat) → k.size.words + n ≤ scheduleLength k.size →
    Vector Word (k.size.words + n)
  | 0, _ => Vector.ofFn (keyWord k)
  | n + 1, h =>
    have := words_pos k.size
    let ws := expandWords k n (Nat.le_of_succ_le h)
    ws.push (ws[n] ^^^ mixWord k.size (k.size.words + n) h ws[k.size.words + n - 1])

theorem words_add_extra (s : KeySize) :
    s.words + (scheduleLength s - s.words) = scheduleLength s := by
  cases s <;> rfl

def schedule (k : Key) : Vector Word (scheduleLength k.size) :=
  (expandWords k (scheduleLength k.size - k.size.words)
    (Nat.le_of_eq (words_add_extra k.size))).cast (words_add_extra k.size)

/-- Four words to a round key; the slots that the size does not use are zero. -/
def expandKey (k : Key) : RoundKeys where
  slots :=
    let ws := schedule k
    Vector.ofFn fun r : Fin 15 ↦
      if h : r.val ≤ k.size.rounds then
        Vector.ofFn fun i : Fin 16 ↦
          have : 4 * r.val + i.val / 4 < scheduleLength k.size := by
            have := i.isLt
            simp only [scheduleLength]
            omega
          ws[4 * r.val + i.val / 4].byte ⟨i.val % 4, Block.row_lt i⟩
      else Block.zero
  size := k.size

end AesEcb.Aes
