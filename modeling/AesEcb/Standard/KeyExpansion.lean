import AesEcb.Aes.Key
import AesEcb.Standard.State

/-!
# Key expansion, as the standard defines it

Words are four bytes.  Word `i` after those of the key is the sum of word `i - n` and of what
`expansionTerm` makes of word `i - 1`, where `n` is the number of words of the key.
-/

namespace AesEcb.Standard

abbrev Word := Vector UInt8 4

namespace Word

def zero : Word := Vector.replicate 4 0

def add (v w : Word) : Word := Vector.zipWith (· ^^^ ·) v w

theorem next_lt (j : Fin 4) : (j.val + 1) % 4 < 4 := Nat.mod_lt _ (by decide)

/-- Turns the word left by one byte. -/
def rotate (w : Word) : Word :=
  Vector.ofFn fun j : Fin 4 ↦
    have := next_lt j
    w[(j.val + 1) % 4]

def substitute (w : Word) : Word := w.map Standard.substitute

/-- The word `x ^ n, 0, 0, 0`. -/
def constant (n : Nat) : Word := #v[Field.xPower n, 0, 0, 0]

end Word

/-- What the word before contributes to word `i`, for a key of `n` words. -/
def expansionTerm (n i : Nat) (before : Word) : Word :=
  if i % n = 0 then before.rotate.substitute.add (Word.constant (i / n - 1))
  else if 6 < n ∧ i % n = 4 then before.substitute
  else before

def keyWords (k : Key) : List Word :=
  (List.range k.size.words).map fun i ↦
    Vector.ofFn fun j ↦ k.toBytes.getD (4 * i + j.val) 0

/-- Adds the next word to the words so far, for a key of `n` words. -/
def extend (n : Nat) (ws : List Word) : List Word :=
  ws ++ [(ws.getD (ws.length - n) Word.zero).add
    (expansionTerm n ws.length (ws.getD (ws.length - 1) Word.zero))]

/-- The words of all round keys of `k`, from the first on. -/
def keyExpansion (k : Key) : List Word :=
  Nat.repeat (extend k.size.words) (4 * (k.size.rounds + 1) - k.size.words) (keyWords k)

/-- Round key `r`: the four words from word `4 * r` on. -/
def roundKey (ws : List Word) (r : Nat) : Block :=
  Vector.ofFn fun i : Fin 16 ↦
    have := Block.row_lt i
    (ws.getD (4 * r + i.val / 4) Word.zero)[i.val % 4]

/-- Encryption of a block under a key. -/
def encryptBlock (k : Key) (b : Block) : Block :=
  cipher k.size.rounds (roundKey (keyExpansion k)) b

end AesEcb.Standard
