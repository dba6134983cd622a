import AesEcb.Aes.KeySchedule
import AesEcb.Aes.Layers

/-!
# Encryption of one block

The first round key is added, each round substitutes, shifts, mixes and adds its round key, and
the last round leaves the mixing out.
-/

namespace AesEcb.Aes

def round (key b : Block) : Block := addRoundKey (mixColumns (shiftRows (subBytes b))) key

def lastRound (key b : Block) : Block := addRoundKey (shiftRows (subBytes b)) key

/-- The block after the first key addition and `n` full rounds. -/
def afterRounds (k : RoundKeys) (b : Block) : (n : Nat) → n < 15 → Block
  | 0, _ => addRoundKey b k.slots[0]
  | n + 1, h => round k.slots[n + 1] (afterRounds k b n (Nat.lt_of_succ_lt h))

def encryptBlock (k : RoundKeys) (b : Block) : Block :=
  lastRound k.last
    (afterRounds k b (k.rounds - 1) (Nat.lt_of_le_of_lt (Nat.sub_le _ _) k.rounds_lt))

/-- The block after `n` encryptions, each of the result before. -/
def encryptTimes (k : RoundKeys) : Nat → Block → Block
  | 0, b => b
  | n + 1, b => encryptTimes k n (encryptBlock k b)

end AesEcb.Aes
