import AesEcb.Standard.KeyExpansion

/-!
# The linked cipher

One of the two engines leaves the block cipher to a library that is linked in.  Nothing is known
of that library here but how it is called: it has one cipher for each key size, a key is made ready
once, and then encrypts any number of blocks.
-/

namespace AesEcb

class LinkedCipher where
  /-- A key of the given size, made ready for use. -/
  Ready : KeySize → Type
  /-- Makes a key of the given size of the bytes, or says why it cannot. -/
  ofBytes : (size : KeySize) → Bytes → Except String (Ready size)
  /-- Only the number of bytes can be wrong. -/
  exists_ofBytes : ∀ {size : KeySize} {data : Bytes}, data.length = size.length →
    ∃ r, ofBytes size data = .ok r
  encryptBlock : {size : KeySize} → Ready size → Block → Block

namespace LinkedCipher

section

variable [LinkedCipher]

def prepare (k : Key) : Ready k.size :=
  match h : ofBytes k.size k.toBytes with
  | .ok r => r
  | .error _ => absurd (exists_ofBytes k.length_toBytes) (by simp [h])

theorem ofBytes_toBytes (k : Key) : ofBytes k.size k.toBytes = .ok (prepare k) := by
  unfold prepare
  split
  · assumption
  · rename_i h
    exact absurd (exists_ofBytes k.length_toBytes) (by simp [h])

/-- What such a library promises: it computes the cipher of the standard. -/
def MeetsStandard : Prop :=
  ∀ (k : Key) (b : Block), encryptBlock (prepare k) b = Standard.encryptBlock k b

end

/-- A library that evaluates the equations of the standard. -/
instance (priority := low) equations : LinkedCipher where
  Ready _ := List Standard.Word
  ofBytes size data :=
    if h : data.length = size.length then
      .ok (Standard.keyExpansion ⟨size, ⟨data.toArray, h⟩⟩)
    else .error "Invalid Length"
  exists_ofBytes h := ⟨_, dif_pos h⟩
  encryptBlock {size} r b := Standard.cipher size.rounds (Standard.roundKey r) b

theorem equations_meetsStandard : equations.MeetsStandard := by
  intro k b
  have hready : .ok (prepare k) = (.ok (Standard.keyExpansion k) : Except String _) := by
    rw [← ofBytes_toBytes k]
    exact dif_pos k.length_toBytes
  rw [Except.ok.inj hready]
  rfl

end LinkedCipher

end AesEcb
