import AesEcb.Proofs.Codebook
import AesEcb.Proofs.Creation
import AesEcb.Proofs.Opening

/-!
# The two engines agree

If the linked library computes the cipher of the standard, nothing tells the two engines apart: they
take the same keys, and make of each one that encrypts block by block as the standard says.
-/

namespace AesEcb

/-- What a key does that applies `f` to every block, on buffers of every length. -/
structure ImportedKey.IsCodebook (key : ImportedKey) (f : Block → Block) : Prop where
  quiet : ∀ data, (key.transform data).callbacks = []
  empty : (key.transform []).left = [] ∧ (key.transform []).outcome = .error .emptyInput
  unaligned : ∀ data, data.length % 16 ≠ 0 → (key.transform data).left = data ∧
    (key.transform data).outcome = .error (.unalignedInput data.length)
  aligned : ∀ data, 0 < data.length → data.length % 16 = 0 →
    (key.transform data).outcome = .ok data.length ∧
      (key.transform data).left.length = data.length ∧
      ∀ i < data.length / 16, (key.transform data).left.blockAt i = f (data.blockAt i)

theorem ImportedKey.isCodebook_ofBlockCipher (size : KeySize) (f : Block → Block) :
    (ofBlockCipher size f).IsCodebook f where
  quiet _ := callbacks_ofBlockCipher
  empty := by
    have hcheck : checkAligned ([] : Bytes).length = .error .emptyInput := rfl
    rw [transform_ofBlockCipher_error hcheck]
    exact ⟨rfl, rfl⟩
  unaligned data h := by
    have hne : data.length ≠ 0 := fun hzero ↦ h (by rw [hzero])
    have hcheck : checkAligned data.length = .error (.unalignedInput data.length) := by
      rw [checkAligned, if_neg hne, if_pos h]
    rw [transform_ofBlockCipher_error hcheck]
    exact ⟨rfl, rfl⟩
  aligned data hpos h := by
    rw [transform_ofBlockCipher (checkAligned_eq_ok_iff.2 ⟨hpos.ne', h⟩)]
    exact ⟨rfl, length_ecb h, fun i hi ↦ blockAt_ecb hi⟩

section Import

variable [LinkedCipher]

/-- Both engines refuse what is no key, and make the same of every key: what encrypts each block by
itself as the standard says, counts the bytes, and refuses a length that is not one of blocks. -/
theorem Engine.importKey_agrees (hlib : LinkedCipher.MeetsStandard) (key : Bytes) :
    (Provider.builtIn .software).importKey key = (Provider.builtIn .linked).importKey key ∧
      ∀ engine : Engine,
        let r := (Provider.builtIn engine).importKey key
        r.callbacks = [] ∧
          (r.outcome = .error (.invalidKeyLength key.length) ↔
            ¬ (key.length = 16 ∨ key.length = 24 ∨ key.length = 32)) ∧
          (key.length = 16 ∨ key.length = 24 ∨ key.length = 32 →
            ∃ (k : Key) (handle : ImportedKey), k.toBytes = key ∧ r.outcome = .ok handle ∧
              handle.size.length = key.length ∧
              handle.IsCodebook (Standard.encryptBlock k)) := by
  by_cases hkey : key.length = 16 ∨ key.length = 24 ∨ key.length = 32
  · obtain ⟨k, hk⟩ := Key.exists_ofBytes_of_length hkey
    have hsame : ∀ engine : Engine, (Provider.builtIn engine).importKey key =
        { outcome := .ok (.ofBlockCipher k.size (Standard.encryptBlock k)) } := fun engine ↦ by
      rw [Provider.importKey_builtIn_of_ok engine hk, importedKey_eq hlib]
    refine ⟨by rw [hsame, hsame], fun engine ↦ ?_⟩
    rw [hsame]
    refine ⟨rfl, ⟨nofun, fun hnot ↦ absurd hkey hnot⟩, fun _ ↦ ?_⟩
    exact ⟨k, _, Key.ofBytes_eq_ok_iff.1 hk, rfl, Key.size_length_of_ofBytes hk,
      ImportedKey.isCodebook_ofBlockCipher _ _⟩
  · have hsame : ∀ engine : Engine, (Provider.builtIn engine).importKey key =
        { outcome := .error (.invalidKeyLength key.length) } := fun engine ↦
      Provider.importKey_builtIn_of_error engine (Key.ofBytes_eq_error hkey)
    refine ⟨by rw [hsame, hsame], fun engine ↦ ?_⟩
    rw [hsame]
    exact ⟨rfl, ⟨fun _ ↦ hkey, fun _ ↦ rfl⟩, fun h ↦ absurd h hkey⟩

end Import

/-- Two blocks under a key of twenty-four bytes. -/
theorem Engine.importKey_agrees_equations :
    let key : Bytes := List.replicate 24 0x41
    let data : Bytes := List.replicate 32 0x42
    ∃ (k : Key) (handle : ImportedKey), k.toBytes = key ∧
      ((Provider.builtIn .linked).importKey key).outcome = .ok handle ∧
      (Provider.builtIn .software).importKey key = (Provider.builtIn .linked).importKey key ∧
      (handle.transform data).outcome = .ok 32 ∧
      (handle.transform data).left.blockAt 1 = Standard.encryptBlock k (data.blockAt 1) := by
  intro key data
  obtain ⟨hsame, hengines⟩ :=
    Engine.importKey_agrees LinkedCipher.equations_meetsStandard key
  obtain ⟨-, -, hvalid⟩ := hengines .linked
  obtain ⟨k, handle, hk, hhandle, -, hcodebook⟩ := hvalid (.inr (.inl (by decide)))
  obtain ⟨hcount, -, hblocks⟩ := hcodebook.aligned data (by decide) (by decide)
  exact ⟨k, handle, hk, hhandle, hsame, hcount, hblocks 1 (by decide)⟩

end AesEcb
