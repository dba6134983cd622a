import AesEcb.Proofs.KeyExpansion
import AesEcb.Provider.BuiltIn

/-!
# The keys of the two engines

Both engines make of a key one that encrypts whole blocks and refuses every other length.  It
makes no calls, counts its bytes, and encrypts as the standard says if the linked library does.
-/

namespace AesEcb

namespace ImportedKey

variable {size : KeySize} {f : Block → Block} {data : Bytes}

theorem transform_ofBlockCipher (h : checkAligned data.length = .ok ()) :
    (ofBlockCipher size f).transform data = { left := ecb f data, outcome := .ok data.length } := by
  simp [ofBlockCipher, h]

theorem transform_ofBlockCipher_error {e : CipherError} (h : checkAligned data.length = .error e) :
    (ofBlockCipher size f).transform data = { left := data, outcome := .error e } := by
  simp [ofBlockCipher, h]

theorem callbacks_ofBlockCipher : ((ofBlockCipher size f).transform data).callbacks = [] := by
  cases h : checkAligned data.length with
  | ok => rw [transform_ofBlockCipher h]
  | error e => rw [transform_ofBlockCipher_error h]

/-- A key that never succeeds with another count than the number of its bytes. -/
def CountsBytes (key : ImportedKey) : Prop :=
  ∀ data count, (key.transform data).outcome = .ok count → count = data.length

theorem countsBytes_ofBlockCipher : (ofBlockCipher size f).CountsBytes := by
  intro data count hok
  cases h : checkAligned data.length with
  | ok =>
    rw [transform_ofBlockCipher h] at hok
    exact (Outcome.ok.inj hok).symm
  | error e =>
    rw [transform_ofBlockCipher_error h] at hok
    cases hok

end ImportedKey

section Import

variable [LinkedCipher]

theorem Provider.importKey_builtIn_of_ok (engine : Engine) {data : Bytes} {k : Key}
    (hk : Key.ofBytes data = .ok k) :
    (Provider.builtIn engine).importKey data = { outcome := .ok (engine.importedKey k) } := by
  rw [importKey, Engine.importKey_eq, hk]
  rfl

theorem Provider.importKey_builtIn_of_error (engine : Engine) {data : Bytes} {e : CipherError}
    (he : Key.ofBytes data = .error e) :
    (Provider.builtIn engine).importKey data = { outcome := .error e } := by
  rw [importKey, Engine.importKey_eq, he]
  rfl

end Import

namespace Engine

variable [LinkedCipher]

@[simp] theorem importedKey_size (engine : Engine) (k : Key) :
    (engine.importedKey k).size = k.size := by
  cases engine with
  | software => rfl
  | linked => rfl

/-- Both engines make of a key what encrypts by the standard. -/
theorem importedKey_eq (hlib : LinkedCipher.MeetsStandard) (engine : Engine) (k : Key) :
    engine.importedKey k = .ofBlockCipher k.size (Standard.encryptBlock k) := by
  cases engine with
  | software => rw [importedKey, Aes.encryptBlock_expandKey]
  | linked => rw [importedKey, funext (hlib k)]

theorem countsBytes_importedKey (engine : Engine) (k : Key) :
    (engine.importedKey k).CountsBytes := by
  cases engine with
  | software => exact ImportedKey.countsBytes_ofBlockCipher
  | linked => exact ImportedKey.countsBytes_ofBlockCipher

end Engine

end AesEcb
