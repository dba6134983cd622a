import AesEcb.Aes.Encrypt
import AesEcb.Mode
import AesEcb.Provider.Basic
import AesEcb.Provider.Linked

/-!
# The built-in engines

Both engines take keys of 16, 24 or 32 bytes, encrypt whole blocks in codebook mode, and leave
a buffer of any other length as it is.  They differ in who computes the cipher.
-/

namespace AesEcb

/-- The key that encrypts every block by `f`. -/
def ImportedKey.ofBlockCipher (size : KeySize) (f : Block → Block) : ImportedKey where
  size := size
  transform data :=
    match checkAligned data.length with
    | .ok () => { left := ecb f data, outcome := .ok data.length }
    | .error e => { left := data, outcome := .error e }
  length_left data := by
    cases h : checkAligned data.length with
    | ok => exact length_ecb (checkAligned_eq_ok_iff.1 h).2
    | error => rfl

variable [LinkedCipher]

/-- A key for one of the ciphers of the linked library. -/
structure LinkedKey where
  size : KeySize
  ready : LinkedCipher.Ready size

namespace LinkedKey

/-- The length decides which cipher is asked for a key. -/
def ofBytes (data : Bytes) : Except CipherError LinkedKey :=
  match KeySize.ofLength data.length with
  | .error e => .error e
  | .ok size =>
    match LinkedCipher.ofBytes size data with
    | .ok ready => .ok ⟨size, ready⟩
    | .error reason => .error (.provider Engine.linked.name s!"AES key init: {reason}")

def importedKey (k : LinkedKey) : ImportedKey :=
  .ofBlockCipher k.size (LinkedCipher.encryptBlock k.ready)

end LinkedKey

/-- Imports a key.  The round keys are computed once. -/
def Engine.importKey (engine : Engine) (data : Bytes) : Except CipherError ImportedKey :=
  match engine with
  | .software =>
    (Key.ofBytes data).map fun k ↦ .ofBlockCipher k.size (Aes.encryptBlock (Aes.expandKey k))
  | .linked => (LinkedKey.ofBytes data).map LinkedKey.importedKey

def Provider.importKey : Provider → Bytes → Reaction ImportedKey
  | builtIn engine, data => { outcome := .ofExcept (engine.importKey data) }
  | foreign _ onImport, data => onImport data

/-- What an engine makes of a key. -/
def Engine.importedKey (engine : Engine) (k : Key) : ImportedKey :=
  match engine with
  | .software => .ofBlockCipher k.size (Aes.encryptBlock (Aes.expandKey k))
  | .linked => .ofBlockCipher k.size (LinkedCipher.encryptBlock (LinkedCipher.prepare k))

/-- The linked library takes every key that has one of the three lengths. -/
theorem LinkedKey.ofBytes_eq (data : Bytes) :
    ofBytes data = (Key.ofBytes data).map fun k ↦ ⟨k.size, LinkedCipher.prepare k⟩ := by
  cases hk : Key.ofBytes data with
  | ok k =>
    obtain rfl := Key.ofBytes_eq_ok_iff.1 hk
    simp only [ofBytes, Key.ofLength_of_ofBytes hk, LinkedCipher.ofBytes_toBytes]
    rfl
  | error e =>
    rw [ofBytes, Key.ofLength_of_ofBytes_error hk]
    rfl

/-- Both engines take whatever is a key, and nothing else. -/
theorem Engine.importKey_eq (engine : Engine) (data : Bytes) :
    engine.importKey data = (Key.ofBytes data).map engine.importedKey := by
  cases engine with
  | software => rfl
  | linked =>
    rw [importKey, LinkedKey.ofBytes_eq]
    cases Key.ofBytes data with
    | ok k => rfl
    | error e => rfl

end AesEcb
