import AesEcb.Proofs.Agreement
import Mathlib.Data.LawfulXor.Basic

/-!
# Encryption is a permutation

Every layer of a round can be undone, and so can the cipher under any round keys.  In codebook mode
a context therefore permutes the byte strings of every length of whole blocks, and what it leaves
to be seen of a text is which of its blocks are equal.
-/

namespace AesEcb

namespace Standard

namespace Field

@[simp] theorem value_two : value 2 = AdjoinRoot.root modulus := by
  have h := value_double 1
  rwa [value_one, mul_one] at h

theorem value_small : value 3 = AdjoinRoot.root modulus + 1 ∧
    value 4 = AdjoinRoot.root modulus ^ 2 ∧ value 5 = AdjoinRoot.root modulus ^ 2 + 1 := by
  have hfour : value 4 = AdjoinRoot.root modulus ^ 2 := by
    have h := value_double 2
    rwa [value_two, ← pow_two] at h
  have hthree := value_xor 2 1
  have hfive := value_xor 4 1
  rw [value_two, value_one] at hthree
  rw [hfour, value_one] at hfive
  exact ⟨hthree, hfour, hfive⟩

theorem inverse_inverse (a : UInt8) : inverse (inverse a) = a := by
  by_cases ha : a = 0
  · rw [ha, inverse_zero, inverse_zero]
  · refine (eq_inverse_of_mul_eq_one ?_).symm
    apply value_injective
    rw [value_mul, mul_comm, value_mul_inverse ha, value_one]

theorem unaffine_affine : ∀ b : UInt8, unaffine (affine b) = b := by
  decide +kernel

end Field

theorem substitute_bijective : Function.Bijective substitute := by
  have haffine : Function.Bijective affine :=
    Function.bijective_iff_has_inverse.2
      ⟨Field.unaffine, Field.unaffine_affine, Field.affine_unaffine⟩
  exact haffine.comp (Function.Involutive.bijective Field.inverse_inverse)

namespace State

theorem bijective_of_twice {f : State → State} (h : Function.Involutive (f ∘ f)) :
    Function.Bijective f :=
  ⟨h.injective.of_comp, h.surjective.of_comp⟩

theorem getElem_shiftRows (s : State) (r c : Nat) (hr : r < 4) (hc : c < 4) :
    s.shiftRows[r][c] = s[r][(c + r) % 4] := by
  simp [shiftRows]

theorem shiftRows_bijective : Function.Bijective shiftRows := by
  -- Four shifts turn row `r` by `4 * r` places, which is no turn at all.
  apply bijective_of_twice
  intro s
  apply ext_getElem
  intro r c hr hc
  have hback : (c + r + r + r + r) % 4 = c := by omega
  simp [getElem_shiftRows, hback]

/-- Twice the matrix is the circulant matrix with first row `5, 0, 4, 0`. -/
theorem getElem_mixColumns_twice (s : State) (r c : Nat) (hr : r < 4) (hc : c < 4)
    (hopposite : (r + 2) % 4 < 4) :
    s.mixColumns.mixColumns[r][c] =
      Field.mul 5 s[r][c] ^^^ Field.mul 4 s[(r + 2) % 4][c] := by
  obtain ⟨h₃, h₄, h₅⟩ := Field.value_small
  have hturn : (r + 4) % 4 = r ∧ (r + 5) % 4 = (r + 1) % 4 ∧ (r + 6) % 4 = (r + 2) % 4 := by omega
  apply Field.value_injective
  simp only [getElem_mixColumns, Field.value_xor, Field.value_mul, Nat.mod_add_mod, Nat.add_assoc,
    Nat.reduceAdd, hturn, Field.value_two, Field.value_one, h₃, h₄, h₅]
  generalize AdjoinRoot.root Field.modulus = x
  linear_combination ((x + 1) * Field.value s[r][c] +
    (x ^ 2 + x + 1) * Field.value s[(r + 1) % 4][c] +
    (2 * x + 1) * (Field.value s[(r + 2) % 4][c] + Field.value s[(r + 3) % 4][c])) *
      CharTwo.two_eq_zero (R := Field.Residue)

theorem mixColumns_bijective : Function.Bijective mixColumns := by
  -- The fourth power of the matrix is the identity, and its square has only two entries in a row.
  apply bijective_of_twice
  intro s
  apply ext_getElem
  intro r c hr hc
  obtain ⟨-, h₄, h₅⟩ := Field.value_small
  have hlt : ∀ n, n % 4 < 4 := fun n ↦ Nat.mod_lt n (by decide)
  have hback : (r + 2 + 2) % 4 = r := by omega
  apply Field.value_injective
  simp only [Function.comp_apply, getElem_mixColumns_twice, hr, hlt, Field.value_xor,
    Field.value_mul, Nat.mod_add_mod, hback, h₄, h₅]
  generalize AdjoinRoot.root Field.modulus = x
  linear_combination ((x ^ 4 + x ^ 2) * Field.value s[r][c] +
    (x ^ 4 + x ^ 2) * Field.value s[(r + 2) % 4][c]) * CharTwo.two_eq_zero (R := Field.Residue)

theorem subBytes_bijective : Function.Bijective subBytes := by
  obtain ⟨g, hleft, hright⟩ := Function.bijective_iff_has_inverse.1 substitute_bijective
  refine Function.bijective_iff_has_inverse.2 ⟨fun s ↦ ofFn fun r c ↦ g s[r][c], ?_, ?_⟩
  · intro s
    apply ext_getElem
    intro r c hr hc
    simp [subBytes, hleft _]
  · intro s
    apply ext_getElem
    intro r c hr hc
    simp [subBytes, hright _]

theorem add_bijective (t : State) : Function.Bijective fun s : State ↦ s.add t := by
  apply Function.Involutive.bijective
  intro s
  apply ext_getElem
  intro r c hr hc
  simp [add]

theorem ofBlock_toBlock (s : State) : ofBlock s.toBlock = s := by
  apply ext_getElem
  intro r c hr hc
  have hrow : (4 * c + r) % 4 = r := by omega
  have hcol : (4 * c + r) / 4 = c := by omega
  simp [getElem_ofBlock, toBlock, hrow, hcol]

theorem ofBlock_bijective : Function.Bijective ofBlock :=
  Function.bijective_iff_has_inverse.2 ⟨toBlock, toBlock_ofBlock, ofBlock_toBlock⟩

theorem toBlock_bijective : Function.Bijective toBlock :=
  Function.bijective_iff_has_inverse.2 ⟨ofBlock, ofBlock_toBlock, toBlock_ofBlock⟩

theorem round_bijective (key : Block) : Function.Bijective (round key) :=
  (add_bijective _).comp (mixColumns_bijective.comp (shiftRows_bijective.comp subBytes_bijective))

/-- Rounds one after the other, with the round keys in the order of the list. -/
theorem rounds_bijective (key : Nat → Block) (l : List Nat) :
    Function.Bijective fun s : State ↦ l.foldl (fun s i ↦ round (key i) s) s := by
  induction l with
  | nil => exact Function.bijective_id
  | cons i l ih => exact ih.comp (round_bijective (key i))

end State

theorem cipher_bijective (n : Nat) (key : Nat → Block) : Function.Bijective (cipher n key) := by
  have hstart := (State.add_bijective (State.ofBlock (key 0))).comp State.ofBlock_bijective
  have hmiddle := State.rounds_bijective (fun i ↦ key (i + 1)) (List.range (n - 1))
  have hlast := (State.add_bijective (State.ofBlock (key n))).comp
    (State.shiftRows_bijective.comp State.subBytes_bijective)
  exact State.toBlock_bijective.comp (hlast.comp (hmiddle.comp hstart))

end Standard

/-- The byte strings of `n` bytes. -/
abbrev Bytes.OfLength (n : Nat) := {data : Bytes // data.length = n}

/-- The permutation of the strings of whole blocks that `f` brings about. -/
def ecbPerm (f : Equiv.Perm Block) {n : Nat} (h : n % 16 = 0) : Equiv.Perm (Bytes.OfLength n) where
  toFun data := ⟨ecb f data, by rw [length_ecb (by rw [data.2, h]), data.2]⟩
  invFun data := ⟨ecb f.symm data, by rw [length_ecb (by rw [data.2, h]), data.2]⟩
  left_inv data := Subtype.ext (ecb_leftInverse f.left_inv (by rw [data.2, h]))
  right_inv data := Subtype.ext (ecb_leftInverse f.right_inv (by rw [data.2, h]))

namespace Context

variable {ε : Type} {c : Context}

theorem encrypt_ofBlockCipher {size : KeySize} {f : Block → Block}
    (hkey : c.key = .ofBlockCipher size f) {input output : Bytes}
    (hlength : input.length = output.length) (haligned : checkAligned input.length = .ok ())
    (p : Process) :
    (c.encrypt input output : Action ε Encryption) p =
      ⟨.ok ⟨ecb f input, .ok input.length⟩,
        [.diagnostic (.encrypting input.length), .crossing (.transformAsked c.owner input)],
        p⟩ := by
  rw [encrypt, if_neg (not_not.2 hlength), haligned]
  simp only [Encryption.afterCheck, Action.bind_run, encryptInPlace_run, hkey,
    ImportedKey.transform_ofBlockCipher haligned]
  rfl

/-- Encryption of `n` bytes permutes the strings of this length, and blocks that are equal remain
so, as do blocks that are not. -/
def PermutesBlocks (c : Context) (n : Nat) : Prop :=
  ∃ f : Equiv.Perm (Bytes.OfLength n),
    (∀ (data output : Bytes.OfLength n) (p : Process), ∃ t,
      (c.encrypt data output : Action CipherError Encryption) p = ⟨.ok ⟨f data, .ok n⟩, t, p⟩) ∧
    ∀ (data : Bytes.OfLength n) (i j : Fin (n / 16)),
      (f data).1.blockAt i = (f data).1.blockAt j ↔ data.1.blockAt i = data.1.blockAt j

theorem permutesBlocks_of_bijective {size : KeySize} {f : Block → Block}
    (hf : Function.Bijective f) (hkey : c.key = .ofBlockCipher size f) {n : Nat} (hpos : 0 < n)
    (hn : 16 ∣ n) : c.PermutesBlocks n := by
  have haligned : checkAligned n = .ok () :=
    checkAligned_eq_ok_iff.2 ⟨hpos.ne', Nat.mod_eq_zero_of_dvd hn⟩
  refine ⟨ecbPerm (Equiv.ofBijective f hf) (Nat.mod_eq_zero_of_dvd hn), ?_, ?_⟩
  · intro data output p
    have hrun := encrypt_ofBlockCipher (ε := CipherError) hkey (data.2.trans output.2.symm)
      (by rw [data.2, haligned]) p
    rw [hrun, data.2]
    exact ⟨_, rfl⟩
  · intro data i j
    have hblock : ∀ k : Fin (n / 16), (ecb f data).blockAt k = f (data.1.blockAt k) :=
      fun k ↦ blockAt_ecb (by rw [data.2]; exact k.2)
    show (ecb f data).blockAt i = (ecb f data).blockAt j ↔ _
    rw [hblock, hblock, hf.injective.eq_iff]

end Context

theorem Aes.encryptBlock_bijective (k : RoundKeys) : Function.Bijective (Aes.encryptBlock k) := by
  rw [funext (Aes.encryptBlock_eq k)]
  exact Standard.cipher_bijective _ _

/-- Both engines make of a key one that permutes the blocks. -/
theorem Engine.exists_importedKey_eq [LinkedCipher] (engine : Engine)
    (hlib : engine = .linked → LinkedCipher.MeetsStandard) (k : Key) :
    ∃ f, Function.Bijective f ∧ engine.importedKey k = .ofBlockCipher k.size f := by
  cases engine with
  | software => exact ⟨_, Aes.encryptBlock_bijective _, rfl⟩
  | linked =>
    refine ⟨Standard.encryptBlock k, Standard.cipher_bijective _ _, ?_⟩
    rw [importedKey, funext (hlib rfl k)]

/-- The cipher permutes the blocks under any round keys.  With a context on either engine, the byte
strings of any number of whole blocks are therefore permuted, and two blocks of the result are equal
just when those that stood in their places are. -/
theorem Context.encryption_permutes [LinkedCipher] :
    (∀ k : RoundKeys, Function.Bijective (Aes.encryptBlock k)) ∧
      ∀ engine : Engine, (engine = .linked → LinkedCipher.MeetsStandard) →
        ∀ (key : Bytes) (p : Process), key.length = 16 ∨ key.length = 24 ∨ key.length = 32 →
          ∃ c, (Context.ofProvider (.builtIn engine) key p).outcome = .ok c ∧
            ∀ n, 0 < n → 16 ∣ n → c.PermutesBlocks n := by
  refine ⟨Aes.encryptBlock_bijective, fun engine hlib key p hkey ↦ ?_⟩
  obtain ⟨k, hk⟩ := Key.exists_ofBytes_of_length hkey
  obtain ⟨f, hf, himported⟩ := engine.exists_importedKey_eq hlib k
  exact ⟨_, Context.ofProvider_builtIn_outcome engine hk p, fun n hpos hn ↦
    Context.permutesBlocks_of_bijective hf himported hpos hn⟩

/-- Two blocks, encrypted by the linked library. -/
theorem Context.encryption_permutes_linked :
    ∃ c, (Context.ofProvider (.builtIn .linked) (List.replicate 24 0x41) {}).outcome = .ok c ∧
      c.PermutesBlocks 32 := by
  obtain ⟨c, hc, hpermutes⟩ := Context.encryption_permutes.2 .linked
    (fun _ ↦ LinkedCipher.equations_meetsStandard) (List.replicate 24 0x41) {}
    (.inr (.inl (by decide)))
  exact ⟨c, hc, hpermutes 32 (by decide) (by decide)⟩

end AesEcb
