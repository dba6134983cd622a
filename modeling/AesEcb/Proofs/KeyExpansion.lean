import AesEcb.Proofs.Cipher
import AesEcb.Proofs.WordArray
import AesEcb.Standard.KeyExpansion
import Mathlib.Data.List.GetD

/-!
# The key schedule agrees with the standard

Word for word, read as four bytes from the big end, the schedule is the key expansion of the
standard, and that expansion obeys the recurrence by which the standard defines it.
-/

namespace AesEcb

namespace Aes

namespace Word

/-- The bytes of a word, from the big end. -/
def bytes (w : Word) : Standard.Word := Vector.ofFn w.byte

theorem byte_ofBytes (b₀ b₁ b₂ b₃ : UInt8) :
    (ofBytes b₀ b₁ b₂ b₃).byte 0 = b₀ ∧ (ofBytes b₀ b₁ b₂ b₃).byte 1 = b₁ ∧
    (ofBytes b₀ b₁ b₂ b₃).byte 2 = b₂ ∧ (ofBytes b₀ b₁ b₂ b₃).byte 3 = b₃ := by
  refine ⟨?_, ?_, ?_, ?_⟩
  all_goals
    apply UInt8.eq_of_toBitVec_eq
    ext j hj
    interval_cases j <;> simp [byte, ofBytes]

theorem bytes_ofBytes (b₀ b₁ b₂ b₃ : UInt8) : (ofBytes b₀ b₁ b₂ b₃).bytes = #v[b₀, b₁, b₂, b₃] := by
  obtain ⟨h₀, h₁, h₂, h₃⟩ := byte_ofBytes b₀ b₁ b₂ b₃
  apply Vector.ext
  intro i hi
  interval_cases i <;> simp [bytes, h₀, h₁, h₂, h₃]

theorem byte_xor (v w : Word) (i : Fin 4) : (v ^^^ w).byte i = v.byte i ^^^ w.byte i := by
  simp [byte, UInt32.shiftRight_xor]

theorem bytes_xor (v w : Word) : (v ^^^ w).bytes = v.bytes.add w.bytes := by
  apply Vector.ext
  intro i hi
  simp [bytes, byte_xor, Standard.Word.add]

theorem byte_rotate (w : Word) :
    w.rotate.byte 0 = w.byte 1 ∧ w.rotate.byte 1 = w.byte 2 ∧
    w.rotate.byte 2 = w.byte 3 ∧ w.rotate.byte 3 = w.byte 0 := by
  refine ⟨?_, ?_, ?_, ?_⟩
  all_goals
    apply UInt8.eq_of_toBitVec_eq
    ext j hj
    interval_cases j <;> simp [byte, rotate]

theorem bytes_rotate (w : Word) : w.rotate.bytes = w.bytes.rotate := by
  obtain ⟨h₀, h₁, h₂, h₃⟩ := byte_rotate w
  apply Vector.ext
  intro i hi
  interval_cases i <;> simp [bytes, Standard.Word.rotate, h₀, h₁, h₂, h₃]

theorem substitute_eq_ofBytes (w : Word) :
    w.substitute = ofBytes (Aes.substitute (w.byte 0)) (Aes.substitute (w.byte 1))
      (Aes.substitute (w.byte 2)) (Aes.substitute (w.byte 3)) := rfl

theorem bytes_substitute (w : Word) : w.substitute.bytes = w.bytes.substitute := by
  rw [substitute_eq_ofBytes, bytes_ofBytes]
  apply Vector.ext
  intro i hi
  interval_cases i <;> simp [bytes, Standard.Word.substitute, Standard.Field.substitute_eq]

theorem bytes_constant (c : UInt8) : bytes (c.toUInt32 <<< 24) = #v[c, 0, 0, 0] := by
  have h : c.toUInt32 <<< 24 = ofBytes c 0 0 0 := by simp [ofBytes]
  rw [h, bytes_ofBytes]

end Word

theorem roundConstants_eq (n : Fin 10) : roundConstants[n] = Standard.Field.xPower n := by
  revert n
  decide

theorem bytes_mixWord (s : KeySize) (i : Nat) (h : i < scheduleLength s) (before : Word) :
    (mixWord s i h before).bytes = Standard.expansionTerm s.words i before.bytes := by
  rw [mixWord, Standard.expansionTerm]
  have hc := constant_index_lt h
  split
  · have hconstant := roundConstants_eq ⟨i / s.words - 1, hc⟩
    rw [Fin.getElem_fin] at hconstant
    rw [Word.bytes_xor, Word.bytes_substitute, Word.bytes_rotate, Word.bytes_constant, hconstant]
    rfl
  · split
    · exact Word.bytes_substitute before
    · rfl

theorem bytes_keyWord (k : Key) (i : Fin k.size.words) :
    (keyWord k i).bytes = Vector.ofFn fun j : Fin 4 ↦ k.toBytes.getD (4 * i.val + j.val) 0 := by
  have hi : 4 * i.val + 3 < k.size.length := by
    have := i.isLt
    simp only [KeySize.length]
    omega
  rw [keyWord, Word.bytes_ofBytes]
  apply Vector.ext
  intro j hj
  have hlt : 4 * i.val + j < k.size.length := by omega
  have hfirst : 4 * i.val < k.size.length := by omega
  interval_cases j <;> simp [Key.toBytes, hlt, hfirst]

theorem getD_map_bytes {m : Nat} (ws : Vector Word m) {i : Nat} (hi : i < m) :
    (ws.toList.map Word.bytes).getD i Standard.Word.zero = ws[i].bytes := by
  simp [hi]

theorem bytes_expandWords (k : Key) (n : Nat) (h : k.size.words + n ≤ scheduleLength k.size) :
    (expandWords k n h).toList.map Word.bytes =
      Nat.repeat (Standard.extend k.size.words) n (Standard.keyWords k) := by
  induction n with
  | zero =>
    apply List.ext_getElem
    · simp [Nat.repeat, Standard.keyWords]
    · intro i h₁ h₂
      simp [expandWords, Nat.repeat, Standard.keyWords, bytes_keyWord]
  | succ n ih =>
    have hpos := words_pos k.size
    have hlen : ((expandWords k n (Nat.le_of_succ_le h)).toList.map Word.bytes).length =
        k.size.words + n := by simp
    rw [Nat.repeat, ← ih (Nat.le_of_succ_le h), expandWords, Vector.toList_push, List.map_append,
      Standard.extend, hlen, Nat.add_sub_cancel_left, getD_map_bytes _ (by omega),
      getD_map_bytes _ (by omega), List.map_singleton, Word.bytes_xor, bytes_mixWord]

theorem bytes_schedule (k : Key) :
    (schedule k).toList.map Word.bytes = Standard.keyExpansion k := by
  rw [schedule, Vector.toList_cast, bytes_expandWords]
  rfl

theorem slots_expandKey (k : Key) (r : Fin 15) :
    (expandKey k).slots[r] =
      if r ≤ Standard.rounds k.size then Standard.roundKey (Standard.keyExpansion k) r
      else Block.zero := by
  rw [Standard.rounds_eq, ← bytes_schedule]
  by_cases hr : r.val ≤ k.size.rounds
  · have hlt (i : Fin 16) : 4 * r.val + i.val / 4 < scheduleLength k.size := by
      have := i.isLt
      simp only [scheduleLength]
      omega
    have hrow (i : Fin 16) := getD_map_bytes (schedule k) (hlt i)
    simp only [Standard.roundKey, hrow]
    simp [expandKey, hr, Word.bytes]
  · simp [expandKey, hr]

/-- Under the round keys of its schedule a key encrypts as the standard says. -/
theorem encryptBlock_expandKey (k : Key) :
    encryptBlock (expandKey k) = Standard.encryptBlock k := by
  funext b
  rw [encryptBlock_eq, Standard.encryptBlock, Standard.rounds_eq]
  refine Standard.cipher_congr ?_ b
  intro r hr
  have hlt : r < 15 := hr.trans_lt (expandKey k).rounds_lt
  have hslot := slots_expandKey k ⟨r, hlt⟩
  rw [if_pos (by rw [Standard.rounds_eq]; exact hr)] at hslot
  rw [RoundKeys.key_eq_getElem _ hlt]
  exact hslot

end Aes

namespace Standard

/-- The words `w` are the key, big end first, and then follow the recurrence of the standard. -/
structure IsExpansion (k : Key) (w : List Word) : Prop where
  length_eq : w.length = 4 * (rounds k.size + 1)
  key : ∀ i < k.size.words, w.getD i Word.zero =
    #v[k.toBytes.getD (4 * i) 0, k.toBytes.getD (4 * i + 1) 0, k.toBytes.getD (4 * i + 2) 0,
      k.toBytes.getD (4 * i + 3) 0]
  next : ∀ i, k.size.words ≤ i → i < w.length → w.getD i Word.zero =
    (w.getD (i - k.size.words) Word.zero).add
      (expansionTerm k.size.words i (w.getD (i - 1) Word.zero))

theorem length_keyWords (k : Key) : (keyWords k).length = k.size.words := by
  simp [keyWords]

theorem getD_keyWords (k : Key) {i : Nat} (hi : i < k.size.words) :
    (keyWords k).getD i Word.zero =
      #v[k.toBytes.getD (4 * i) 0, k.toBytes.getD (4 * i + 1) 0, k.toBytes.getD (4 * i + 2) 0,
        k.toBytes.getD (4 * i + 3) 0] := by
  have hlt : i < (keyWords k).length := by
    rw [length_keyWords]
    exact hi
  rw [List.getD_eq_getElem _ _ hlt]
  simp only [keyWords, List.getElem_map, List.getElem_range]
  rfl

theorem length_repeat_extend (n m : Nat) (ws : List Word) :
    (Nat.repeat (extend n) m ws).length = ws.length + m := by
  induction m with
  | zero => rfl
  | succ m ih =>
    rw [Nat.repeat, extend, List.length_append, ih, List.length_singleton, Nat.add_assoc]

theorem prefix_repeat_extend (n : Nat) {m m' : Nat} (h : m ≤ m') (ws : List Word) :
    Nat.repeat (extend n) m ws <+: Nat.repeat (extend n) m' ws := by
  induction m' with
  | zero =>
    rw [Nat.le_zero.1 h]
  | succ m' ih =>
    rcases Nat.le_succ_iff.1 h with hle | rfl
    · exact (ih hle).trans (List.prefix_append _ _)
    · exact List.prefix_refl _

theorem getD_eq_of_begins {v w : List Word} (h : v <+: w) {i : Nat} (hi : i < v.length) :
    w.getD i Word.zero = v.getD i Word.zero := by
  obtain ⟨rest, rfl⟩ := h
  exact List.getD_append _ _ _ _ hi

theorem isExpansion_keyExpansion (k : Key) : IsExpansion k (keyExpansion k) := by
  have hpos := Aes.words_pos k.size
  have hlen : ∀ m, (Nat.repeat (extend k.size.words) m (keyWords k)).length = k.size.words + m := by
    intro m
    rw [length_repeat_extend, length_keyWords]
  have htotal : (keyExpansion k).length = 4 * (k.size.rounds + 1) :=
    (hlen _).trans (Aes.words_add_extra k.size)
  refine ⟨by rw [htotal, rounds_eq], ?_, ?_⟩
  · intro i hi
    rw [keyExpansion, getD_eq_of_begins (prefix_repeat_extend _ (Nat.zero_le _) _)
      (by rw [hlen]; exact hi)]
    exact getD_keyWords k hi
  · intro i hki hi
    -- the stage of the expansion that adds word `i`
    obtain ⟨m, rfl⟩ := Nat.exists_eq_add_of_le hki
    have hstage : Nat.repeat (extend k.size.words) (m + 1) (keyWords k) <+: keyExpansion k :=
      prefix_repeat_extend k.size.words (by omega) (keyWords k)
    have hbefore : Nat.repeat (extend k.size.words) m (keyWords k) <+: keyExpansion k :=
      (List.prefix_append _ _).trans hstage
    have hlast := getD_eq_of_begins hstage (i := k.size.words + m) (by rw [hlen]; omega)
    rw [Nat.repeat, extend, List.getD_append_right _ _ _ _ (by rw [hlen]), hlen, Nat.sub_self,
      Nat.add_sub_cancel_left] at hlast
    rw [hlast, Nat.add_sub_cancel_left, getD_eq_of_begins hbefore (by rw [hlen]; omega),
      getD_eq_of_begins hbefore (by rw [hlen]; omega)]
    rfl

end Standard

namespace Aes

/-- Expanding a key stays within the array of words and the round constants, and gives the round
keys of the standard, followed by zeros. -/
theorem expandKey_eq_keyExpansion (k : Key) :
    expandKey? k = some (expandKey k) ∧ (expandKey k).size = k.size ∧
      Standard.IsExpansion k (Standard.keyExpansion k) ∧
      ∀ r : Fin 15, (expandKey k).slots[r] =
        if r ≤ Standard.rounds k.size then Standard.roundKey (Standard.keyExpansion k) r
        else Block.zero :=
  ⟨expandKey?_eq_some k, rfl, Standard.isExpansion_keyExpansion k, slots_expandKey k⟩

end Aes

end AesEcb
