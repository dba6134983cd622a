import AesEcb.Proofs.KeyExpansion
import Mathlib.Data.LawfulXor.Basic

/-!
# Windows on the key schedule

A window shows as many consecutive words of a schedule as the key has.  It can be moved by one word
in either direction, so every window leads back to the key: no two keys of one size show the same in
a window, and whatever a window shows, some key shows it.
-/

namespace AesEcb

namespace Aes

theorem Word.ofBytes_byte (w : Word) :
    ofBytes (w.byte 0) (w.byte 1) (w.byte 2) (w.byte 3) = w := by
  apply UInt32.eq_of_toBitVec_eq
  ext j hj
  interval_cases j <;> simp [byte, ofBytes, -UInt32.toUInt32_toUInt8]

/-- Four bytes to a word, big end first. -/
def pack {n : Nat} (bytes : Vector UInt8 (4 * n)) : Vector Word n :=
  Vector.ofFn fun c : Fin n ↦
    Word.ofBytes bytes[4 * c.val] bytes[4 * c.val + 1] bytes[4 * c.val + 2] bytes[4 * c.val + 3]

def unpack {n : Nat} (words : Vector Word n) : Vector UInt8 (4 * n) :=
  Vector.ofFn fun i : Fin (4 * n) ↦ words[i.val / 4].byte ⟨i.val % 4, Nat.mod_lt _ (by decide)⟩

theorem pack_unpack {n : Nat} (words : Vector Word n) : pack (unpack words) = words := by
  apply Vector.ext
  intro c hc
  have hdiv : (4 * c + 1) / 4 = c ∧ (4 * c + 2) / 4 = c ∧ (4 * c + 3) / 4 = c := by omega
  simpa [pack, unpack, hdiv, Nat.mul_add_mod] using Word.ofBytes_byte words[c]

theorem unpack_pack {n : Nat} (bytes : Vector UInt8 (4 * n)) : unpack (pack bytes) = bytes := by
  apply Vector.ext
  intro i hi
  -- byte `r` of word `c`
  obtain ⟨c, r, hr, rfl⟩ : ∃ c r, r < 4 ∧ i = 4 * c + r :=
    ⟨i / 4, i % 4, Nat.mod_lt _ (by decide), (Nat.div_add_mod i 4).symm⟩
  have hdiv : (4 * c + r) / 4 = c := by omega
  have hmod : (4 * c + r) % 4 = r := by omega
  obtain ⟨h₀, h₁, h₂, h₃⟩ := Word.byte_ofBytes bytes[4 * c] bytes[4 * c + 1] bytes[4 * c + 2]
    bytes[4 * c + 3]
  simp only [unpack, pack, Vector.getElem_ofFn, hdiv, hmod]
  interval_cases r
  · exact h₀
  · exact h₁
  · exact h₂
  · exact h₃

/-- Strings of `n` words, as bytes and as words. -/
def packEquiv (n : Nat) : Vector UInt8 (4 * n) ≃ Vector Word n where
  toFun := pack
  invFun := unpack
  left_inv := unpack_pack
  right_inv := pack_unpack

/-! ### The recurrence of the schedule -/

theorem getElem_expandWords_of_le {k : Key} {m n i : Nat} (hmn : m ≤ n)
    (hn : k.size.words + n ≤ scheduleLength k.size) (hi : i < k.size.words + m) :
    (expandWords k n hn)[i] = (expandWords k m (by omega))[i] := by
  induction n with
  | zero =>
    obtain rfl := Nat.le_zero.1 hmn
    rfl
  | succ n ih =>
    rcases Nat.le_succ_iff.1 hmn with hle | rfl
    · have hlt : i < k.size.words + n := by omega
      rw [← ih hle (Nat.le_of_succ_le hn)]
      exact Vector.getElem_push_lt hlt
    · rfl

theorem getElem_schedule {k : Key} {n i : Nat} (hn : k.size.words + n ≤ scheduleLength k.size)
    (hi : i < k.size.words + n) : (schedule k)[i] = (expandWords k n hn)[i] := by
  have hmore : n ≤ scheduleLength k.size - k.size.words := by omega
  rw [← getElem_expandWords_of_le hmore (Nat.le_of_eq (words_add_extra k.size)) hi]
  exact Vector.getElem_cast _

theorem schedule_key (k : Key) {i : Nat} (hi : i < k.size.words) (h : i < scheduleLength k.size) :
    (schedule k)[i] = keyWord k ⟨i, hi⟩ := by
  have hn : k.size.words + 0 ≤ scheduleLength k.size := by
    have := words_add_extra k.size
    omega
  rw [getElem_schedule hn hi, expandWords, Vector.getElem_ofFn]

theorem schedule_next (k : Key) (n : Nat) (h : k.size.words + n < scheduleLength k.size)
    (hlast : k.size.words + n - 1 < scheduleLength k.size) :
    (schedule k)[k.size.words + n] =
      (schedule k)[n] ^^^
        mixWord k.size (k.size.words + n) h (schedule k)[k.size.words + n - 1] := by
  have hpos := words_pos k.size
  have hn : k.size.words + n ≤ scheduleLength k.size := Nat.le_of_lt h
  have hself : k.size.words + n < k.size.words + (n + 1) := Nat.lt_succ_self _
  rw [getElem_schedule h hself, getElem_schedule hn (by omega), getElem_schedule hn (by omega)]
  exact Vector.getElem_push_eq

theorem one_lt_words (s : KeySize) : 1 < s.words := by
  cases s <;> decide

/-- As many words as a key of the given size has. -/
abbrev Window (s : KeySize) := Vector Word s.words

namespace Window

variable {s : KeySize} {n : Nat}

/-- Drops the first word of a window at word `n` and appends the word that comes next. -/
def advance (w : Window s) (n : Nat) (h : s.words + n < scheduleLength s) : Window s :=
  have := words_pos s
  Vector.ofFn fun j : Fin s.words ↦
    if hj : j.val + 1 < s.words then w[j.val + 1]
    else w[0] ^^^ mixWord s (s.words + n) h w[s.words - 1]

/-- Drops the last word of a window at word `n + 1` and puts word `n` in front. -/
def retreat (w : Window s) (n : Nat) (h : s.words + n < scheduleLength s) : Window s :=
  -- The last word was made of word `n` and of the last word but one, which is in the window too.
  have := one_lt_words s
  Vector.ofFn fun j : Fin s.words ↦
    if j.val = 0 then w[s.words - 1] ^^^ mixWord s (s.words + n) h w[s.words - 2]
    else w[j.val - 1]

theorem retreat_advance (w : Window s) (h : s.words + n < scheduleLength s) :
    (w.advance n h).retreat n h = w := by
  have hone := one_lt_words s
  have hlast : s.words - 1 + 1 = s.words := by omega
  have hbefore : s.words - 2 + 1 = s.words - 1 := by omega
  apply Vector.ext
  intro j hj
  rcases Nat.eq_zero_or_pos j with rfl | hpos
  · simp [retreat, advance, hlast, hbefore, xor_cancel_right, words_pos]
  · have hj' : j - 1 + 1 = j := by omega
    simp [retreat, advance, hj', hpos.ne', hj]

theorem advance_retreat (w : Window s) (h : s.words + n < scheduleLength s) :
    (w.retreat n h).advance n h = w := by
  have hone := one_lt_words s
  have hbefore : s.words - 1 - 1 = s.words - 2 := rfl
  apply Vector.ext
  intro j hj
  by_cases hnext : j + 1 < s.words
  · simp [retreat, advance, hnext]
  · obtain rfl : j = s.words - 1 := by omega
    have hne : s.words - 1 ≠ 0 := by omega
    simp [retreat, advance, hnext, hne, hbefore, xor_cancel_right]

/-- The window at word `n` of the schedule of a key. -/
def ofKey (k : Key) (n : Nat) (h : k.size.words + n ≤ scheduleLength k.size) : Window k.size :=
  Vector.ofFn fun j : Fin k.size.words ↦ (schedule k)[n + j.val]

theorem ofKey_zero (k : Key) (h : k.size.words + 0 ≤ scheduleLength k.size) :
    ofKey k 0 h = pack (n := k.size.words) k.bytes := by
  apply Vector.ext
  intro j hj
  rw [ofKey, Vector.getElem_ofFn]
  simp only [Nat.zero_add]
  rw [schedule_key k hj (by omega)]
  exact (Vector.getElem_ofFn _).symm

theorem ofKey_succ (k : Key) (n : Nat) (h : k.size.words + (n + 1) ≤ scheduleLength k.size) :
    ofKey k (n + 1) h = (ofKey k n (Nat.le_of_succ_le h)).advance n h := by
  have hpos := words_pos k.size
  apply Vector.ext
  intro j hj
  by_cases hnext : j + 1 < k.size.words
  · have hindex : n + 1 + j = n + (j + 1) := by omega
    simp [ofKey, advance, hnext, hindex]
  · have hindex : n + 1 + j = k.size.words + n := by omega
    have hlast : n + (k.size.words - 1) = k.size.words + n - 1 := by omega
    have hword := schedule_next k n h (by omega)
    simp [ofKey, advance, hnext, hindex, hlast, hword]

/-- The bytes of the key to which a window at word `n` leads back. -/
def recover : (n : Nat) → s.words + n ≤ scheduleLength s → Window s → Vector UInt8 s.length
  | 0, _, w => unpack w
  | n + 1, h, w => recover n (Nat.le_of_succ_le h) (w.retreat n h)

theorem recover_ofKey (bytes : Vector UInt8 s.length) (h : s.words + n ≤ scheduleLength s) :
    recover n h (ofKey ⟨s, bytes⟩ n h) = bytes := by
  induction n with
  | zero =>
    rw [recover, ofKey_zero]
    exact unpack_pack bytes
  | succ n ih => rw [recover, ofKey_succ, retreat_advance, ih]

theorem ofKey_recover (w : Window s) (h : s.words + n ≤ scheduleLength s) :
    ofKey ⟨s, recover n h w⟩ n h = w := by
  induction n generalizing w with
  | zero => exact (ofKey_zero ⟨s, unpack w⟩ h).trans (pack_unpack w)
  | succ n ih => rw [ofKey_succ, recover, ih, advance_retreat]

/-- The bytes of a key, and what the window at word `n` of its schedule shows. -/
def keyEquiv (s : KeySize) (n : Nat) (h : s.words + n ≤ scheduleLength s) :
    Vector UInt8 s.length ≃ Window s where
  toFun bytes := ofKey ⟨s, bytes⟩ n h
  invFun w := recover n h w
  left_inv bytes := recover_ofKey bytes h
  right_inv w := ofKey_recover w h

end Window

end Aes

/-- The words of the round keys in use, from those of the first one on. -/
def RoundKeys.words (k : RoundKeys) : Vector Aes.Word (Aes.scheduleLength k.size) :=
  Vector.ofFn fun i ↦
    have : i.val / 4 < 15 := by
      have := k.rounds_lt
      have := i.isLt
      simp only [Aes.scheduleLength, RoundKeys.rounds] at *
      omega
    have := Nat.mod_lt i.val (show 0 < 4 by decide)
    (Aes.pack (n := 4) k.slots[i.val / 4])[i.val % 4]

namespace Aes

theorem slots_eq_unpack (k : Key) {r : Nat} (hr : r ≤ k.size.rounds) (hslot : r < 15)
    (h : ∀ c : Fin 4, 4 * r + c.val < scheduleLength k.size) :
    (expandKey k).slots[r] = unpack (n := 4) (Vector.ofFn fun c : Fin 4 ↦
      have := h c
      (schedule k)[4 * r + c.val]) := by
  apply Vector.ext
  intro i hi
  simp [expandKey, unpack, hr]

theorem words_expandKey (k : Key) : (expandKey k).words = schedule k := by
  apply Vector.ext
  intro i hi
  have hlength : i < 4 * (k.size.rounds + 1) := hi
  have hr : i / 4 ≤ k.size.rounds := by omega
  have hslot : i / 4 < 15 := hr.trans_lt k.size.rounds_lt
  have hword : ∀ c : Fin 4, 4 * (i / 4) + c.val < scheduleLength k.size := by
    intro c
    rw [scheduleLength]
    omega
  simp only [RoundKeys.words, Vector.getElem_ofFn, slots_eq_unpack k hr hslot hword, pack_unpack,
    Nat.div_add_mod]
  rfl

theorem getElem?_words (k : Key) {n j : Nat} (h : k.size.words + n ≤ scheduleLength k.size)
    (hj : j < k.size.words) : (expandKey k).words[n + j]? = some (Window.ofKey k n h)[j] := by
  have hlt : n + j < scheduleLength k.size := by omega
  rw [words_expandKey, Window.ofKey, Vector.getElem_ofFn]
  exact Vector.getElem?_eq_getElem hlt

theorem eq_of_words_eq {k k' : Key} (hsize : k.size = k'.size) {n : Nat}
    (h : k.size.words + n ≤ scheduleLength k.size)
    (heq : ∀ i, n ≤ i → i < n + k.size.words →
      (expandKey k).words[i]? = (expandKey k').words[i]?) : k = k' := by
  obtain ⟨s, bytes⟩ := k
  obtain ⟨s', bytes'⟩ := k'
  obtain rfl : s = s' := hsize
  have hwindow : Window.ofKey ⟨s, bytes⟩ n h = Window.ofKey ⟨s, bytes'⟩ n h := by
    apply Vector.ext
    intro j hj
    have hword := heq (n + j) (Nat.le_add_right _ _) (Nat.add_lt_add_left hj n)
    rw [getElem?_words _ h hj, getElem?_words ⟨s, bytes'⟩ h hj] at hword
    exact Option.some.inj hword
  exact congrArg (Key.mk s) ((Window.keyEquiv s n h).injective hwindow)

/-- A key of sixteen bytes, and its round key `r`. -/
def roundKeyPerm (r : Nat) (h : 4 + 4 * r ≤ scheduleLength .aes128) : Equiv.Perm Block :=
  (Window.keyEquiv .aes128 (4 * r) h).trans (packEquiv 4).symm

theorem get?_expandKey (bytes : Block) {r : Nat} (h : 4 + 4 * r ≤ scheduleLength .aes128) :
    (expandKey ⟨.aes128, bytes⟩).get? r = some (roundKeyPerm r h bytes) := by
  have hr : r ≤ KeySize.rounds .aes128 := by
    simp only [scheduleLength] at h
    omega
  have hslot : r < 15 := hr.trans_lt (KeySize.rounds_lt _)
  have hword : ∀ c : Fin 4, 4 * r + c.val < scheduleLength .aes128 := fun c ↦ by omega
  rw [RoundKeys.get?, Vector.getElem?_eq_getElem hslot, slots_eq_unpack _ hr hslot hword]
  rfl

/-- As many consecutive words of a schedule as the key has are those of one key of its size only.
Where the key has four words, it is permuted into each of its round keys. -/
theorem window_determines_key :
    (∀ (size : KeySize) (start : Nat), start + size.words ≤ 4 * (size.rounds + 1) →
      ∀ k k' : Key, k.size = size → k'.size = size →
        (∀ i, start ≤ i → i < start + size.words →
          (expandKey k).words[i]? = (expandKey k').words[i]?) →
        k = k' ∧ expandKey k = expandKey k') ∧
    ∀ r : Fin 11, ∃ f : Equiv.Perm Block, ∀ bytes : Block, ∃ k : Key,
      Key.ofBytes bytes.toList = .ok k ∧ k.size = .aes128 ∧
        (expandKey k).get? r = some (f bytes) := by
  constructor
  · rintro size start hstart k k' rfl hsize heq
    have hk : k = k' := eq_of_words_eq hsize.symm (by rwa [Nat.add_comm]) heq
    exact ⟨hk, congrArg expandKey hk⟩
  · intro r
    have h : 4 + 4 * r.val ≤ scheduleLength .aes128 := by
      have := r.isLt
      simp only [scheduleLength, KeySize.rounds, KeySize.words]
      omega
    exact ⟨roundKeyPerm r h, fun bytes ↦
      ⟨⟨.aes128, bytes⟩, Key.ofBytes_toBytes ⟨.aes128, bytes⟩, rfl, get?_expandKey bytes h⟩⟩

/-- The last six words of its schedule lead back to the key. -/
theorem window_determines_key_last :
    let k : Key := ⟨.aes192, Vector.ofFn fun i ↦ i.val.toUInt8⟩
    let k' : Key := ⟨.aes192, Window.recover 46 (Nat.le_refl 52)
      #v[0xa223800f, 0xd8aeda32, 0xa4970a33, 0x1a78dc09, 0xc418c271, 0xe3a41d5d]⟩
    (∀ i, 46 ≤ i → i < 52 → (expandKey k).words[i]? = (expandKey k').words[i]?) ∧
      k = k' ∧ expandKey k = expandKey k' := by
  intro k k'
  have h : ∀ i, 46 ≤ i → i < 52 → (expandKey k).words[i]? = (expandKey k').words[i]? := by
    decide +kernel
  exact ⟨h, window_determines_key.1 .aes192 46 (by decide) k k' rfl rfl h⟩

end Aes

end AesEcb
