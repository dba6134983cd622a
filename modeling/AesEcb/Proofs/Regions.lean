import AesEcb.Aes.Key
import AesEcb.Boundary.Encrypt

/-!
# Regions given by signed arguments

What an offset and a length say when both are non-negative: the region they name, whether it fits,
and which lengths are those of keys and of whole blocks.
-/

namespace AesEcb

theorem toInt_nonneg {n : Int32} (h : 0 ≤ n) : 0 ≤ n.toInt := by
  simpa using Int32.le_iff_toInt_le.1 h

theorem checkAligned_toNat_iff {length : Int32} (h : 0 ≤ length) :
    checkAligned length.toInt.toNat = .ok () ↔ 0 < length ∧ 16 ∣ length.toInt := by
  have hnonneg := toInt_nonneg h
  have hpos : 0 < length ↔ 0 < length.toInt := by
    rw [Int32.lt_iff_toInt_lt]
    rfl
  rw [checkAligned_eq_ok_iff, hpos]
  omega

theorem KeySize.exists_length_eq_iff {n : Nat} :
    (∃ s : KeySize, s.length = n) ↔ n = 16 ∨ n = 24 ∨ n = 32 := by
  constructor
  · rintro ⟨s, rfl⟩
    cases s with
    | aes128 => exact .inl rfl
    | aes192 => exact .inr (.inl rfl)
    | aes256 => exact .inr (.inr rfl)
  · rintro (rfl | rfl | rfl)
    · exact ⟨.aes128, rfl⟩
    · exact ⟨.aes192, rfl⟩
    · exact ⟨.aes256, rfl⟩

theorem KeySize.exists_ofLength {n : Nat} (h : n = 16 ∨ n = 24 ∨ n = 32) :
    ∃ s, ofLength n = .ok s :=
  (exists_length_eq_iff.2 h).imp fun _ ↦ ofLength_eq_ok_iff.2

theorem KeySize.ofLength_eq_error {n : Nat} (h : ¬ (n = 16 ∨ n = 24 ∨ n = 32)) :
    ofLength n = .error (.invalidKeyLength n) := by
  cases hsize : ofLength? n with
  | none => rw [ofLength, hsize]
  | some s => exact absurd (exists_length_eq_iff.1 ⟨s, ofLength?_eq_some_iff.1 hsize⟩) h

theorem KeySize.exists_length_iff {length : Int32} (h : 0 ≤ length) :
    (∃ s : KeySize, s.length = length.toInt.toNat) ↔ length = 16 ∨ length = 24 ∨ length = 32 := by
  have hnonneg := toInt_nonneg h
  have hvalue : ∀ n : Nat, n < 2 ^ 31 → (length.toInt.toNat = n ↔ length = Int32.ofNat n) := by
    intro n hn
    rw [← Int32.toInt_inj, Int32.toInt_ofNat_of_lt hn]
    omega
  exact exists_length_eq_iff.trans (or_congr (hvalue 16 (by decide))
    (or_congr (hvalue 24 (by decide)) (hvalue 32 (by decide))))

namespace Region

variable {r : Region} {size : Nat} {data new : Bytes}

theorem ofSigned_eq_ok_iff {offset length : Int32} :
    ofSigned offset length = .ok r ↔
      0 ≤ offset ∧ 0 ≤ length ∧ r = ⟨offset.toInt.toNat, length.toInt.toNat⟩ := by
  rw [ofSigned]
  by_cases hoffset : offset < 0
  · have hnot : ¬ 0 ≤ offset := Int32.not_le.2 hoffset
    simp [hoffset, hnot]
  · by_cases hlength : length < 0
    · have hnot : ¬ 0 ≤ length := Int32.not_le.2 hlength
      simp [hoffset, hlength, hnot]
    · simp [hoffset, hlength, Int32.not_lt.1 hoffset, Int32.not_lt.1 hlength, eq_comm]

theorem lt_addressLimit_of_ofSigned {offset length : Int32} (h : ofSigned offset length = .ok r) :
    r.offset + r.length < addressLimit := by
  obtain ⟨-, -, rfl⟩ := ofSigned_eq_ok_iff.1 h
  have hoffset := offset.toInt_lt
  have hlength := length.toInt_lt
  simp only [addressLimit, UInt64.size]
  omega

theorem length_lt_of_ofSigned {offset length : Int32} (h : ofSigned offset length = .ok r) :
    r.length < Boundary.countLimit := by
  obtain ⟨-, -, rfl⟩ := ofSigned_eq_ok_iff.1 h
  have hlength := length.toInt_lt
  simp only [Boundary.countLimit]
  omega

theorem length_eq_of_ofSigned {r' : Region} {offset offset' length : Int32}
    (h : ofSigned offset length = .ok r) (h' : ofSigned offset' length = .ok r') :
    r.length = r'.length := by
  obtain ⟨-, -, rfl⟩ := ofSigned_eq_ok_iff.1 h
  obtain ⟨-, -, rfl⟩ := ofSigned_eq_ok_iff.1 h'
  rfl

/-- A region fits the part of a buffer that it reaches into just when it fits the buffer. -/
theorem fits_take_iff :
    r.Fits (data.take (r.offset + r.length)).length ↔ r.Fits data.length := by
  simp only [Fits, List.length_take]
  omega

theorem extract_take : r.extract (data.take (r.offset + r.length)) = r.extract data := by
  rw [extract, extract, List.drop_take, List.take_take]
  congr 1
  omega

theorem slice_eq_ok_iff : r.slice data = .ok new ↔ r.Fits data.length ∧ r.extract data = new := by
  by_cases h : r.Fits data.length
  · simp [slice, check, h, Except.map]
  · simp [slice, check, h, Except.map]

theorem slice_eq_error (h : ¬ r.Fits data.length) :
    r.slice data = .error (.outOfBounds r.offset r.length data.length) := by
  simp only [slice, check, if_neg h, Except.map]

theorem replace_eq_self_iff (h : r.Fits data.length) (hnew : new.length = r.length) :
    r.replace data new = data ↔ new = r.extract data := by
  constructor
  · intro hsame
    rw [← extract_replace h hnew, hsame]
  · rintro rfl
    rw [replace, extract, List.append_assoc, ← List.drop_drop, List.take_append_drop,
      List.take_append_drop]

/-- The bytes around the region stay as they are. -/
theorem getElem?_replace (h : r.Fits data.length) (hnew : new.length = r.length) {i : Nat}
    (hi : i < r.offset ∨ r.offset + r.length ≤ i) : (r.replace data new)[i]? = data[i]? := by
  have hbound := h.2
  have hfront : (data.take r.offset).length = r.offset := List.length_take_of_le (by omega)
  rw [replace, List.append_assoc]
  rcases hi with hi | hi
  · rw [List.getElem?_append_left (by rw [hfront]; exact hi), List.getElem?_take_of_lt hi]
  · rw [List.getElem?_append_right (by omega), List.getElem?_append_right (by omega),
      List.getElem?_drop, hfront, hnew]
    congr 1
    omega

end Region

/-- A region given by signed arguments ends where a buffer can reach: both ways in which the number
of bytes up to its end might be refused are out of the question. -/
theorem Boundary.span_of_ofSigned {r : Region} {offset length : Int32}
    (h : Region.ofSigned offset length = .ok r) : span r = .ok (r.offset + r.length) := by
  obtain ⟨-, -, rfl⟩ := Region.ofSigned_eq_ok_iff.1 h
  have hoffset := offset.toInt_lt
  have hlength := length.toInt_lt
  rw [span, Region.stop?, if_pos (Region.lt_addressLimit_of_ofSigned h)]
  refine if_pos ?_
  simp only [bufferLimit]
  omega

theorem Boundary.signedCount_toNat {length : Int32} (h : 0 ≤ length) :
    signedCount length.toInt.toNat = .ok length := by
  have hnonneg := toInt_nonneg h
  have hlt : length.toInt.toNat < countLimit := by
    have := length.toInt_lt
    simp only [countLimit]
    omega
  have hsame : Int32.ofNat length.toInt.toNat = length := by
    rw [← Int32.toInt_inj, Int32.toInt_ofNat_of_lt hlt, Int.toNat_of_nonneg hnonneg]
  rw [signedCount, if_pos hlt, hsame]

end AesEcb
