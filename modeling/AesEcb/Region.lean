import AesEcb.Block
import AesEcb.Error

/-!
# Regions of buffers

A region names the bytes `offset, …, offset + length - 1` of some buffer.  Whether it fits is
decided when it is applied: it must end within the buffer, and its end must be an address.
-/

namespace AesEcb

/-- Addresses and sizes are 64-bit words. -/
def addressLimit : Nat := UInt64.size

structure Region where
  offset : Nat
  length : Nat
deriving DecidableEq, Repr

namespace Region

variable {r : Region} {data new : Bytes}

/-- One past the last byte, or `none` where that is no address. -/
def stop? (r : Region) : Option Nat :=
  if r.offset + r.length < addressLimit then some (r.offset + r.length) else none

/-- The region lies within a buffer of `size` bytes. -/
def Fits (r : Region) (size : Nat) : Prop :=
  r.offset + r.length < addressLimit ∧ r.offset + r.length ≤ size

instance (r : Region) (size : Nat) : Decidable (r.Fits size) :=
  inferInstanceAs (Decidable (_ ∧ _))

theorem fits_iff_stop? {size : Nat} : r.Fits size ↔ ∃ e, r.stop? = some e ∧ e ≤ size := by
  by_cases h : r.offset + r.length < addressLimit <;> simp [Fits, stop?, h]

def check (r : Region) (size : Nat) : Except CipherError Unit :=
  if r.Fits size then .ok () else .error (.outOfBounds r.offset r.length size)

/-- The bytes of `data` that the region covers; fewer than `r.length` where it does not fit. -/
def extract (r : Region) (data : Bytes) : Bytes := (data.drop r.offset).take r.length

/-- Puts `new` in the place of the bytes that the region covers. -/
def replace (r : Region) (data new : Bytes) : Bytes :=
  data.take r.offset ++ new ++ data.drop (r.offset + r.length)

def slice (r : Region) (data : Bytes) : Except CipherError Bytes :=
  (r.check data.length).map fun _ ↦ r.extract data

/-- Applies `f` to the bytes that the region covers. -/
def modify (r : Region) (data : Bytes) (f : Bytes → Bytes) : Except CipherError Bytes :=
  (r.slice data).map fun bytes ↦ r.replace data (f bytes)

/-- Reads a region from signed arguments; of two negative ones the offset is reported. -/
def ofSigned (offset length : Int32) : Except CipherError Region :=
  if offset < 0 then .error (.negativeArgument .offset offset.toInt)
  else if length < 0 then .error (.negativeArgument .length length.toInt)
  else .ok ⟨offset.toInt.toNat, length.toInt.toNat⟩

def debug (r : Region) : String := s!"Region \x7b offset: {r.offset}, len: {r.length} \x7d"

theorem length_extract (h : r.Fits data.length) : (r.extract data).length = r.length := by
  simp only [extract, List.length_take, List.length_drop]
  have := h.2
  omega

theorem length_replace (h : r.Fits data.length) (hn : new.length = r.length) :
    (r.replace data new).length = data.length := by
  simp only [replace, List.length_append, List.length_take, List.length_drop]
  have := h.2
  omega

theorem extract_replace (h : r.Fits data.length) (hn : new.length = r.length) :
    r.extract (r.replace data new) = new := by
  have hlen : (data.take r.offset).length = r.offset := by
    rw [List.length_take]
    have := h.2
    omega
  rw [extract, replace, List.append_assoc, List.drop_left' hlen, List.take_left' hn]

end Region

end AesEcb
