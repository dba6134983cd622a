import AesEcb.Proofs.Codebook
import AesEcb.Proofs.Encryption
import AesEcb.Session.Basic
import AesEcb.Standard.KeyExpansion
import Mathlib.Data.Finmap

/-!
# The key store

What a client of the handle interface may take the library for: a store of keys, numbered in the
order of their creation.  There are no contexts, engines or round keys here; to encrypt is to
apply the standard to a key as it was recorded.
-/

namespace AesEcb

/-- The calls of a client that goes through handles only. -/
inductive Call where
  | create (key : Pointer) (offset length : Int32)
  | encrypt (handle : Handle) (input : Pointer) (inOffset length : Int32)
      (output : Pointer) (outOffset : Int32)
  | release (handle : Handle)
  | setDefault (engine : Engine)

/-- The buffer that a pointer refers to, if any, reaches to the end of the named bytes. -/
def Pointer.Holds (pointer : Pointer) (m : Memory) (offset length : Int32) : Prop :=
  ∀ name, pointer = some name → 0 ≤ offset → 0 ≤ length →
    offset.toInt + length.toInt ≤ (m name).length

instance (pointer : Pointer) (m : Memory) (offset length : Int32) :
    Decidable (pointer.Holds m offset length) :=
  match pointer with
  | none => .isTrue fun _ hname ↦ nomatch hname
  | some name =>
    decidable_of_iff (0 ≤ offset → 0 ≤ length → offset.toInt + length.toInt ≤ (m name).length)
      ⟨fun h _ hname ↦ Option.some.inj hname ▸ h, fun h ↦ h name rfl⟩

theorem Pointer.Holds.exists_region {name : String} {m : Memory} {offset length : Int32}
    (h : Pointer.Holds (some name) m offset length) (hoffset : 0 ≤ offset) (hlength : 0 ≤ length) :
    ∃ r, Region.ofSigned offset length = .ok r ∧ r.Fits (m name).length ∧
      r = ⟨offset.toInt.toNat, length.toInt.toNat⟩ := by
  have hr := Region.ofSigned_eq_ok_iff.2 ⟨hoffset, hlength, rfl⟩
  refine ⟨_, hr, ⟨Region.lt_addressLimit_of_ofSigned hr, ?_⟩, rfl⟩
  have hbound := h name rfl hoffset hlength
  have hoffset' := toInt_nonneg hoffset
  have hlength' := toInt_nonneg hlength
  simp only
  omega

namespace Call

def step : Call → Step
  | create key offset length => .handleCreate key offset length
  | encrypt h input inOffset length output outOffset =>
    .handleEncrypt h input inOffset length output outOffset
  | release h => .handleRelease h
  | setDefault engine => .setDefault engine

/-- What a client promises: every buffer is as long as the call says. -/
def Lawful (m : Memory) : Call → Prop
  | create key offset length => key.Holds m offset length
  | encrypt _ input inOffset length output outOffset =>
    input.Holds m inOffset length ∧ output.Holds m outOffset length
  | release _ => True
  | setDefault _ => True

instance (m : Memory) (c : Call) : Decidable (c.Lawful m) :=
  match c with
  | create key offset length => inferInstanceAs (Decidable (key.Holds m offset length))
  | encrypt _ input inOffset length output outOffset =>
    inferInstanceAs (Decidable (input.Holds m inOffset length ∧ output.Holds m outOffset length))
  | release _ => .isTrue trivial
  | setDefault _ => .isTrue trivial

theorem Lawful.of_length_eq {m m' : Memory}
    (hlength : ∀ name, (m' name).length = (m name).length) {c : Call} (h : c.Lawful m) :
    c.Lawful m' := by
  have hholds : ∀ {pointer : Pointer} {offset length : Int32}, pointer.Holds m offset length →
      pointer.Holds m' offset length := by
    intro pointer offset length hpointer name hname hoffset hnonneg
    rw [hlength name]
    exact hpointer name hname hoffset hnonneg
  cases c with
  | create key offset length => exact hholds h
  | encrypt h' input inOffset length output outOffset => exact ⟨hholds h.1, hholds h.2⟩
  | release h' => exact h
  | setDefault engine => exact h

end Call

/-- The key with the given bytes. -/
def keyOf? (data : Bytes) : Option Key :=
  if h : data.length = 16 then some ⟨.aes128, ⟨data.toArray, h⟩⟩
  else if h : data.length = 24 then some ⟨.aes192, ⟨data.toArray, h⟩⟩
  else if h : data.length = 32 then some ⟨.aes256, ⟨data.toArray, h⟩⟩
  else none

theorem keyOf?_toBytes (k : Key) : keyOf? k.toBytes = some k := by
  obtain ⟨size, bytes⟩ := k
  have hlength : bytes.toList.length = size.length := by simp
  have harray : bytes.toList.toArray = bytes.toArray := Array.toArray_toList
  cases size with
  | aes128 =>
    have h : bytes.toList.length = 16 := hlength
    simp [keyOf?, Key.toBytes, h, harray]
  | aes192 =>
    have h : bytes.toList.length = 24 := hlength
    simp [keyOf?, Key.toBytes, h, harray]
  | aes256 =>
    have h : bytes.toList.length = 32 := hlength
    simp [keyOf?, Key.toBytes, h, harray]

def Bytes.sub (data : Bytes) (offset length : Int32) : Bytes :=
  (data.drop offset.toInt.toNat).take length.toInt.toNat

/-- Puts `new` in the place of the bytes from `offset` on. -/
def Bytes.put (data : Bytes) (offset : Int32) (new : Bytes) : Bytes :=
  data.take offset.toInt.toNat ++ new ++ data.drop (offset.toInt.toNat + new.length)

theorem Bytes.length_put {data new : Bytes} {offset : Int32}
    (h : offset.toInt.toNat + new.length ≤ data.length) :
    (data.put offset new).length = data.length := by
  simp only [put, List.length_append, List.length_take, List.length_drop]
  omega

structure KeyStore where
  /-- The bytes of the live keys, by number. -/
  keys : Finmap fun _ : Nat ↦ Bytes := ∅
  /-- The number given out last. -/
  counter : Nat := 0

namespace KeyStore

/-- Encryption in the codebook mode, under the key with the given bytes. -/
def cipherText (key data : Bytes) : Bytes :=
  match keyOf? key with
  | some k => codebook (Standard.encryptBlock k) data
  | none => data

def create (s : KeyStore) (m : Memory) (key : Pointer) (offset length : Int32) :
    Handle × KeyStore :=
  match key with
  | none => (.null, s)
  | some name =>
    if 0 ≤ offset ∧ (length = 16 ∨ length = 24 ∨ length = 32) then
      (⟨.ofNat (s.counter + 1)⟩,
        { keys := s.keys.insert (s.counter + 1) ((m name).sub offset length)
          counter := s.counter + 1 })
    else (.null, s)

def encrypt (s : KeyStore) (m : Memory) (h : Handle) (input : Pointer)
    (inOffset length : Int32) (output : Pointer) (outOffset : Int32) : Int32 × Memory :=
  match s.keys.lookup h.id.toNat, input, output with
  | some key, some source, some target =>
    if 0 ≤ inOffset ∧ 0 ≤ outOffset ∧ 0 < length ∧ 16 ∣ length.toInt then
      let new := cipherText key ((m source).sub inOffset length)
      (length, Function.update m target ((m target).put outOffset new))
    else (0, m)
  | _, _, _ => (0, m)

def release (s : KeyStore) (h : Handle) : KeyStore := { s with keys := s.keys.erase h.id.toNat }

/-- The reply to a call, the store after it, and the memory after it. -/
def step (s : KeyStore) (m : Memory) : Call → Reply × KeyStore × Memory
  | .create key offset length =>
    let r := s.create m key offset length
    (.handle r.1, r.2, m)
  | .encrypt h input inOffset length output outOffset =>
    let r := s.encrypt m h input inOffset length output outOffset
    (.signed r.1, s, r.2)
  | .release h => (.done, s.release h, m)
  | .setDefault _ => (.done, s, m)

def run (s : KeyStore) (m : Memory) : List Call → List (Reply × Memory)
  | [] => []
  | c :: cs =>
    let r := s.step m c
    (r.1, r.2.2) :: run r.2.1 r.2.2 cs

end KeyStore

/-- What the caller sees of a step: the reply, and the memory. -/
def Session.Result.seen (r : Session.Result) : Reply × Memory :=
  (r.reply, r.session.process.memory)

/-- The reply is a handle that refers to something. -/
def Reply.issues : Reply → Bool
  | .handle h => !h.isNull
  | _ => false

namespace KeyStore

variable {t : KeyStore} {m : Memory} {h : Handle} {input output : Pointer}
  {inOffset length outOffset : Int32}

theorem create_accepted {name : String} {offset : Int32} (hoffset : 0 ≤ offset)
    (hlength : length = 16 ∨ length = 24 ∨ length = 32) :
    t.create m (some name) offset length = (⟨.ofNat (t.counter + 1)⟩,
      ⟨t.keys.insert (t.counter + 1) ((m name).sub offset length), t.counter + 1⟩) :=
  if_pos ⟨hoffset, hlength⟩

theorem create_refused {key : Pointer} {offset : Int32}
    (hbad : ¬ ∃ name, key = some name ∧ 0 ≤ offset ∧
      (length = 16 ∨ length = 24 ∨ length = 32)) :
    t.create m key offset length = (.null, t) := by
  cases key with
  | none => rfl
  | some name => exact if_neg fun hcall ↦ hbad ⟨name, rfl, hcall⟩

/-- What an encryption asks of its arguments. -/
structure Accepts (t : KeyStore) (h : Handle) (inOffset length outOffset : Int32)
    (key : Bytes) : Prop where
  live : t.keys.lookup h.id.toNat = some key
  inOffset_nonneg : 0 ≤ inOffset
  outOffset_nonneg : 0 ≤ outOffset
  length_pos : 0 < length
  length_dvd : 16 ∣ length.toInt

theorem encrypt_accepted {key : Bytes} {source target : String}
    (hcall : t.Accepts h inOffset length outOffset key) :
    t.encrypt m h (some source) inOffset length (some target) outOffset =
      (length, Function.update m target
        ((m target).put outOffset (cipherText key ((m source).sub inOffset length)))) := by
  simp only [encrypt, hcall.live]
  exact if_pos ⟨hcall.inOffset_nonneg, hcall.outOffset_nonneg, hcall.length_pos, hcall.length_dvd⟩

theorem encrypt_refused
    (hbad : ∀ key source target, input = some source → output = some target →
      ¬ t.Accepts h inOffset length outOffset key) :
    t.encrypt m h input inOffset length output outOffset = (0, m) := by
  unfold encrypt
  split
  · rename_i key source target hlookup
    refine if_neg ?_
    rintro ⟨hin, hout, hpos, hdvd⟩
    exact hbad key source target rfl rfl ⟨hlookup, hin, hout, hpos, hdvd⟩
  · rfl

theorem accepts_or_refuses (t : KeyStore) (h : Handle) (input output : Pointer)
    (inOffset length outOffset : Int32) :
    (∃ key source target, input = some source ∧ output = some target ∧
      t.Accepts h inOffset length outOffset key) ∨
    ∀ key source target, input = some source → output = some target →
      ¬ t.Accepts h inOffset length outOffset key := by
  by_cases hgood : ∃ key source target, input = some source ∧ output = some target ∧
      t.Accepts h inOffset length outOffset key
  · exact .inl hgood
  · exact .inr fun key source target hin hout hcall ↦
      hgood ⟨key, source, target, hin, hout, hcall⟩

theorem length_cipherText (key data : Bytes) : (cipherText key data).length = data.length := by
  rw [cipherText]
  cases keyOf? key with
  | none => rfl
  | some k => exact List.length_ofFn

/-- No call of a lawful client changes the size of a buffer. -/
theorem length_step (c : Call) (h : c.Lawful m) (name : String) :
    ((t.step m c).2.2 name).length = (m name).length := by
  cases c with
  | create key offset length => rfl
  | encrypt h' input inOffset length output outOffset =>
    show ((t.encrypt m h' input inOffset length output outOffset).2 name).length = _
    rcases t.accepts_or_refuses h' input output inOffset length outOffset with
      ⟨key, source, target, rfl, rfl, hcall⟩ | hbad
    · rw [encrypt_accepted hcall]
      dsimp only
      by_cases hname : name = target
      · subst hname
        have hlength : 0 ≤ length := Int32.le_of_lt hcall.length_pos
        obtain ⟨r, -, hfits, rfl⟩ := h.1.exists_region hcall.inOffset_nonneg hlength
        obtain ⟨r', -, hfits', rfl⟩ := h.2.exists_region hcall.outOffset_nonneg hlength
        have hsub : ((m source).sub inOffset length).length = length.toInt.toNat :=
          Region.length_extract hfits
        rw [Function.update_self]
        refine Bytes.length_put ?_
        rw [length_cipherText, hsub]
        exact hfits'.2
      · rw [Function.update_of_ne hname]
    · rw [encrypt_refused hbad]
  | release h' => rfl
  | setDefault engine => rfl

/-- The counter moves only when a handle is issued. -/
theorem counter_step (c : Call) (hroom : t.counter + 1 < UInt64.size) :
    (t.step m c).2.1.counter ≤ t.counter + if (t.step m c).1.issues then 1 else 0 := by
  cases c with
  | create key offset length =>
    show (t.create m key offset length).2.counter ≤
      t.counter + if (Reply.handle (t.create m key offset length).1).issues then 1 else 0
    by_cases hgood : ∃ name, key = some name ∧ 0 ≤ offset ∧
        (length = 16 ∨ length = 24 ∨ length = 32)
    · obtain ⟨name, rfl, hoffset, hlength⟩ := hgood
      have hne : UInt64.ofNat (t.counter + 1) ≠ 0 := by
        rw [ne_eq, ← UInt64.toNat_inj, UInt64.toNat_ofNat_of_lt' hroom]
        exact Nat.succ_ne_zero _
      have hissues : (Reply.handle ⟨UInt64.ofNat (t.counter + 1)⟩).issues = true := by
        rw [Reply.issues, Handle.isNull, Bool.not_eq_true', beq_eq_false_iff_ne]
        exact hne
      rw [create_accepted hoffset hlength, hissues]
      exact le_rfl
    · rw [create_refused hgood]
      exact Nat.le_add_right _ _
  | encrypt h input inOffset length output outOffset => exact Nat.le_add_right _ _
  | release h => exact Nat.le_add_right _ _
  | setDefault engine => exact Nat.le_add_right _ _

end KeyStore

end AesEcb
