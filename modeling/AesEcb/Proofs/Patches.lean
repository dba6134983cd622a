import AesEcb.Proofs.Creation

/-!
# What a call reads and writes of the memory

A call reads one region of a buffer, and an encryption writes another.  What it does follows from
the bytes it reads and from the sizes of the buffers; what it writes is a patch, and patches of
regions that share no byte may be put on in either order.
-/

namespace AesEcb

namespace Region

variable {r r' : Region} {data new new' : Bytes} {i : Nat}

/-- The regions share a byte. -/
def Meets (r r' : Region) : Prop :=
  max r.offset r'.offset < min (r.offset + r.length) (r'.offset + r'.length)

instance (r r' : Region) : Decidable (r.Meets r') := inferInstanceAs (Decidable (_ < _))

theorem getElem?_extract (r : Region) (data : Bytes) (i : Nat) :
    (r.extract data)[i]? = if i < r.length then data[r.offset + i]? else none := by
  rw [extract, List.getElem?_take, List.getElem?_drop]

theorem getElem?_replace_within (h : r.Fits data.length) (hnew : new.length = r.length)
    (hi : i < r.length) : (r.replace data new)[r.offset + i]? = new[i]? := by
  have hself := getElem?_extract r (r.replace data new) i
  rw [extract_replace h hnew, if_pos hi] at hself
  exact hself.symm

theorem extract_replace_of_not_meets (h : r.Fits data.length) (hnew : new.length = r.length)
    (hapart : ¬ r.Meets r') : r'.extract (r.replace data new) = r'.extract data := by
  apply List.ext_getElem?
  intro i
  simp only [getElem?_extract]
  split
  · apply getElem?_replace h hnew
    simp only [Meets] at hapart
    omega
  · rfl

theorem replace_comm (h : r.Fits data.length) (h' : r'.Fits data.length)
    (hnew : new.length = r.length) (hnew' : new'.length = r'.length) (hapart : ¬ r.Meets r') :
    r'.replace (r.replace data new) new' = r.replace (r'.replace data new') new := by
  have hfits : r.Fits (r'.replace data new').length := by rwa [length_replace h' hnew']
  have hfits' : r'.Fits (r.replace data new).length := by rwa [length_replace h hnew]
  apply List.ext_getElem?
  intro i
  have houtside : ∀ {r : Region}, ¬ (r.offset ≤ i ∧ i < r.offset + r.length) →
      i < r.offset ∨ r.offset + r.length ≤ i := by
    intro r hr
    omega
  by_cases hr : r.offset ≤ i ∧ i < r.offset + r.length
  · have hr' : ¬ (r'.offset ≤ i ∧ i < r'.offset + r'.length) := by
      simp only [Meets] at hapart
      omega
    obtain ⟨j, rfl⟩ := Nat.exists_eq_add_of_le hr.1
    have hj : j < r.length := by omega
    rw [getElem?_replace hfits' hnew' (houtside hr'), getElem?_replace_within h hnew hj,
      getElem?_replace_within hfits hnew hj]
  · rw [getElem?_replace hfits hnew (houtside hr)]
    by_cases hr' : r'.offset ≤ i ∧ i < r'.offset + r'.length
    · obtain ⟨j, rfl⟩ := Nat.exists_eq_add_of_le hr'.1
      have hj : j < r'.length := by omega
      rw [getElem?_replace_within hfits' hnew' hj, getElem?_replace_within h' hnew' hj]
    · rw [getElem?_replace hfits' hnew' (houtside hr'), getElem?_replace h hnew (houtside hr),
        getElem?_replace h' hnew' (houtside hr')]

end Region

/-- A region of a named buffer. -/
structure Place where
  name : String
  region : Region
deriving DecidableEq, Repr

namespace Place

def Meets (a b : Place) : Prop := a.name = b.name ∧ a.region.Meets b.region

instance (a b : Place) : Decidable (a.Meets b) := inferInstanceAs (Decidable (_ ∧ _))

/-- The bytes of the place. -/
def bytes (a : Place) (m : Memory) : Bytes := a.region.extract (m a.name)

end Place

/-- The place that a pointer, an offset and a length name, if they name one. -/
def Pointer.place? (pointer : Pointer) (offset length : Int32) : Option Place :=
  match pointer, Region.ofSigned offset length with
  | some name, .ok r => some ⟨name, r⟩
  | _, _ => none

theorem Pointer.place?_of_ofSigned {name : String} {offset length : Int32} {r : Region}
    (h : Region.ofSigned offset length = .ok r) :
    place? (some name) offset length = some ⟨name, r⟩ := by
  simp only [place?, h]

/-- New bytes for a place. -/
structure Patch where
  place : Place
  bytes : Bytes

structure Patch.Fits (w : Patch) (m : Memory) : Prop where
  fits : w.place.region.Fits (m w.place.name).length
  length_bytes : w.bytes.length = w.place.region.length

namespace Memory

variable {m m' : Memory} {w w' : Patch} {a : Place}

def SameSizes (m m' : Memory) : Prop := ∀ name, (m' name).length = (m name).length

/-- The buffers have the same sizes, and the place, if there is one, holds the same bytes. -/
structure AgreesOn (m m' : Memory) (place? : Option Place) : Prop where
  sizes : m.SameSizes m'
  bytes : ∀ a, place? = some a → a.bytes m' = a.bytes m

theorem AgreesOn.refl (m : Memory) (place? : Option Place) : m.AgreesOn m place? :=
  ⟨fun _ ↦ rfl, fun _ _ ↦ rfl⟩

def patch (m : Memory) (w : Patch) : Memory :=
  m.write w.place.name (w.place.region.replace (m w.place.name) w.bytes)

/-- Puts the patch on, if there is one. -/
def patch? (m : Memory) (w? : Option Patch) : Memory := w?.elim m m.patch

theorem patch_apply (m : Memory) (w : Patch) (name : String) :
    m.patch w name =
      if name = w.place.name then w.place.region.replace (m name) w.bytes else m name := by
  rw [patch, write]
  split
  · rename_i hname
    rw [hname]
  · rfl

theorem sameSizes_patch (h : w.Fits m) : m.SameSizes (m.patch w) := by
  intro name
  rw [patch_apply]
  split
  · rename_i hname
    subst hname
    exact Region.length_replace h.fits h.length_bytes
  · rfl

theorem bytes_patch (h : w.Fits m) (hapart : ¬ w.place.Meets a) :
    a.bytes (m.patch w) = a.bytes m := by
  rw [Place.bytes, Place.bytes, patch_apply]
  split
  · rename_i hname
    rw [hname]
    exact Region.extract_replace_of_not_meets h.fits h.length_bytes fun hmeets ↦
      hapart ⟨hname.symm, hmeets⟩
  · rfl

theorem patch_comm (h : w.Fits m) (h' : w'.Fits m) (hapart : ¬ w.place.Meets w'.place) :
    (m.patch w).patch w' = (m.patch w').patch w := by
  funext name
  simp only [patch_apply]
  by_cases hname : name = w.place.name
  · by_cases hname' : name = w'.place.name
    · rw [if_pos hname, if_pos hname', if_pos hname, if_pos hname']
      have hfits := h.fits
      have hfits' := h'.fits
      rw [← hname] at hfits
      rw [← hname'] at hfits'
      exact Region.replace_comm hfits hfits' h.length_bytes h'.length_bytes fun hmeets ↦
        hapart ⟨hname.symm.trans hname', hmeets⟩
    · simp only [if_pos hname, if_neg hname']
  · simp only [if_neg hname]

theorem agreesOn_patch? {w? : Option Patch} {place? : Option Place}
    (hfits : ∀ w, w? = some w → w.Fits m)
    (hapart : ∀ w, w? = some w → ∀ a, place? = some a → ¬ w.place.Meets a) :
    m.AgreesOn (m.patch? w?) place? := by
  cases w? with
  | none => exact .refl m place?
  | some w =>
    have hw := hfits w rfl
    exact ⟨sameSizes_patch hw, fun a ha ↦ bytes_patch hw (hapart w rfl a ha)⟩

theorem patch?_comm {w? w'? : Option Patch} (hfits : ∀ w, w? = some w → w.Fits m)
    (hfits' : ∀ w, w'? = some w → w.Fits m)
    (hapart : ∀ w w', w? = some w → w'? = some w' → ¬ w.place.Meets w'.place) :
    (m.patch? w?).patch? w'? = (m.patch? w'?).patch? w? := by
  cases w? with
  | none => rfl
  | some w =>
    cases w'? with
    | none => rfl
    | some w' => exact patch_comm (hfits w rfl) (hfits' w' rfl) (hapart w w' rfl rfl)

end Memory

namespace Boundary

variable {m m' : Memory} {pointer : Pointer} {r : Region} {offset length : Int32}

theorem read_congr (what : Pointed) (hr : Region.ofSigned offset length = .ok r)
    (hm : m.AgreesOn m' (pointer.place? offset length)) :
    read what pointer r m' = read what pointer r m := by
  cases pointer with
  | none => rfl
  | some name =>
    have hsize := hm.sizes name
    have hbytes : r.extract (m' name) = r.extract (m name) :=
      hm.bytes ⟨name, r⟩ (Pointer.place?_of_ofSigned hr)
    simp only [read, view_some (span_of_ofSigned hr), Region.slice, Region.check,
      Region.extract_take, List.length_take, hsize, hbytes]

theorem keyArgument_congr {key : Pointer} (hm : m.AgreesOn m' (key.place? offset length)) :
    keyArgument m' key offset length = keyArgument m key offset length := by
  rw [keyArgument, keyArgument]
  cases hr : Region.ofSigned offset length with
  | error e => rfl
  | ok r => simp only [read_congr .key hr hm]

theorem arguments_congr {input : Pointer} {inOffset outOffset : Int32}
    (hm : m.AgreesOn m' (input.place? inOffset length)) :
    arguments m' input inOffset length outOffset =
      arguments m input inOffset length outOffset := by
  rw [arguments, arguments]
  cases hr : Region.ofSigned inOffset length with
  | error e => rfl
  | ok source =>
    have hread := read_congr .input hr hm
    cases Region.ofSigned outOffset length with
    | error e => rfl
    | ok target => simp only [hread]

/-- What is delivered follows from what the key has done and from the sizes of the buffers. -/
theorem exists_patch_of_deliver (m : Memory) (output : Pointer) {target : Region}
    {t : Transformation} (hleft : t.left.length = target.length) :
    ∃ (o : Outcome BoundaryError Int32) (w? : Option Patch),
      (∀ w, w? = some w → output = some w.place.name ∧ w.place.region = target ∧ w.Fits m) ∧
      ∀ m', m.SameSizes m' → deliver m' output target t = (o, m'.patch? w?) := by
  cases houtcome : t.outcome with
  | panicked =>
    refine ⟨.panicked, none, nofun, fun m' _ ↦ ?_⟩
    simp only [deliver, houtcome]
    rfl
  | error e =>
    refine ⟨.error (.cipher e), none, nofun, fun m' _ ↦ ?_⟩
    simp only [deliver, houtcome]
    rfl
  | ok count =>
    cases output with
    | none =>
      refine ⟨.error (.nullPointer .output), none, nofun, fun m' _ ↦ ?_⟩
      simp only [deliver, houtcome]
      rfl
    | some name =>
      -- The bounds are checked on the part of the buffer up to the end of the region.
      let size := ((m name).take (target.offset + target.length)).length
      have hsize : ∀ m', m.SameSizes m' →
          ((m' name).take (target.offset + target.length)).length = size := by
        intro m' hm
        rw [List.length_take, hm name, ← List.length_take]
      by_cases hfits : target.Fits size
      · have hcheck : target.check size = .ok () := if_pos hfits
        refine ⟨.ofExcept (signedCount count), some ⟨⟨name, target⟩, t.left⟩, ?_, fun m' hm ↦ ?_⟩
        · rintro w ⟨⟩
          exact ⟨rfl, rfl, Region.fits_take_iff.1 hfits, hleft⟩
        · simp only [deliver, houtcome, hsize m' hm, hcheck]
          rfl
      · have hcheck : target.check size = .error (.outOfBounds target.offset target.length size) :=
          if_neg hfits
        refine ⟨.error (.cipher (.outOfBounds target.offset target.length size)), none, nofun,
          fun m' hm ↦ ?_⟩
        simp only [deliver, houtcome, hsize m' hm, hcheck]
        rfl

variable {p q : Process} {h : Handle} {input output : Pointer} {inOffset outOffset : Int32}

/-- What an encryption returns and writes follows from what it reads: the context of the handle, the
input region, and the sizes of the buffers. -/
theorem exists_patch_of_encryption (p : Process) (h : Handle) (input : Pointer)
    (inOffset length : Int32) (output : Pointer) (outOffset : Int32) :
    ∃ (o : Outcome BoundaryError Int32) (w? : Option Patch),
      (∀ w, w? = some w → output.place? outOffset length = some w.place ∧ w.Fits p.memory) ∧
      ∀ q : Process, q.handles.get? h = p.handles.get? h →
        p.memory.AgreesOn q.memory (input.place? inOffset length) →
        encryption q h input inOffset length output outOffset = (o, q.memory.patch? w?) := by
  cases hget : p.handles.get? h with
  | none =>
    refine ⟨.error .invalidHandle, none, nofun, fun q hq _ ↦ ?_⟩
    simp only [encryption, hq]
    rfl
  | some c =>
    cases hargs : arguments p.memory input inOffset length outOffset with
    | error e =>
      refine ⟨.error e, none, nofun, fun q hq hm ↦ ?_⟩
      simp only [encryption, hq, arguments_congr hm, hargs]
      rfl
    | ok named =>
      obtain ⟨target, data⟩ := named
      obtain ⟨source, name, hs, ht, -, hfits, hdata⟩ := arguments_eq_ok_iff.1 hargs
      have hleft : (c.key.transform data).left.length = target.length := by
        rw [c.key.length_left, ← hdata, Region.length_extract hfits,
          Region.length_eq_of_ofSigned hs ht]
      obtain ⟨o, w?, hw, hdeliver⟩ := exists_patch_of_deliver p.memory output hleft
      refine ⟨o, w?, fun w hsome ↦ ?_, fun q hq hm ↦ ?_⟩
      · obtain ⟨rfl, rfl, hpatch⟩ := hw w hsome
        exact ⟨Pointer.place?_of_ofSigned ht, hpatch⟩
      · simp only [encryption, hq, arguments_congr hm, hargs, hdeliver q.memory hm.sizes]

end Boundary

end AesEcb
