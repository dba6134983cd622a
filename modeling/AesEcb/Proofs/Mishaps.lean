import AesEcb.Proofs.Counts
import AesEcb.Proofs.KeyStore
import AesEcb.Proofs.Requests

/-!
# What goes wrong in a call

What can go wrong in a call through handles is listed here in the order in which it is found out,
and a call fails by the first entry of its list.  Of the code outside of the library nothing is
assumed but that it leaves the buffers of the caller as long as they are.
-/

namespace AesEcb

/-- The code outside of the library, as a call meets it.  What it does it does to the process, and
it may call back into the library as it likes. -/
structure Outside where
  /-- What an override makes of a request for a cipher. -/
  ask : Override → Bytes → Action Empty (Option Context)
  /-- What the key of a context, in use by a call, makes of a buffer. -/
  transform : Reference → Context → Bytes → Action Empty Encryption
  length_memory : ∀ running c data p name,
    ((transform running c data p).process.memory name).length = (p.memory name).length

/-- The code that does what providers and overrides have on record. -/
def Outside.recorded [LinkedCipher] : Outside where
  ask := Override.ask
  transform running c := c.encryptInPlace (some running)
  length_memory running c data p name := by
    rw [Context.encryptInPlace_run]
    exact congrArg (fun m : Memory ↦ (m name).length) (runCallbacks_ok _ _ p).2

/-- What goes wrong in a call through handles. -/
inductive Mishap where
  | failed (cause : BoundaryError)
  | panicked
deriving DecidableEq, Repr

def Outcome.mishap? {ε α : Type} (cause : ε → BoundaryError) : Outcome ε α → Option Mishap
  | ok _ => none
  | error e => some (.failed (cause e))
  | panicked => some .panicked

/-- The call finds the cause by a look at its arguments. -/
def BoundaryError.IsOfArguments : BoundaryError → Prop
  | nullPointer _ | invalidHandle => True
  | cipher (.negativeArgument _ _) | cipher (.invalidKeyLength _) => True
  | _ => False

namespace Region

variable {offset length : Int32}

theorem ofSigned_of_offset_neg (h : ¬ 0 ≤ offset) :
    ofSigned offset length = .error (.negativeArgument .offset offset.toInt) :=
  if_pos (Int32.not_le.1 h)

theorem ofSigned_of_length_neg (hoffset : 0 ≤ offset) (h : ¬ 0 ≤ length) :
    ofSigned offset length = .error (.negativeArgument .length length.toInt) := by
  rw [ofSigned, if_neg (Int32.not_lt.2 hoffset), if_pos (Int32.not_le.1 h)]

end Region

namespace Outcome

variable {α : Type}

theorem mishap?_mapError (o : Outcome CipherError α) :
    (o.mapError BoundaryError.cipher).mishap? id = o.mishap? .cipher := by
  cases o with
  | ok a => rfl
  | error e => rfl
  | panicked => rfl

variable {ε : Type} {cause : ε → BoundaryError} {o : Outcome ε α}

theorem mishap?_eq_panicked_iff : o.mishap? cause = some .panicked ↔ o = .panicked := by
  cases o with
  | ok a => simp [mishap?]
  | error e => simp [mishap?]
  | panicked => exact iff_of_true rfl rfl

theorem exists_of_mishap?_eq_none (h : o.mishap? cause = none) : ∃ a, o = .ok a := by
  cases o with
  | ok a => exact ⟨a, rfl⟩
  | error e => cases h
  | panicked => cases h

end Outcome

namespace Mishap

/-- Nothing, if `p` holds. -/
def check (p : Prop) [Decidable p] (cause : BoundaryError) : Option Mishap :=
  if p then none else some (.failed cause)

def sign (what : Argument) (value : Int32) : Option Mishap :=
  check (0 ≤ value) (.cipher (.negativeArgument what value.toInt))

/-- A count is one that a call can return. -/
def count : Outcome CipherError Nat → Option Mishap
  | .ok n => check (n < 2 ^ 31) (.spanTooLarge n)
  | _ => none

variable {p : Prop} [Decidable p] {cause : BoundaryError} {m : Mishap}

theorem check_of (h : p) (cause : BoundaryError) : check p cause = none := if_pos h

theorem check_of_not (h : ¬ p) (cause : BoundaryError) : check p cause = some (.failed cause) :=
  if_neg h

theorem eq_of_check (h : check p cause = some m) : m = .failed cause := by
  rw [check] at h
  split at h
  · cases h
  · exact (Option.some.inj h).symm

end Mishap

/-- What the factory makes of a request for the key region of a creation. -/
def Boundary.requested? [LinkedCipher] (ask : Override → Bytes → Action Empty (Option Context))
    (p : Process) (key : Pointer) (offset length : Int32) : Option (Run CipherError Context) :=
  match Region.ofSigned offset length, key with
  | .ok r, some name =>
    some (Factory.requestBy ask ((p.memory name).take (r.offset + r.length)) r.offset r.length p)
  | _, _ => none

/-- What can go wrong in a creation before the factory is asked. -/
def Boundary.keyChecks (key : Pointer) (offset length : Int32) : List (Option Mishap) :=
  [Mishap.sign .offset offset, Mishap.sign .length length,
    Mishap.check (length = 16 ∨ length = 24 ∨ length = 32)
      (.cipher (.invalidKeyLength length.toInt.toNat)),
    Mishap.check key.isSome (.nullPointer .key)]

namespace Outside

/-- What an override does that is asked in the course of a creation. -/
def asked? (w : Outside) (p : Process) (key : Pointer) (offset length : Int32) :
    Option (Run Empty (Option Context)) :=
  match Boundary.keyArgument p.memory key offset length with
  | .ok (data, _) => p.override?.map fun o ↦ w.ask o data p
  | .error _ => none

/-- What the key of a handle does that is asked in the course of an encryption. -/
def transformed? (w : Outside) (p : Process) (h : Handle) (input : Pointer)
    (inOffset length outOffset : Int32) : Option (Run Empty Encryption) :=
  match p.handles.get? h, Boundary.arguments p.memory input inOffset length outOffset with
  | some c, .ok (_, data) => some (w.transform ⟨h, c.owner⟩ c data p)
  | _, _ => none

/-- What happens while code from outside is asked in the course of the call. -/
def nested (w : Outside) (p : Process) : Call → Trace
  | .create key offset length => (w.asked? p key offset length).elim [] Run.trace
  | .encrypt h input inOffset length _ outOffset =>
    (w.transformed? p h input inOffset length outOffset).elim [] Run.trace
  | .release _ | .setDefault _ => []

/-- What the key of the handle answers, if it is asked in the course of the call. -/
def keyAnswer? (w : Outside) (p : Process) : Call → Option (Outcome CipherError Nat)
  | .encrypt h input inOffset length _ outOffset =>
    (w.transformed? p h input inOffset length outOffset).map fun r ↦ r.answer.outcome
  | _ => none

/-- Code from outside panics that is asked in the course of the call. -/
def PanicsIn (w : Outside) (p : Process) : Call → Prop
  | .create key offset length =>
    ∃ r, w.asked? p key offset length = some r ∧ r.outcome = .panicked
  | c => w.keyAnswer? p c = some .panicked

variable [LinkedCipher]

/-- What can go wrong in a call, in the order in which it is found out. -/
def mishaps (w : Outside) (p : Process) : Call → List (Option Mishap)
  | .create key offset length =>
    Boundary.keyChecks key offset length ++
      [(Boundary.requested? w.ask p key offset length).bind fun r ↦ r.outcome.mishap? .cipher]
  | .encrypt h input inOffset length output outOffset =>
    let answer? := w.keyAnswer? p (.encrypt h input inOffset length output outOffset)
    [Mishap.check (p.handles.get? h).isSome .invalidHandle, Mishap.sign .offset inOffset,
      Mishap.sign .length length, Mishap.sign .offset outOffset,
      Mishap.check input.isSome (.nullPointer .input),
      answer?.bind (Outcome.mishap? .cipher),
      Mishap.check output.isSome (.nullPointer .output),
      answer?.bind Mishap.count]
  | .release h => [Mishap.check (h = .null ∨ (p.handles.get? h).isSome) .invalidHandle]
  | .setDefault _ => []

/-- The first thing that goes wrong in a call. -/
def mishap? (w : Outside) (p : Process) (c : Call) : Option Mishap :=
  (w.mishaps p c).findSome? id

end Outside

namespace Boundary

variable {p : Process}

/-- A length that is not negative is that of a key, or else refused. -/
theorem ofLength_of_nonneg {length : Int32} (hlength : 0 ≤ length) :
    (∃ size, KeySize.ofLength length.toInt.toNat = .ok size) ∧
        (length = 16 ∨ length = 24 ∨ length = 32) ∨
      KeySize.ofLength length.toInt.toNat = .error (.invalidKeyLength length.toInt.toNat) ∧
        ¬ (length = 16 ∨ length = 24 ∨ length = 32) := by
  rw [← KeySize.exists_length_iff hlength, KeySize.exists_length_eq_iff]
  by_cases hvalid : length.toInt.toNat = 16 ∨ length.toInt.toNat = 24 ∨ length.toInt.toNat = 32
  · exact .inl ⟨KeySize.exists_ofLength hvalid, hvalid⟩
  · exact .inr ⟨KeySize.ofLength_eq_error hvalid, hvalid⟩

section Creation

variable {key : Pointer} {offset length : Int32}

/-- Arguments that fail one of the checks name no key, and if they fail none they name a region of a
buffer. -/
theorem keyChecks_cases (key : Pointer) (offset length : Int32) :
    (∃ e, (keyChecks key offset length).findSome? id = some (.failed e) ∧ e.IsOfArguments ∧
      ∀ m, keyArgument m key offset length = .error e) ∨
    (keyChecks key offset length).findSome? id = none ∧
      ∃ r size name, Region.ofSigned offset length = .ok r ∧ KeySize.ofLength r.length = .ok size ∧
        key = some name := by
  simp only [keyArgument, keyChecks, List.findSome?_cons, id_eq, List.findSome?_nil]
  by_cases hoffset : 0 ≤ offset
  swap
  · left
    simp only [Region.ofSigned_of_offset_neg hoffset, Mishap.sign, Mishap.check_of_not hoffset]
    exact ⟨_, rfl, trivial, fun m ↦ rfl⟩
  by_cases hlength : 0 ≤ length
  swap
  · left
    simp only [Region.ofSigned_of_length_neg hoffset hlength, Mishap.sign, Mishap.check_of hoffset,
      Mishap.check_of_not hlength]
    exact ⟨_, rfl, trivial, fun m ↦ rfl⟩
  have hr := Region.ofSigned_eq_ok_iff.2 ⟨hoffset, hlength, rfl⟩
  simp only [hr, Mishap.sign, Mishap.check_of hoffset, Mishap.check_of hlength]
  rcases ofLength_of_nonneg hlength with ⟨⟨size, hsize⟩, hvalid⟩ | ⟨hsize, hinvalid⟩
  swap
  · left
    simp only [hsize, Mishap.check_of_not hinvalid]
    exact ⟨_, rfl, trivial, fun m ↦ rfl⟩
  simp only [hsize, Mishap.check_of hvalid]
  cases key with
  | none => exact .inl ⟨_, rfl, trivial, fun m ↦ rfl⟩
  | some name => exact .inr ⟨rfl, _, size, name, rfl, hsize, rfl⟩

variable [LinkedCipher]

/-- A creation by a lawful client fails by what is wrong with its arguments, or as its request for
a cipher does. -/
theorem mishap?_create_cases (w : Outside) (hkey : key.Holds p.memory offset length) :
    (∃ e, w.mishap? p (.create key offset length) = some (.failed e) ∧ e.IsOfArguments ∧
      keyArgument p.memory key offset length = .error e) ∨
    ∃ data k, keyArgument p.memory key offset length = .ok (data, k) ∧
      w.mishap? p (.create key offset length) =
        (Factory.requestRead w.ask data p).outcome.mishap? .cipher := by
  rw [Outside.mishap?, Outside.mishaps, List.findSome?_append, List.findSome?_singleton, id_eq]
  rcases keyChecks_cases key offset length with
    ⟨e, hfirst, hown, hfails⟩ | ⟨hnone, r, size, name, hr, hsize, rfl⟩
  · rw [hfirst]
    exact .inl ⟨e, rfl, hown, hfails p.memory⟩
  right
  obtain ⟨hoffset, hlength, -⟩ := Region.ofSigned_eq_ok_iff.1 hr
  obtain ⟨r', hr', hfits, -⟩ := hkey.exists_region hoffset hlength
  obtain rfl := Except.ok.inj (hr'.symm.trans hr)
  have hslice : r'.slice ((p.memory name).take (r'.offset + r'.length)) =
      .ok (r'.extract (p.memory name)) :=
    Region.slice_eq_ok_iff.2 ⟨Region.fits_take_iff.2 hfits, Region.extract_take⟩
  obtain ⟨k, hk⟩ := Key.exists_ofBytes_of_slice hsize hslice
  refine ⟨_, k, keyArgument_eq_ok_iff.2 ⟨r', name, hr, rfl, hfits, rfl, hk⟩, ?_⟩
  simp only [hnone, Option.none_or, requested?, hr, Option.bind_some,
    Factory.requestBy_of_slice w.ask hsize hslice]

/-- A creation that comes to an end fails by what is listed. -/
theorem acquireBy_mishap? (w : Outside) (hkey : key.Holds p.memory offset length) :
    (acquireBy w.ask key offset length p).outcome.mishap? id =
      w.mishap? p (.create key offset length) := by
  rw [acquireBy_eq]
  rcases mishap?_create_cases w hkey with ⟨e, hfirst, -, harg⟩ | ⟨data, k, harg, hrequested⟩
  · rw [hfirst, harg]
    rfl
  · rw [hrequested, harg]
    exact Outcome.mishap?_mapError _

end Creation

section Encryption

variable {h : Handle} {c : Context} {input output : Pointer} {inOffset length outOffset : Int32}

/-- What can still go wrong once the key has been asked. -/
theorem deliver_mishap? {m : Memory} {target : Region} {t : Transformation}
    (hfits : ∀ name, output = some name → target.Fits (m name).length) :
    (deliver m output target t).1.mishap? id =
      [t.outcome.mishap? .cipher, Mishap.check output.isSome (.nullPointer .output),
        Mishap.count t.outcome].findSome? id := by
  simp only [List.findSome?_cons, id_eq, List.findSome?_nil]
  cases houtcome : t.outcome with
  | panicked =>
    simp only [deliver, houtcome]
    rfl
  | error e =>
    simp only [deliver, houtcome]
    rfl
  | ok count =>
    cases output with
    | none =>
      simp only [deliver, houtcome]
      rfl
    | some name =>
      have hcheck : target.check ((m name).take (target.offset + target.length)).length = .ok () :=
        if_pos (Region.fits_take_iff.2 (hfits name rfl))
      simp only [deliver, houtcome, hcheck, Outcome.mishap?, Option.isSome_some,
        Mishap.check_of trivial, Mishap.count]
      by_cases hcount : count < 2 ^ 31
      · have hsigned : signedCount count = .ok (Int32.ofNat count) := if_pos hcount
        rw [hsigned, Mishap.check_of hcount]
        rfl
      · have hsigned : signedCount count = .error (.spanTooLarge count) := if_neg hcount
        rw [hsigned, Mishap.check_of_not hcount]
        rfl

theorem deliver_eq_panicked_iff {m : Memory} {target : Region} {t : Transformation} :
    (deliver m output target t).1 = .panicked ↔ t.outcome = .panicked := by
  rw [deliver]
  cases t.outcome with
  | panicked => exact iff_of_true rfl rfl
  | error e => simp
  | ok count =>
    cases output with
    | none => simp
    | some name =>
      dsimp only
      split
      · simp
      · cases signedCount count with
        | ok n => simp [Outcome.ofExcept]
        | error e => simp [Outcome.ofExcept]

variable [LinkedCipher]

/-- An encryption through the handle of `c` fails by what is listed, and shows inside just what its
key shows. -/
theorem encryptWith_mishap? (w : Outside) (hc : p.handles.get? h = some c)
    (hin : input.Holds p.memory inOffset length) (hout : output.Holds p.memory outOffset length) :
    let x : Call := .encrypt h input inOffset length output outOffset
    let r := encryptWith (w.transform ⟨h, c.owner⟩ c) input inOffset length output outOffset p
    r.trace = w.nested p x ∧ r.outcome.mishap? id = w.mishap? p x ∧
      (r.outcome = .panicked ↔ w.keyAnswer? p x = some .panicked) ∧
      ∀ n, r.outcome = .ok n → ∃ count : Nat,
        w.keyAnswer? p x = some (.ok count) ∧ n.toInt = count := by
  intro x r
  have hr : r = _ := encryptWith_eq _ _ _ _ _ _ p
  have hrefused : ∀ e : BoundaryError,
      ((.error e : Outcome BoundaryError Int32) = .panicked ↔
        (none : Option (Outcome CipherError Nat)) = some .panicked) ∧
      ∀ n : Int32, (.error e : Outcome BoundaryError Int32) = .ok n → ∃ count : Nat,
        (none : Option (Outcome CipherError Nat)) = some (.ok count) ∧ n.toInt = count := by
    simp
  simp only [x, hr, Outside.nested, Outside.mishap?, Outside.mishaps, Outside.keyAnswer?,
    Outside.transformed?, hc, List.findSome?_cons, id_eq, List.findSome?_nil, Option.isSome_some,
    Mishap.check_of trivial]
  by_cases hinOffset : 0 ≤ inOffset
  swap
  · simp only [arguments, Region.ofSigned_of_offset_neg hinOffset, Mishap.sign,
      Mishap.check_of_not hinOffset]
    exact ⟨rfl, rfl, hrefused _⟩
  by_cases hlength : 0 ≤ length
  swap
  · simp only [arguments, Region.ofSigned_of_length_neg hinOffset hlength, Mishap.sign,
      Mishap.check_of hinOffset, Mishap.check_of_not hlength]
    exact ⟨rfl, rfl, hrefused _⟩
  have hs := Region.ofSigned_eq_ok_iff.2 ⟨hinOffset, hlength, rfl⟩
  simp only [Mishap.sign, Mishap.check_of hinOffset, Mishap.check_of hlength]
  by_cases houtOffset : 0 ≤ outOffset
  swap
  · simp only [arguments, hs, Region.ofSigned_of_offset_neg houtOffset,
      Mishap.check_of_not houtOffset]
    exact ⟨rfl, rfl, hrefused _⟩
  have ht := Region.ofSigned_eq_ok_iff.2 ⟨houtOffset, hlength, rfl⟩
  simp only [Mishap.check_of houtOffset]
  cases input with
  | none =>
    simp only [arguments, hs, ht]
    exact ⟨rfl, rfl, hrefused _⟩
  | some name =>
    obtain ⟨source, hs', hfits, -⟩ := hin.exists_region hinOffset hlength
    have hargs : arguments p.memory (some name) inOffset length outOffset =
        .ok (_, source.extract (p.memory name)) :=
      arguments_eq_ok_iff.2 ⟨source, name, hs', ht, rfl, hfits, rfl⟩
    simp only [hargs, Option.isSome_some, Mishap.check_of trivial, Option.bind_some,
      Option.map_some, encryptRead_run (span_of_arguments hargs), Option.elim_some, true_and,
      Option.some.injEq]
    refine ⟨deliver_mishap? fun other hother ↦ ?_, deliver_eq_panicked_iff, fun n hn ↦ ?_⟩
    · -- The key may have written to the buffers by now, but they are as long as they were.
      subst hother
      obtain ⟨target, -, hfits', rfl⟩ := hout.exists_region houtOffset hlength
      rw [w.length_memory]
      exact hfits'
    · obtain ⟨_, count, -, hcount, hvalue, -⟩ := exists_of_deliver_ok hn
      exact ⟨count, hcount, hvalue⟩

end Encryption

end Boundary

namespace Outside

variable [LinkedCipher] {w : Outside} {p : Process} {c : Call}

/-- Every failure that a call reports is one of its arguments, or one that the key has answered, or
the count that the key has answered is too large. -/
theorem mishap?_cause (hlawful : c.Lawful p.memory) {cause : BoundaryError}
    (hfirst : w.mishap? p c = some (.failed cause)) :
    cause.IsOfArguments ∨
      (∃ e, cause = .cipher e ∧ w.keyAnswer? p c = some (.error e)) ∨
      ∃ n, cause = .spanTooLarge n ∧ w.keyAnswer? p c = some (.ok n) := by
  have hcheck : ∀ {q : Prop} [Decidable q] {cause' : BoundaryError},
      some (.failed cause) = Mishap.check q cause' → cause'.IsOfArguments →
        cause.IsOfArguments := by
    intro q _ cause' hq hown
    rwa [Mishap.failed.inj (Mishap.eq_of_check hq.symm)]
  cases c with
  | create key offset length =>
    rcases Boundary.mishap?_create_cases w hlawful with
      ⟨e, hfirst', hown, -⟩ | ⟨data, k, harg, hrequested⟩
    · obtain rfl := Mishap.failed.inj (Option.some.inj (hfirst.symm.trans hfirst'))
      exact .inl hown
    · -- The default engine takes every key, so a request cannot fail but by a panic.
      obtain ⟨-, -, -, -, -, -, hk⟩ := Boundary.keyArgument_eq_ok_iff.1 harg
      rw [hrequested] at hfirst
      rcases Factory.requestRead_outcome w.ask hk p with ⟨-, hend⟩ | ⟨-, c, hend⟩
      · rw [hend] at hfirst
        cases hfirst
      · rw [hend] at hfirst
        cases hfirst
  | encrypt h input inOffset length output outOffset =>
    obtain ⟨_, hm, rfl⟩ := List.exists_of_findSome?_eq_some hfirst
    simp only [mishaps, List.mem_cons, List.not_mem_nil, or_false] at hm
    rcases hm with hm | hm | hm | hm | hm | hanswer | hm | hcount
    · exact .inl (hcheck hm trivial)
    · exact .inl (hcheck hm trivial)
    · exact .inl (hcheck hm trivial)
    · exact .inl (hcheck hm trivial)
    · exact .inl (hcheck hm trivial)
    · obtain ⟨o, ho, hmishap⟩ := Option.bind_eq_some_iff.1 hanswer.symm
      cases o with
      | ok n => cases hmishap
      | panicked => cases hmishap
      | error e =>
        obtain rfl := Mishap.failed.inj (Option.some.inj hmishap)
        exact .inr (.inl ⟨e, rfl, ho⟩)
    · exact .inl (hcheck hm trivial)
    · obtain ⟨o, ho, hmishap⟩ := Option.bind_eq_some_iff.1 hcount.symm
      cases o with
      | ok n => exact .inr (.inr ⟨n, Mishap.failed.inj (Mishap.eq_of_check hmishap), ho⟩)
      | panicked => cases hmishap
      | error e => cases hmishap
  | release h =>
    rw [mishap?, mishaps, List.findSome?_singleton] at hfirst
    exact .inl (hcheck hfirst.symm trivial)
  | setDefault engine => cases hfirst

/-- What ends a call as a panic is that code from outside panics. -/
theorem mishap?_eq_panicked_iff (hlawful : c.Lawful p.memory) :
    w.mishap? p c = some .panicked ↔ w.PanicsIn p c := by
  cases c with
  | create key offset length =>
    rcases Boundary.mishap?_create_cases w hlawful with
      ⟨e, hfirst, -, harg⟩ | ⟨data, k, harg, hrequested⟩
    · simp [hfirst, PanicsIn, asked?, harg]
    · obtain ⟨-, -, -, -, -, -, hk⟩ := Boundary.keyArgument_eq_ok_iff.1 harg
      rw [hrequested, Outcome.mishap?_eq_panicked_iff]
      simp only [PanicsIn, asked?, harg, Option.map_eq_some_iff]
      rcases Factory.requestRead_outcome w.ask hk p with
        ⟨⟨o, ho, hpanics⟩, hend⟩ | ⟨hquiet, c, hend⟩
      · exact iff_of_true hend ⟨_, ⟨o, ho, rfl⟩, hpanics⟩
      · rw [hend]
        refine iff_of_false nofun ?_
        rintro ⟨_, ⟨o, ho, rfl⟩, hpanics⟩
        exact hquiet o ho hpanics
  | encrypt h input inOffset length output outOffset =>
    cases hc : p.handles.get? h with
    | none => simp [mishap?, mishaps, PanicsIn, keyAnswer?, transformed?, hc, Mishap.check]
    | some c =>
      obtain ⟨-, hrun, hpanics, -⟩ := Boundary.encryptWith_mishap? w hc hlawful.1 hlawful.2
      rw [← hrun, Outcome.mishap?_eq_panicked_iff]
      exact hpanics
  | release h =>
    rw [mishap?, mishaps, List.findSome?_singleton]
    refine iff_of_false (fun hfirst ↦ ?_) nofun
    exact nomatch Mishap.eq_of_check hfirst
  | setDefault engine => exact iff_of_false nofun nofun

end Outside

end AesEcb
