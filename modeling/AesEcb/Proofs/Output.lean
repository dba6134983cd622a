import AesEcb.Proofs.Encryption
import Mathlib.Tactic.Common

/-!
# What a failed encryption leaves in the output

The output is written before the byte count is looked at.  So a call that returns zero may have
written its output, and `encrypt_zero_changes_iff` says exactly when it has.
-/

namespace AesEcb.Boundary

variable {ε : Type} (h : Handle) (input : Pointer) (inOffset length : Int32) (output : Pointer)
  (outOffset : Int32) (p : Process)

theorem signedCount_getD_eq_zero_iff {count : Nat} :
    (Outcome.ofExcept (signedCount count)).getD 0 = 0 ↔ count = 0 ∨ countLimit ≤ count := by
  by_cases hcount : count < countLimit
  · have hzero : Int32.ofNat count = 0 ↔ count = 0 := by
      rw [← Int32.toInt_inj, Int32.toInt_ofNat_of_lt hcount]
      simp
    simp only [signedCount, hcount, if_true, Outcome.ofExcept, Outcome.getD, hzero]
    omega
  · simp only [signedCount, hcount, if_false, Outcome.ofExcept, Outcome.getD, true_iff]
    omega

/-- A delivery that ends in zero has written something just when the key left other bytes than
were there, and reported a count that is zero or too large. -/
theorem deliver_zero_changes_iff {m : Memory} {target : Region} {t : Transformation}
    (hlength : t.left.length = target.length) (name : String) :
    (deliver m output target t).1.getD 0 = 0 ∧ (deliver m output target t).2 name ≠ m name ↔
      output = some name ∧ target.Fits (m name).length ∧
        ∃ count, t.outcome = .ok count ∧ (count = 0 ∨ countLimit ≤ count) ∧
          t.left ≠ target.extract (m name) := by
  rw [deliver]
  cases t.outcome with
  | panicked => simp
  | error e => simp
  | ok count =>
    cases output with
    | none => simp
    | some other =>
      simp only [Region.check, Region.fits_take_iff]
      by_cases hfits : target.Fits (m other).length
      · simp only [hfits, if_true, signedCount_getD_eq_zero_iff, Outcome.ok.injEq,
          Option.some.injEq, exists_eq_left']
        by_cases hname : other = name
        · subst hname
          have hsame := Region.replace_eq_self_iff hfits hlength
          simp [hfits, hsame]
        · simp [hname, Memory.write_of_ne m _ (Ne.symm hname)]
      · simp only [hfits, if_false, ne_eq, not_true_eq_false, and_false, false_iff]
        rintro ⟨hname, hfits', -⟩
        obtain rfl := Option.some.inj hname
        exact hfits hfits'

/-- The key succeeds on the input region, but reports that it wrote no bytes, or more than a signed
32-bit integer can count, and it leaves other bytes than the region of `name` to be written. -/
def Miscounts (p : Process) (h : Handle) (input : Pointer) (inOffset length : Int32)
    (name : String) (outOffset : Int32) : Prop :=
  ∃ c origin source target count,
    p.handles.get? h = some c ∧ input = some origin ∧
    Region.ofSigned inOffset length = .ok source ∧ source.Fits (p.memory origin).length ∧
    Region.ofSigned outOffset length = .ok target ∧ target.Fits (p.memory name).length ∧
    (c.key.transform (source.extract (p.memory origin))).outcome = .ok count ∧
    (count = 0 ∨ countLimit ≤ count) ∧
    (c.key.transform (source.extract (p.memory origin))).left ≠ target.extract (p.memory name)

theorem encryption_zero_changes_iff (name : String) :
    let e := encryption p h input inOffset length output outOffset
    e.1.getD 0 = 0 ∧ e.2 name ≠ p.memory name ↔
      output = some name ∧ Miscounts p h input inOffset length name outOffset := by
  rw [encryption, Miscounts]
  cases hget : p.handles.get? h with
  | none => simp
  | some c =>
    cases hargs : arguments p.memory input inOffset length outOffset with
    | error e =>
      simp only [ne_eq, not_true_eq_false, and_false, false_iff]
      rintro ⟨-, c, origin, source, target, count, -, hin, hs, hfits, ht, -⟩
      have hread := arguments_eq_ok_iff.2 ⟨source, origin, hs, ht, hin, hfits, rfl⟩
      rw [hargs] at hread
      cases hread
    | ok named =>
      obtain ⟨target, data⟩ := named
      obtain ⟨source, origin, hs, ht, rfl, hfits, rfl⟩ := arguments_eq_ok_iff.1 hargs
      have hlength : (c.key.transform (source.extract (p.memory origin))).left.length =
          target.length := by
        rw [c.key.length_left, Region.length_extract hfits, Region.length_eq_of_ofSigned hs ht]
      dsimp only
      rw [deliver_zero_changes_iff output hlength name]
      constructor
      · rintro ⟨hout, htarget, count, hok, hcount, hleft⟩
        exact ⟨hout, c, origin, source, target, count, rfl, rfl, hs, hfits, ht, htarget, hok,
          hcount, hleft⟩
      · rintro ⟨hout, c', origin', source', target', count, hc, ho, hs', -, ht', htarget, hok,
          hcount, hleft⟩
        obtain rfl := Option.some.inj hc
        obtain rfl := Option.some.inj ho
        obtain rfl := Except.ok.inj (hs.symm.trans hs')
        obtain rfl := Except.ok.inj (ht.symm.trans ht')
        exact ⟨hout, htarget, count, hok, hcount, hleft⟩

/-- A call that returns zero leaves the memory as it was, unless the key miscounts: then the
output region has been written all the same. -/
theorem encrypt_zero_changes_iff (name : String) :
    let r := (encrypt h input inOffset length output outOffset : Action ε Int32) p
    r.outcome = .ok 0 ∧ r.process.memory name ≠ p.memory name ↔
      output = some name ∧ Miscounts p h input inOffset length name outOffset := by
  intro r
  obtain ⟨houtcome, hmemory⟩ : r.outcome = _ ∧ r.process.memory = _ :=
    encrypt_outcome_memory h input inOffset length output outOffset p
  rw [houtcome, hmemory, Outcome.ok.injEq]
  exact encryption_zero_changes_iff h input inOffset length output outOffset p name

/-- With a key that counts its bytes no call that returns zero changes anything. -/
theorem memory_eq_of_encrypt_zero (hcounts : ∀ c, p.handles.get? h = some c → c.key.CountsBytes)
    (hzero : ((encrypt h input inOffset length output outOffset : Action ε Int32) p).outcome =
      .ok 0) :
    ((encrypt h input inOffset length output outOffset : Action ε Int32) p).process.memory =
      p.memory := by
  obtain ⟨houtcome, hmemory⟩ :=
    encrypt_outcome_memory (ε := ε) h input inOffset length output outOffset p
  rw [hmemory]
  rw [houtcome, Outcome.ok.injEq] at hzero
  funext name
  by_contra hchanged
  obtain ⟨-, c, origin, source, target, count, hget, -, hs, hfits, ht, -, hok, hcount, hleft⟩ :=
    (encryption_zero_changes_iff h input inOffset length output outOffset p name).1
      ⟨hzero, hchanged⟩
  have hsmall := Region.length_lt_of_ofSigned hs
  have hbytes := hcounts c hget _ _ hok
  rw [Region.length_extract hfits] at hbytes
  have hsource : source.length = 0 := by omega
  have htarget : target.length = 0 := (Region.length_eq_of_ofSigned ht hs).trans hsource
  refine hleft ((List.eq_nil_of_length_eq_zero ?_).trans (List.eq_nil_of_length_eq_zero ?_).symm)
  · rw [c.key.length_left, Region.length_extract hfits, hsource]
  · simp [Region.extract, htarget]

end AesEcb.Boundary
