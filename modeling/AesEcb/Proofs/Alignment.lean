import AesEcb.Proofs.Encryption
import AesEcb.Proofs.Steps
import AesEcb.Provider.Scripted

/-!
# Lengths that are not whole blocks

Of the four ways to encrypt two look at the length before the key is asked.  The other two hand
the bytes to the key whatever their number, and it is the key that refuses them or does not.
-/

namespace AesEcb

theorem Memory.write_eq_self (m : Memory) (name : String) : m.write name (m name) = m := by
  funext other
  by_cases h : other = name
  · rw [h, write_self]
  · rw [write_of_ne m _ h]

/-- What is wrong with a length that is not one of whole blocks. -/
def CipherError.ofLength (n : Nat) : CipherError :=
  if n = 0 then .emptyInput else .unalignedInput n

theorem checkAligned_eq_error {n : Nat} (hbad : n = 0 ∨ n % 16 ≠ 0) :
    checkAligned n = .error (.ofLength n) := by
  by_cases hn : n = 0
  · simp [checkAligned, CipherError.ofLength, hn]
  · simp [checkAligned, CipherError.ofLength, hn, hbad.resolve_left hn]

namespace Context

variable {ε : Type} {c : Context} {input output data : Bytes}

theorem encrypt_unaligned (hlength : input.length = output.length)
    (hbad : input.length = 0 ∨ input.length % 16 ≠ 0) (p : Process) :
    (c.encrypt input output : Action ε Encryption) p =
      ⟨.ok ⟨output, .error (.ofLength input.length)⟩, [], p⟩ := by
  rw [encrypt, if_neg (not_not.2 hlength), checkAligned_eq_error hbad]
  rfl

theorem encryptRegion_unaligned {inOffset length outOffset : Nat}
    (hsource : (Region.mk inOffset length).Fits input.length)
    (htarget : (Region.mk outOffset length).Fits output.length)
    (hbad : length = 0 ∨ length % 16 ≠ 0) (p : Process) :
    (c.encryptRegion input inOffset length output outOffset : Action ε Encryption) p =
      ⟨.ok ⟨output, .error (.ofLength length)⟩, [], p⟩ := by
  have hsourceLength := Region.length_extract hsource
  have htargetLength := Region.length_extract htarget
  have hencrypt := c.encrypt_unaligned (ε := ε) (hsourceLength.trans htargetLength.symm)
    (by rwa [hsourceLength]) p
  simp only [encryptRegion, Region.slice_eq_ok_iff.2 ⟨hsource, rfl⟩,
    Region.slice_eq_ok_iff.2 ⟨htarget, rfl⟩, Encryption.afterCheck, Action.bind_run, hencrypt,
    Run.andThen_ok, Action.pure_run, Run.after_nil, hsourceLength,
    (Region.replace_eq_self_iff htarget htargetLength).2]

end Context

namespace Step

/-- The way to encrypt looks at the length before the key is asked. -/
def checksLength : Step → Bool
  | encrypt _ _ _ | encryptRegion _ _ _ _ _ _ => true
  | _ => false

def refusal (e : CipherError) : Step → Reply
  | handleEncrypt _ _ _ _ _ _ => .signed 0
  | _ => .failed e

def success (n : Nat) : Step → Reply
  | handleEncrypt _ _ _ _ _ _ => .signed (Int32.ofNat n)
  | _ => .counted n

end Step

namespace Session

/-- The step has the context `c` encrypt `data`, and if anything is wrong with it, it is the number
of bytes. -/
inductive Encrypts (s : Session) (c : Context) (data : Bytes) : Step → Prop
  | encrypt {slot : Nat} {input output : String} (hc : s.context? slot = some c)
      (hdata : s.process.memory input = data)
      (hlength : data.length = (s.process.memory output).length) :
      s.Encrypts c data (.encrypt slot input output)
  | encryptRegion {slot inOffset length outOffset : Nat} {input output : String}
      (hc : s.context? slot = some c)
      (hsource : (Region.mk inOffset length).Fits (s.process.memory input).length)
      (htarget : (Region.mk outOffset length).Fits (s.process.memory output).length)
      (hdata : (Region.mk inOffset length).extract (s.process.memory input) = data) :
      s.Encrypts c data (.encryptRegion slot input inOffset length output outOffset)
  | encryptInPlace {slot : Nat} {output : String} (hc : s.context? slot = some c)
      (hdata : s.process.memory output = data) :
      s.Encrypts c data (.encryptInPlace slot output)
  | handleEncrypt {h : Handle} {inOffset length outOffset : Int32} {input output : String}
      {source target : Region} (hc : s.process.handles.get? h = some c)
      (hsource : Region.ofSigned inOffset length = .ok source)
      (htarget : Region.ofSigned outOffset length = .ok target)
      (hin : source.Fits (s.process.memory input).length)
      (hout : target.Fits (s.process.memory output).length)
      (hdata : source.extract (s.process.memory input) = data) :
      s.Encrypts c data (.handleEncrypt h (some input) inOffset length (some output) outOffset)

variable [LinkedCipher] {s : Session} {c : Context} {data : Bytes} {x : Step}

omit [LinkedCipher] in
theorem useSlot_refused {slot : Nat} {output : String} {e : CipherError}
    {y : Context → Action CipherError Encryption} (hc : s.context? slot = some c)
    (hy : y c s.process = ⟨.ok ⟨s.process.memory output, .error e⟩, [], s.process⟩) :
    s.useSlot slot output y = ⟨.failed e, [], s⟩ := by
  rw [useSlot_of_ok hc hy, Memory.write_eq_self]

/-- Where the length is looked at, nothing happens. -/
theorem step_of_checksLength (hx : s.Encrypts c data x)
    (hbad : data.length = 0 ∨ data.length % 16 ≠ 0) (hchecks : x.checksLength = true) :
    s.step x = ⟨x.refusal (.ofLength data.length), [], s⟩ := by
  cases hx with
  | encrypt hc hdata hlength =>
    subst hdata
    exact useSlot_refused hc (Context.encrypt_unaligned hlength hbad _)
  | encryptRegion hc hsource htarget hdata =>
    subst hdata
    rw [Region.length_extract hsource] at hbad ⊢
    exact useSlot_refused hc (Context.encryptRegion_unaligned hsource htarget hbad _)
  | encryptInPlace => cases hchecks
  | handleEncrypt => cases hchecks

/-- Where it is not, the key is asked, and the step ends as the key does. -/
theorem step_of_not_checksLength (hx : s.Encrypts c data x) (hchecks : x.checksLength = false) :
    let r := s.step x
    let t := c.key.transform data
    .crossing (.transformAsked c.owner data) ∈ r.trace ∧
      (∀ e, t.outcome = .error e → t.left = data →
        r.reply = x.refusal e ∧ r.session.process.memory = s.process.memory) ∧
      ∀ n, t.outcome = .ok n → n < 2 ^ 31 → r.reply = x.success n := by
  intro r t
  cases hx with
  | encrypt => cases hchecks
  | encryptRegion => cases hchecks
  | encryptInPlace hc hdata =>
    have hr : r = _ := useSlot_of_ok hc (c.encryptInPlace_run none _ s.process)
    rw [hdata] at hr
    have hmemory := (runCallbacks_ok (ε := CipherError) none t.callbacks s.process).2
    refine ⟨?_, ?_, ?_⟩
    · rw [hr]
      simp
    · intro e he hleft
      have he' : (c.key.transform data).outcome = .error e := he
      have hleft' : (c.key.transform data).left = data := hleft
      rw [hr]
      refine ⟨by simp only [he', Step.refusal], ?_⟩
      show ((runCallbacks none t.callbacks : Action CipherError Unit)
        s.process).process.memory.write _ (c.key.transform data).left = _
      rw [hmemory, hleft', ← hdata, Memory.write_eq_self]
    · intro n hn _
      have hn' : (c.key.transform data).outcome = .ok n := hn
      rw [hr]
      simp only [hn', Step.success]
  | @handleEncrypt h inOffset length outOffset input output source target hc hsource htarget hin
      hout hdata =>
    have hargs := Boundary.arguments_eq_ok_iff.2 ⟨source, input, hsource, htarget, rfl, hin, hdata⟩
    have hcheck : target.check
        ((s.process.memory output).take (target.offset + target.length)).length = .ok () :=
      if_pos (Region.fits_take_iff.2 hout)
    have hrun := Boundary.encrypt_run_of_arguments (ε := CipherError) (some output) hc hargs
    simp only [Boundary.deliver] at hrun
    have hr : r = _ := perform_of_ok hrun .signed
    refine ⟨?_, ?_, ?_⟩
    · rw [hr, Context.encryptInPlace_run]
      simp
    · intro e he hleft
      have he' : (c.key.transform data).outcome = .error e := he
      rw [hr]
      simp only [he', Outcome.getD, Step.refusal, and_self]
    · intro n hn hlt
      have hn' : (c.key.transform data).outcome = .ok n := hn
      have hcount : Boundary.signedCount n = .ok (Int32.ofNat n) := if_pos hlt
      rw [hr]
      simp only [hn', hcheck, hcount, Outcome.ofExcept, Outcome.getD, Step.success]

/-- An encryption of anything but whole blocks fails, without the key having been asked and without
a change to any buffer, just where the length is looked at.  Where it is not, the key is asked with
these bytes, and the encryption fails or succeeds with it. -/
theorem unaligned_refused_iff (hx : s.Encrypts c data x)
    (hbad : data.length = 0 ∨ data.length % 16 ≠ 0) :
    let r := s.step x
    let t := c.key.transform data
    (r.reply = x.refusal (.ofLength data.length) ∧
        (∀ i d, .crossing (.transformAsked i d) ∉ r.trace) ∧
        r.session.process.memory = s.process.memory ↔ x.checksLength = true) ∧
      (x.checksLength = false →
        .crossing (.transformAsked c.owner data) ∈ r.trace ∧
          (∀ e, t.outcome = .error e → t.left = data →
            r.reply = x.refusal e ∧ r.session.process.memory = s.process.memory) ∧
          ∀ n, t.outcome = .ok n → n < 2 ^ 31 → r.reply = x.success n) := by
  intro r t
  refine ⟨⟨?_, ?_⟩, step_of_not_checksLength hx⟩
  · rintro ⟨-, hasked, -⟩
    by_contra hchecks
    rw [Bool.not_eq_true] at hchecks
    exact hasked _ _ (step_of_not_checksLength hx hchecks).1
  · intro hchecks
    have hr : r = _ := step_of_checksLength hx hbad hchecks
    rw [hr]
    exact ⟨rfl, fun _ _ ↦ List.not_mem_nil, rfl⟩

end Session

/-- Fifteen bytes go to a key without a check of its own, and come back encrypted. -/
theorem Session.unaligned_refused_iff_scripted :
    let script : ProviderScript := { name := "scripted", mask := 0x55 }
    let c : Context := { owner := ⟨0, "scripted", false⟩, key := script.importedKey .aes128 }
    let s : Session :=
      { process :=
          { handles := { entries := [(⟨1⟩, c)], nextId := 1, nodup := List.nodup_singleton _ }
            memory := fun _ ↦ List.replicate 15 0x41 } }
    let data := List.replicate 15 0x41
    let x : Step := .handleEncrypt ⟨1⟩ (some "text") 0 15 (some "out") 0
    s.Encrypts c data x ∧ (data.length = 0 ∨ data.length % 16 ≠ 0) ∧
      .crossing (.transformAsked c.owner data) ∈ (s.step x).trace ∧
      (s.step x).reply = .signed 15 := by
  intro script c s data x
  have hregion : Region.ofSigned 0 15 = .ok ⟨0, 15⟩ := by decide
  have hx : s.Encrypts c data x :=
    .handleEncrypt rfl hregion hregion (by decide) (by decide) rfl
  have hbad : data.length = 0 ∨ data.length % 16 ≠ 0 := by decide
  obtain ⟨-, hunchecked⟩ := Session.unaligned_refused_iff hx hbad
  obtain ⟨hasked, -, hsuccess⟩ := hunchecked rfl
  exact ⟨hx, hbad, hasked, hsuccess 15 rfl (by decide)⟩

end AesEcb
