import AesEcb.Proofs.Alignment
import AesEcb.Proofs.Reentry

/-!
# From one buffer into another

An encryption is refused for the bounds of its regions, or else for a length that is not one of
whole blocks, before the key is asked.  Otherwise the key is asked once, about the input region
alone, and the output buffer changes only if the key succeeds, and only in the output region.
-/

namespace AesEcb

/-- A context announces an encryption, or hands bytes to its key. -/
def Event.isEncryption : Event → Bool
  | .diagnostic (.encrypting _) | .crossing (.transformAsked _ _) => true
  | _ => false

namespace Trace

variable {t : Trace}

/-- The encryptions in the course of a trace, as they are announced and as the keys see them. -/
def encryptions (t : Trace) : Trace := t.filter Event.isEncryption

theorem encryptions_append (t t' : Trace) :
    encryptions (t ++ t') = t.encryptions ++ t'.encryptions :=
  List.filter_append _ _

/-- Calls back into the library encrypt nothing. -/
theorem encryptions_of_reentrant (h : ∀ e ∈ t, e.isReentrant = true) : t.encryptions = [] := by
  refine List.filter_eq_nil_iff.2 fun e he ↦ ?_
  have hback := h e he
  cases e with
  | diagnostic d =>
    cases d with
    | encrypting n => cases hback
    | _ => exact Bool.false_ne_true
  | crossing c =>
    cases c with
    | transformAsked owner data => cases hback
    | _ => exact Bool.false_ne_true

end Trace

/-- The key of `c` is asked once, to encrypt `data`.  If it succeeds, then what it left stands in
the region `target` of the buffer that held `output`, and otherwise the buffer is as it was. -/
structure Run.Delivers {ε : Type} (run : Run ε Encryption) (c : Context) (data : Bytes)
    (target : Region) (output : Bytes) (p : Process) (e : Encryption) : Prop where
  outcome : run.outcome = .ok e
  result : e.result = (c.key.transform data).outcome
  asked : run.trace.encryptions =
    [.diagnostic (.encrypting data.length), .crossing (.transformAsked c.owner data)]
  called : p.Called (c.key.transform data).callbacks run.process
  memory : run.process.memory = p.memory
  length : e.buffer.length = output.length
  written : ∀ n, e.result = .ok n → target.extract e.buffer = (c.key.transform data).left
  around : ∀ i, i < target.offset ∨ target.offset + target.length ≤ i → e.buffer[i]? = output[i]?
  untouched : (∀ n, e.result ≠ .ok n) → e.buffer = output

namespace Context

variable {ε : Type} {c : Context} {input output data : Bytes} {p : Process}

theorem encryptions_encryptInPlace (running : Option Reference) (c : Context) (data : Bytes)
    (p : Process) :
    ((c.encryptInPlace running data : Action ε Encryption) p).trace.encryptions =
      [.diagnostic (.encrypting data.length), .crossing (.transformAsked c.owner data)] := by
  have hback := Trace.encryptions_of_reentrant
    (runCallbacks_reentrant (ε := ε) running (c.key.transform data).callbacks p)
  rw [encryptInPlace_run, Trace.encryptions_append, hback]
  rfl

/-- An encryption in place, with a result of which a buffer was made. -/
theorem delivers_of_buffer {target : Region} {buffer : Bytes}
    (hlength : buffer.length = output.length)
    (hwritten : ∀ n, (c.key.transform data).outcome = .ok n →
      target.extract buffer = (c.key.transform data).left)
    (haround : ∀ i, i < target.offset ∨ target.offset + target.length ≤ i →
      buffer[i]? = output[i]?)
    (huntouched : (∀ n, (c.key.transform data).outcome ≠ .ok n) → buffer = output) :
    let e : Encryption := ⟨buffer, (c.key.transform data).outcome⟩
    let placed := (c.encryptInPlace none data : Action ε Encryption) p
    (Run.mk (.ok e) placed.trace placed.process : Run ε Encryption).Delivers c data target output p
      e where
  outcome := rfl
  result := rfl
  asked := encryptions_encryptInPlace none c data p
  called := by
    rw [encryptInPlace_run]
    exact runCallbacks_called none _ p
  memory := by
    rw [encryptInPlace_run]
    exact (runCallbacks_ok none _ p).2
  length := hlength
  written := hwritten
  around := haround
  untouched := huntouched

/-- The bytes that the key left, if it succeeded, or else those that were there. -/
def leftOr (c : Context) (data output : Bytes) : Bytes :=
  if (c.key.transform data).outcome.isOk then (c.key.transform data).left else output

theorem leftOr_of_ok {n : Nat} (h : (c.key.transform data).outcome = .ok n) (output : Bytes) :
    c.leftOr data output = (c.key.transform data).left := by
  rw [leftOr, h]
  rfl

theorem leftOr_of_not_ok (h : ∀ n, (c.key.transform data).outcome ≠ .ok n) (output : Bytes) :
    c.leftOr data output = output := by
  rw [leftOr]
  cases houtcome : (c.key.transform data).outcome with
  | ok n => exact absurd houtcome (h n)
  | error e => rfl
  | panicked => rfl

theorem length_leftOr (hlength : data.length = output.length) :
    (c.leftOr data output).length = output.length := by
  rw [leftOr]
  split
  · rw [c.key.length_left, hlength]
  · rfl

theorem encrypt_run (hlength : input.length = output.length)
    (haligned : checkAligned input.length = .ok ()) (p : Process) :
    (c.encrypt input output : Action ε Encryption) p =
      let placed := (c.encryptInPlace none input : Action ε Encryption) p
      ⟨.ok ⟨c.leftOr input output, (c.key.transform input).outcome⟩, placed.trace,
        placed.process⟩ := by
  rw [encrypt, if_neg (not_not.2 hlength), haligned]
  simp only [Encryption.afterCheck, Action.bind_run, encryptInPlace_run, Run.andThen_ok,
    Action.pure_run, Run.after_mk, List.append_nil, leftOr]

theorem encryptRegion_run {inOffset length outOffset : Nat}
    (hsource : (Region.mk inOffset length).Fits input.length)
    (htarget : (Region.mk outOffset length).Fits output.length)
    (haligned : checkAligned length = .ok ()) (p : Process) :
    (c.encryptRegion input inOffset length output outOffset : Action ε Encryption) p =
      let target := Region.mk outOffset length
      let data := (Region.mk inOffset length).extract input
      let placed := (c.encryptInPlace none data : Action ε Encryption) p
      ⟨.ok ⟨target.replace output (c.leftOr data (target.extract output)),
        (c.key.transform data).outcome⟩, placed.trace, placed.process⟩ := by
  have hsourceLength := Region.length_extract hsource
  have htargetLength := Region.length_extract htarget
  have hencrypt := encrypt_run (ε := ε) (c := c) (hsourceLength.trans htargetLength.symm)
    (by rw [hsourceLength, haligned]) p
  simp only [encryptRegion, Region.slice_eq_ok_iff.2 ⟨hsource, rfl⟩,
    Region.slice_eq_ok_iff.2 ⟨htarget, rfl⟩, Encryption.afterCheck, Action.bind_run, hencrypt,
    Run.andThen_ok, Action.pure_run, Run.after_mk, List.append_nil]

theorem encrypt_delivers (hlength : input.length = output.length)
    (haligned : checkAligned input.length = .ok ()) (p : Process) :
    ∃ e, ((c.encrypt input output : Action ε Encryption) p).Delivers c input ⟨0, input.length⟩
      output p e := by
  have hbuffer := length_leftOr (c := c) hlength
  rw [encrypt_run hlength haligned]
  refine ⟨_, delivers_of_buffer hbuffer (fun n hn ↦ ?_) (fun i hi ↦ ?_) fun hbad ↦ ?_⟩
  · rw [Region.extract, List.drop_zero, List.take_of_length_le (by rw [hbuffer, hlength]),
      leftOr_of_ok hn]
  · have hout : output.length ≤ i := by simpa [hlength] using hi
    rw [List.getElem?_eq_none (by omega), List.getElem?_eq_none hout]
  · exact leftOr_of_not_ok hbad output

theorem encryptRegion_delivers {inOffset length outOffset : Nat}
    (hsource : (Region.mk inOffset length).Fits input.length)
    (htarget : (Region.mk outOffset length).Fits output.length)
    (haligned : checkAligned length = .ok ()) (p : Process) :
    ∃ e, ((c.encryptRegion input inOffset length output outOffset : Action ε Encryption) p).Delivers
      c ((Region.mk inOffset length).extract input) ⟨outOffset, length⟩ output p e := by
  have htargetLength := Region.length_extract htarget
  have hnew := (length_leftOr (c := c) ((Region.length_extract hsource).trans
    htargetLength.symm)).trans htargetLength
  rw [encryptRegion_run hsource htarget haligned]
  refine ⟨_, delivers_of_buffer (Region.length_replace htarget hnew) (fun n hn ↦ ?_)
    (fun i hi ↦ Region.getElem?_replace htarget hnew hi) fun hbad ↦ ?_⟩
  · rw [Region.extract_replace htarget hnew, leftOr_of_ok hn]
  · rw [Region.replace_eq_self_iff htarget hnew, leftOr_of_not_ok hbad]

theorem encryptRegion_of_source {inOffset length outOffset : Nat}
    (hsource : ¬ (Region.mk inOffset length).Fits input.length) (p : Process) :
    (c.encryptRegion input inOffset length output outOffset : Action ε Encryption) p =
      ⟨.ok ⟨output, .error (.outOfBounds inOffset length input.length)⟩, [], p⟩ := by
  rw [encryptRegion, Region.slice_eq_error hsource]
  rfl

theorem encryptRegion_of_target {inOffset length outOffset : Nat}
    (hsource : (Region.mk inOffset length).Fits input.length)
    (htarget : ¬ (Region.mk outOffset length).Fits output.length) (p : Process) :
    (c.encryptRegion input inOffset length output outOffset : Action ε Encryption) p =
      ⟨.ok ⟨output, .error (.outOfBounds outOffset length output.length)⟩, [], p⟩ := by
  rw [encryptRegion, Region.slice_eq_ok_iff.2 ⟨hsource, rfl⟩, Encryption.afterCheck,
    Region.slice_eq_error htarget]
  rfl

/-- What is wrong with an encryption from one buffer into another is found out before anything
happens, the input region first, then the output region, then their length.  If nothing is wrong,
the key is asked once, and only what it leaves when it succeeds changes the output buffer, and this
in the output region only. -/
theorem encryptRegion_exact (c : Context) (input : Bytes) (inOffset length : Nat) (output : Bytes)
    (outOffset : Nat) (p : Process) :
    let source := Region.mk inOffset length
    let target := Region.mk outOffset length
    let run := (c.encryptRegion input inOffset length output outOffset : Action ε Encryption) p
    let whole := (c.encrypt input output : Action ε Encryption) p
    let refused := fun e ↦ (⟨.ok ⟨output, .error e⟩, [], p⟩ : Run ε Encryption)
    (¬ source.Fits input.length → run = refused (.outOfBounds inOffset length input.length)) ∧
    (source.Fits input.length → ¬ target.Fits output.length →
      run = refused (.outOfBounds outOffset length output.length)) ∧
    (source.Fits input.length → target.Fits output.length →
      (length = 0 → run = refused .emptyInput) ∧
      (length % 16 ≠ 0 → run = refused (.unalignedInput length)) ∧
      (length ≠ 0 → length % 16 = 0 →
        ∃ e, run.Delivers c (source.extract input) target output p e)) ∧
    (input.length ≠ output.length →
      whole = refused (.lengthMismatch input.length output.length)) ∧
    (input.length = output.length →
      (input.length = 0 → whole = refused .emptyInput) ∧
      (input.length % 16 ≠ 0 → whole = refused (.unalignedInput input.length)) ∧
      (input.length ≠ 0 → input.length % 16 = 0 →
        ∃ e, whole.Delivers c input ⟨0, input.length⟩ output p e)) := by
  intro source target run whole refused
  have hempty : CipherError.ofLength 0 = .emptyInput := rfl
  have hunaligned : ∀ n, n % 16 ≠ 0 → CipherError.ofLength n = .unalignedInput n := by
    intro n hn
    exact if_neg fun hzero ↦ hn (by rw [hzero])
  refine ⟨fun hsource ↦ encryptRegion_of_source hsource p,
    fun hsource htarget ↦ encryptRegion_of_target hsource htarget p,
    fun hsource htarget ↦ ⟨fun hzero ↦ ?_, fun hbad ↦ ?_, fun hne hwhole ↦ ?_⟩,
    fun hlength ↦ ?_, fun hlength ↦ ⟨fun hzero ↦ ?_, fun hbad ↦ ?_, fun hne hwhole ↦ ?_⟩⟩
  · have hrun : run = _ := encryptRegion_unaligned hsource htarget (.inl hzero) p
    rw [hrun, hzero, hempty]
  · have hrun : run = _ := encryptRegion_unaligned hsource htarget (.inr hbad) p
    rw [hrun, hunaligned length hbad]
  · exact encryptRegion_delivers hsource htarget (checkAligned_eq_ok_iff.2 ⟨hne, hwhole⟩) p
  · simp only [whole, encrypt, if_pos hlength, Action.pure_run, refused]
  · have hrun : whole = _ := encrypt_unaligned hlength (.inl hzero) p
    rw [hrun, hzero, hempty]
  · have hrun : whole = _ := encrypt_unaligned hlength (.inr hbad) p
    rw [hrun, hunaligned input.length hbad]
  · exact encrypt_delivers hlength (checkAligned_eq_ok_iff.2 ⟨hne, hwhole⟩) p

/-- A key that reports another count than that of its bytes, and a region that ends beyond the
address space. -/
theorem encryptRegion_exact_miscounted :
    let script : ProviderScript := { name := "scripted", mask := 0x55, written? := some 7 }
    let c : Context := { owner := ⟨0, "scripted", false⟩, key := script.importedKey .aes128 }
    let input := List.replicate 20 0x41
    let output := List.replicate 24 0x33
    let run := fun inOffset ↦
      (c.encryptRegion input inOffset 16 output 5 : Action CipherError Encryption) {}
    (run 3).Delivers c (List.replicate 16 0x41) ⟨5, 16⟩ output {}
        ⟨List.replicate 5 0x33 ++ List.replicate 16 0x14 ++ List.replicate 3 0x33, .ok 7⟩ ∧
      run (2 ^ 64 - 8) =
        ⟨.ok ⟨output, .error (.outOfBounds (2 ^ 64 - 8) 16 20)⟩, [], {}⟩ := by
  intro script c input output run
  obtain ⟨-, -, hfits, -, -⟩ := encryptRegion_exact (ε := CipherError) c input 3 16 output 5 {}
  obtain ⟨hbounds, -⟩ :=
    encryptRegion_exact (ε := CipherError) c input (2 ^ 64 - 8) 16 output 5 {}
  obtain ⟨-, -, haligned⟩ := hfits (by decide) (by decide)
  obtain ⟨e, he⟩ := haligned (by decide) (by decide)
  have hend : (run 3).outcome = .ok ⟨List.replicate 5 0x33 ++ List.replicate 16 0x14 ++
      List.replicate 3 0x33, .ok 7⟩ := by
    simp only [run, input, output, c, script]
    rfl
  obtain rfl := Outcome.ok.inj (hend.symm.trans he.outcome)
  exact ⟨he, hbounds (by decide)⟩

end Context

end AesEcb
