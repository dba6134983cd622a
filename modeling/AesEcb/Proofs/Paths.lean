import AesEcb.Proofs.FlatBuffers
import AesEcb.Proofs.KeyStore

/-!
# Two ways to one encryption

A context encrypts the same whether it is used through a handle or directly: the key is handed the
same bytes, and the output holds the same when it succeeds, and is left alone when it does not.
-/

namespace AesEcb

variable {ε : Type}

namespace Boundary

variable {h : Handle} {c : Context} {p : Process}

theorem encryptions_warning {α : Type} (operation : Operation) (o : Outcome BoundaryError α) :
    (warning operation o).encryptions = [] := by
  cases o with
  | ok a => rfl
  | error e => rfl
  | panicked => rfl

theorem encryptions_encrypt {input output : Pointer} {inOffset length outOffset : Int32}
    {target : Region} {data : Bytes} (hc : p.handles.get? h = some c)
    (hargs : arguments p.memory input inOffset length outOffset = .ok (target, data)) :
    ((encrypt h input inOffset length output outOffset : Action ε Int32) p).trace.encryptions =
      [.diagnostic (.encrypting data.length), .crossing (.transformAsked c.owner data)] := by
  rw [encrypt_run_of_arguments output hc hargs]
  simp only [Trace.encryptions_append, Context.encryptions_encryptInPlace, encryptions_warning,
    Trace.encryptions_of_reentrant (Process.dropped_reentrant _ _ _ _), List.append_nil]

theorem deliver_of_ok {m : Memory} {name : String} {target : Region} {t : Transformation} {n : Nat}
    (hfits : target.Fits (m name).length) (hok : t.outcome = .ok n) :
    deliver m (some name) target t =
      (.ofExcept (signedCount n), m.write name (target.replace (m name) t.left)) := by
  have hcheck : target.check ((m name).take (target.offset + target.length)).length = .ok () :=
    if_pos (Region.fits_take_iff.2 hfits)
  simp only [deliver, hok, hcheck]

theorem deliver_of_not_ok (m : Memory) (output : Pointer) (target : Region) {t : Transformation}
    (hbad : ∀ n, t.outcome ≠ .ok n) :
    (deliver m output target t).1.getD 0 = 0 ∧ (deliver m output target t).2 = m := by
  rw [deliver]
  cases houtcome : t.outcome with
  | ok n => exact absurd houtcome (hbad n)
  | error e => exact ⟨rfl, rfl⟩
  | panicked => exact ⟨rfl, rfl⟩

/-- Within the bounds of the buffers, and for a length of whole blocks, it makes no difference
whether a context encrypts through a handle or directly.  The two buffers may be the same one, and
their regions may overlap; the direct call is then given a copy of the input. -/
theorem encrypt_agrees {input output : String} {inOffset length outOffset : Int32}
    (hc : p.handles.get? h = some c) (hinOffset : 0 ≤ inOffset) (houtOffset : 0 ≤ outOffset)
    (hpos : 0 < length) (hdvd : 16 ∣ length.toInt)
    (hin : Pointer.Holds (some input) p.memory inOffset length)
    (hout : Pointer.Holds (some output) p.memory outOffset length) (q : Process) :
    let handled :=
      (encrypt h (some input) inOffset length (some output) outOffset : Action ε Int32) p
    let direct := (c.encryptRegion (p.memory input) inOffset.toInt.toNat length.toInt.toNat
      (p.memory output) outOffset.toInt.toNat : Action ε Encryption) q
    let data := (p.memory input).sub inOffset length
    handled.trace.encryptions =
        [.diagnostic (.encrypting data.length), .crossing (.transformAsked c.owner data)] ∧
      direct.trace.encryptions = handled.trace.encryptions ∧
      ∃ e, direct.outcome = .ok e ∧
        (∀ n, e.result = .ok n → n < 2 ^ 31 →
          (∃ count : Int32, handled.outcome = .ok count ∧ count.toInt = n) ∧
            handled.process.memory = p.memory.write output e.buffer) ∧
        ((∀ n, e.result ≠ .ok n) →
          handled.outcome = .ok 0 ∧ handled.process.memory = p.memory ∧
            e.buffer = p.memory output) := by
  intro handled direct data
  have hnonneg : 0 ≤ length := Int32.le_of_lt hpos
  obtain ⟨source, hs, hsource, rfl⟩ := hin.exists_region hinOffset hnonneg
  obtain ⟨target, ht, htarget, htargetEq⟩ := hout.exists_region houtOffset hnonneg
  have haligned := (checkAligned_toNat_iff hnonneg).2 ⟨hpos, hdvd⟩
  have hargs : arguments p.memory (some input) inOffset length outOffset = .ok (target, data) :=
    arguments_eq_ok_iff.2 ⟨_, input, hs, ht, rfl, hsource, rfl⟩
  have hhandled : handled = _ := encrypt_run_of_arguments (some output) hc hargs
  have hdirect : direct = _ :=
    Context.encryptRegion_run hsource (htargetEq ▸ htarget) haligned q
  have hasked : handled.trace.encryptions = _ := encryptions_encrypt hc hargs
  rw [← htargetEq] at hdirect
  refine ⟨hasked, ?_, _, by rw [hdirect], fun n hn hlt ↦ ?_, fun hbad ↦ ?_⟩
  · rw [hasked, hdirect]
    exact Context.encryptions_encryptInPlace none c data q
  · have hok : (c.key.transform data).outcome = .ok n := hn
    have hcount : signedCount n = .ok (Int32.ofNat n) := if_pos hlt
    have hleft : c.leftOr data (target.extract (p.memory output)) = _ := Context.leftOr_of_ok hok _
    rw [hhandled]
    simp only [deliver_of_ok htarget hok, hcount, ← hleft]
    exact ⟨⟨_, rfl, Int32.toInt_ofNat_of_lt hlt⟩, rfl⟩
  · have hnot : ∀ n, (c.key.transform data).outcome ≠ .ok n := hbad
    have hleft : c.leftOr data (target.extract (p.memory output)) = _ :=
      Context.leftOr_of_not_ok hnot _
    obtain ⟨hzero, hmemory⟩ :=
      deliver_of_not_ok p.memory (some output) target hnot
    have hbuffer : target.replace (p.memory output)
        (c.leftOr data (target.extract (p.memory output))) = p.memory output := by
      rw [hleft, (Region.replace_eq_self_iff htarget (Region.length_extract htarget)).2 rfl]
    rw [hhandled]
    exact ⟨congrArg _ hzero, hmemory, hbuffer⟩

/-- The output region starts in the middle of the input region of the same buffer, and the key
reports a count of its own. -/
theorem encrypt_agrees_overlapping :
    let script : ProviderScript := { name := "scripted", mask := 0x55, written? := some 5 }
    let c : Context := { owner := ⟨0, "scripted", false⟩, key := script.importedKey .aes128 }
    let bytes := List.replicate 8 0x00 ++ List.replicate 32 0x41
    let p : Process :=
      { handles := { entries := [(⟨1⟩, c)], nextId := 1, nodup := List.nodup_singleton _ }
        memory := fun _ ↦ bytes }
    let handled : Run CipherError Int32 := encrypt ⟨1⟩ (some "text") 0 32 (some "text") 8 p
    let direct := (c.encryptRegion bytes 0 32 bytes 8 : Action CipherError Encryption) {}
    let after := List.replicate 8 0x00 ++ List.replicate 8 0x55 ++ List.replicate 24 0x14
    p.handles.get? ⟨1⟩ = some c ∧ Pointer.Holds (some "text") p.memory 0 32 ∧
      Pointer.Holds (some "text") p.memory 8 32 ∧
      direct.trace.encryptions = handled.trace.encryptions ∧
      direct.outcome = .ok ⟨after, .ok 5⟩ ∧ handled.outcome = .ok 5 ∧
      handled.process.memory = p.memory.write "text" after := by
  intro script c bytes p handled direct after
  have hin : Pointer.Holds (some "text") p.memory 0 32 := by decide
  have hout : Pointer.Holds (some "text") p.memory 8 32 := by decide
  obtain ⟨-, hasked, e, he, hok, -⟩ := encrypt_agrees (ε := CipherError) (h := ⟨1⟩) (c := c)
    (p := p) rfl (by decide) (by decide) (by decide) (by decide) hin hout {}
  have hend : direct.outcome = .ok ⟨after, .ok 5⟩ := by
    simp only [direct, after, bytes, c, script]
    rfl
  obtain rfl := Outcome.ok.inj (hend.symm.trans he)
  obtain ⟨⟨count, hcount, hvalue⟩, hmemory⟩ := hok 5 rfl (by decide)
  obtain rfl : count = 5 := Int32.toInt_inj.1 hvalue
  exact ⟨rfl, hin, hout, hasked, hend, hcount, hmemory⟩

end Boundary

end AesEcb
