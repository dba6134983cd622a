import AesEcb.Proofs.Paths

/-!
# The byte counts that encryptions return

An encryption that succeeds replaces its whole output region, but the count it returns is the one
that the key reports.  So the count is the length of the region just when the key counts right.
-/

namespace AesEcb

/-- `after` holds `new` where `before` held the bytes of the region, and else what `before` held. -/
structure Region.Replaced (r : Region) (before new after : Bytes) : Prop where
  new_length : new.length = r.length
  length_eq : after.length = before.length
  within : r.extract after = new
  around : ∀ i, i < r.offset ∨ r.offset + r.length ≤ i → after[i]? = before[i]?

theorem Region.replaced_replace {r : Region} {before new : Bytes} (h : r.Fits before.length)
    (hnew : new.length = r.length) : r.Replaced before new (r.replace before new) where
  new_length := hnew
  length_eq := length_replace h hnew
  within := extract_replace h hnew
  around _ hi := getElem?_replace h hnew hi

namespace ImportedKey

/-- The key counts right whenever it succeeds on whole blocks that a region can name. -/
def CountsBlocks (key : ImportedKey) : Prop :=
  ∀ data count, data.length < addressLimit → data.length ≠ 0 → data.length % 16 = 0 →
    (key.transform data).outcome = .ok count → count = data.length

/-- The key counts right whenever it succeeds on bytes that signed arguments can name, and reports
a count that a call through a handle can return and does not take for a failure. -/
def CountsSigned (key : ImportedKey) : Prop :=
  ∀ data count, data.length < Boundary.countLimit → count ≠ 0 → count < Boundary.countLimit →
    (key.transform data).outcome = .ok count → count = data.length

theorem CountsBytes.countsBlocks {key : ImportedKey} (h : key.CountsBytes) : key.CountsBlocks :=
  fun data count _ _ _ hok ↦ h data count hok

theorem CountsBytes.countsSigned {key : ImportedKey} (h : key.CountsBytes) : key.CountsSigned :=
  fun data count _ _ _ hok ↦ h data count hok

end ImportedKey

namespace Boundary

variable {ε : Type} {m : Memory} {output : Pointer} {target : Region} {t : Transformation}
  {count : Nat} {n : Int32} {p : Process} {h : Handle} {c : Context} {input : Pointer}
  {inOffset length outOffset : Int32}

theorem signedCount_eq_ok_iff : signedCount count = .ok n ↔ n.toInt = count := by
  have hbound := n.toInt_lt
  by_cases hcount : count < countLimit
  · have hvalue := Int32.toInt_ofNat_of_lt hcount
    rw [signedCount, if_pos hcount, Except.ok.injEq, ← Int32.toInt_inj, hvalue]
    exact eq_comm
  · rw [signedCount, if_neg hcount]
    simp only [countLimit] at hcount
    constructor
    · rintro ⟨⟩
    · intro hn
      omega

theorem exists_of_deliver_ok (hok : (deliver m output target t).1 = .ok n) :
    ∃ name count, output = some name ∧ t.outcome = .ok count ∧ n.toInt = count ∧
      target.Fits (m name).length ∧
      (deliver m output target t).2 = m.write name (target.replace (m name) t.left) := by
  cases houtcome : t.outcome with
  | panicked =>
    simp only [deliver, houtcome] at hok
    cases hok
  | error e =>
    simp only [deliver, houtcome] at hok
    cases hok
  | ok count =>
    cases output with
    | none =>
      simp only [deliver, houtcome] at hok
      cases hok
    | some name =>
      by_cases hfits : target.Fits (m name).length
      · rw [deliver_of_ok hfits houtcome] at hok ⊢
        refine ⟨name, count, rfl, rfl, ?_, hfits, rfl⟩
        cases hsigned : signedCount count with
        | error e =>
          rw [hsigned] at hok
          cases hok
        | ok n' =>
          rw [hsigned] at hok
          obtain rfl := Outcome.ok.inj hok
          exact signedCount_eq_ok_iff.1 hsigned
      · have hcheck : target.check ((m name).take (target.offset + target.length)).length =
            .error (.outOfBounds _ _ _) :=
          if_neg (mt Region.fits_take_iff.1 hfits)
        simp only [deliver, houtcome, hcheck] at hok
        cases hok

/-- What an encryption through the handle of `c` has done if it returns a count. -/
theorem exists_of_encrypt_ne_zero (hc : p.handles.get? h = some c)
    (hn : ((encrypt h input inOffset length output outOffset : Action ε Int32) p).outcome = .ok n)
    (hne : n ≠ 0) :
    ∃ origin name source target, input = some origin ∧ output = some name ∧
      Region.ofSigned inOffset length = .ok source ∧
      Region.ofSigned outOffset length = .ok target ∧
      source.Fits (p.memory origin).length ∧ target.Fits (p.memory name).length ∧
      (∃ count : Nat, n.toInt = count ∧
        (c.key.transform (source.extract (p.memory origin))).outcome = .ok count) ∧
      ((encrypt h input inOffset length output outOffset : Action ε Int32) p).process.memory =
        p.memory.write name (target.replace (p.memory name)
          (c.key.transform (source.extract (p.memory origin))).left) := by
  obtain ⟨houtcome, hmemory⟩ :=
    encrypt_outcome_memory (ε := ε) h input inOffset length output outOffset p
  rw [houtcome, Outcome.ok.injEq] at hn
  simp only [encryption, hc] at hn hmemory
  cases hargs : arguments p.memory input inOffset length outOffset with
  | error e =>
    rw [hargs] at hn
    exact absurd hn.symm hne
  | ok named =>
    obtain ⟨target, data⟩ := named
    obtain ⟨source, origin, hs, ht, rfl, hin, rfl⟩ := arguments_eq_ok_iff.1 hargs
    simp only [hargs] at hn hmemory
    cases hend : (deliver p.memory output target
        (c.key.transform (source.extract (p.memory origin)))).1 with
    | panicked =>
      rw [hend] at hn
      exact absurd hn.symm hne
    | error e =>
      rw [hend] at hn
      exact absurd hn.symm hne
    | ok n' =>
      rw [hend] at hn
      obtain rfl : n' = n := hn
      obtain ⟨name, count, rfl, hok, hcount, hout, hwritten⟩ := exists_of_deliver_ok hend
      exact ⟨origin, name, source, target, rfl, rfl, hs, ht, hin, hout, ⟨count, hcount, hok⟩,
        hmemory.trans hwritten⟩

end Boundary

namespace Context

variable {ε : Type} {c : Context} {input output : Bytes} {inOffset length outOffset n : Nat}
  {p : Process} {e : Encryption}

/-- What an encryption from one buffer into another has done if it returns a count. -/
theorem encryptRegion_of_ok
    (he : ((c.encryptRegion input inOffset length output outOffset : Action ε Encryption)
      p).outcome = .ok e) (hn : e.result = .ok n) :
    (Region.mk inOffset length).Fits input.length ∧ checkAligned length = .ok () ∧
      ((c.encryptRegion input inOffset length output outOffset : Action ε Encryption) p).Delivers c
        ((Region.mk inOffset length).extract input) ⟨outOffset, length⟩ output p e := by
  -- Where the key is not asked, the encryption has a refusal for its result.
  have hrefused : ∀ cause,
      (c.encryptRegion input inOffset length output outOffset : Action ε Encryption) p ≠
        ⟨.ok ⟨output, .error cause⟩, [], p⟩ := by
    intro cause hrun
    rw [hrun] at he
    obtain rfl := Outcome.ok.inj he
    cases hn
  by_cases hsource : (Region.mk inOffset length).Fits input.length
  · by_cases htarget : (Region.mk outOffset length).Fits output.length
    · by_cases hbad : length = 0 ∨ length % 16 ≠ 0
      · exact absurd (encryptRegion_unaligned hsource htarget hbad p) (hrefused _)
      · rw [not_or, not_not] at hbad
        have haligned := checkAligned_eq_ok_iff.2 hbad
        obtain ⟨e', he'⟩ := encryptRegion_delivers (ε := ε) (c := c) hsource htarget haligned p
        obtain rfl := Outcome.ok.inj (he.symm.trans he'.outcome)
        exact ⟨hsource, haligned, he'⟩
    · exact absurd (encryptRegion_of_target hsource htarget p) (hrefused _)
  · exact absurd (encryptRegion_of_source hsource p) (hrefused _)

/-- Every count that the context returns for a region is the length of the region. -/
def CountsRegions (c : Context) : Prop :=
  ∀ (input : Bytes) (inOffset length : Nat) (output : Bytes) (outOffset : Nat) (p : Process)
    (e : Encryption) (n : Nat),
    (c.encryptRegion input inOffset length output outOffset p :
      Run CipherError Encryption).outcome = .ok e → e.result = .ok n → n = length

/-- Every count but zero that a call through a handle of the context returns is the length of the
region. -/
def CountsThroughHandles (c : Context) : Prop :=
  ∀ (p : Process) (h : Handle) (input : Pointer) (inOffset length : Int32) (output : Pointer)
    (outOffset n : Int32), p.handles.get? h = some c →
    (Boundary.encrypt h input inOffset length output outOffset p : Run CipherError Int32).outcome =
      .ok n → n ≠ 0 → n = length

theorem countsRegions_iff : c.CountsRegions ↔ c.key.CountsBlocks := by
  constructor
  · intro hcounts data count hlimit hne hwhole hok
    have hfits : (Region.mk 0 data.length).Fits data.length := by
      simp only [Region.Fits]
      omega
    have haligned := checkAligned_eq_ok_iff.2 ⟨hne, hwhole⟩
    obtain ⟨e, he⟩ :=
      encryptRegion_delivers (ε := CipherError) (c := c) hfits hfits haligned {}
    have hdata : (Region.mk 0 data.length).extract data = data := by simp [Region.extract]
    have hresult := he.result
    rw [hdata, hok] at hresult
    exact hcounts data 0 data.length data 0 {} e count he.outcome hresult
  · intro hcounts input inOffset length output outOffset p e n he hn
    obtain ⟨hsource, haligned, hdelivers⟩ := encryptRegion_of_ok he hn
    have hlength := Region.length_extract hsource
    obtain ⟨hne, hwhole⟩ := checkAligned_eq_ok_iff.1 haligned
    have hlimit := hsource.1
    simp only at hlength hlimit
    rw [← hlength] at hne hwhole
    exact (hcounts _ n (by omega) hne hwhole (hdelivers.result.symm.trans hn)).trans hlength

theorem countsThroughHandles_iff : c.CountsThroughHandles ↔ c.key.CountsSigned := by
  constructor
  · intro hcounts data count hlength hne hcount hok
    let p : Process :=
      { handles := { entries := [(⟨1⟩, c)], nextId := 1, nodup := List.nodup_singleton _ }
        memory := fun _ ↦ data }
    have hvalue := Int32.toInt_ofNat_of_lt hlength
    have hreturned := Int32.toInt_ofNat_of_lt hcount
    have hnonneg : 0 ≤ Int32.ofNat data.length := by
      rw [Int32.le_iff_toInt_le, hvalue]
      exact Int.natCast_nonneg _
    have hholds : Pointer.Holds (some "data") p.memory 0 (Int32.ofNat data.length) := by
      rintro name - - -
      rw [hvalue]
      simp [p]
    obtain ⟨r, hr, hfits, hreq⟩ := hholds.exists_region (Int32.le_refl 0) hnonneg
    have hdata : r.extract data = data := by simp [hreq, Region.extract, hvalue]
    have hargs : Boundary.arguments p.memory (some "data") 0 (Int32.ofNat data.length) 0 =
        .ok (r, data) :=
      Boundary.arguments_eq_ok_iff.2 ⟨r, "data", hr, hr, rfl, hfits, hdata⟩
    have hget : p.handles.get? ⟨1⟩ = some c := rfl
    have hrun := Boundary.encrypt_run_of_arguments (ε := CipherError) (some "data") hget hargs
    have hsigned : Boundary.signedCount count = .ok (Int32.ofNat count) := if_pos hcount
    rw [Boundary.deliver_of_ok hfits hok, hsigned] at hrun
    have hne' : Int32.ofNat count ≠ 0 := by
      rw [ne_eq, ← Int32.toInt_inj, hreturned]
      exact fun hzero ↦ hne (Int.natCast_eq_zero.1 hzero)
    have hsame := hcounts p ⟨1⟩ _ _ _ _ _ (Int32.ofNat count) hget (by rw [hrun]; rfl) hne'
    rw [← Int32.toInt_inj, hreturned, hvalue] at hsame
    exact Int.natCast_inj.1 hsame
  · intro hcounts p h input inOffset length output outOffset n hget hn hne
    obtain ⟨origin, name, source, target, -, -, hs, -, hin, -, ⟨count, hcount, hok⟩, -⟩ :=
      Boundary.exists_of_encrypt_ne_zero hget hn hne
    have hlength := Region.length_extract hin
    obtain ⟨-, hnonneg, hsource⟩ := Region.ofSigned_eq_ok_iff.1 hs
    have hvalue := toInt_nonneg hnonneg
    have hbound := length.toInt_lt
    have hcountBound := n.toInt_lt
    have hpos : count ≠ 0 := by
      rintro rfl
      exact hne (Int32.toInt_inj.1 hcount)
    rw [hsource] at hlength
    have hright := hcounts _ count
      (by rw [hsource, hlength]; simp only [Boundary.countLimit]; omega) hpos
      (by simp only [Boundary.countLimit]; omega) hok
    rw [hsource, hlength] at hright
    rw [← Int32.toInt_inj, hcount, hright]
    exact Int.toNat_of_nonneg hvalue

/-- An encryption that returns a count has replaced as many bytes as its region has, and the count
is the one that the key reported.  So the counts that a context returns are the lengths of the
regions just when its key counts right, as the keys of the engines do. -/
theorem counts_as_key_counts [LinkedCipher] (c : Context) :
    (∀ (input : Bytes) (inOffset length : Nat) (output : Bytes) (outOffset : Nat) (p : Process)
        (e : Encryption) (n : Nat),
      let data := (Region.mk inOffset length).extract input
      (c.encryptRegion input inOffset length output outOffset p : Run CipherError
        Encryption).outcome = .ok e → e.result = .ok n →
      (c.key.transform data).outcome = .ok n ∧ data.length = length ∧
        (Region.mk outOffset length).Replaced output (c.key.transform data).left e.buffer) ∧
    (∀ (p : Process) (h : Handle) (input : Pointer) (inOffset length : Int32) (output : Pointer)
        (outOffset n : Int32),
      let run : Run CipherError Int32 := Boundary.encrypt h input inOffset length output outOffset p
      p.handles.get? h = some c → run.outcome = .ok n → n ≠ 0 →
      ∃ origin name source target, input = some origin ∧ output = some name ∧
        Region.ofSigned inOffset length = .ok source ∧
        Region.ofSigned outOffset length = .ok target ∧
        let data := source.extract (p.memory origin)
        (∃ count : Nat, n.toInt = count ∧ (c.key.transform data).outcome = .ok count) ∧
          data.length = length.toInt ∧
          target.Replaced (p.memory name) (c.key.transform data).left (run.process.memory name) ∧
          ∀ other, other ≠ name → run.process.memory other = p.memory other) ∧
    (c.CountsRegions ↔ c.key.CountsBlocks) ∧
    (c.CountsThroughHandles ↔ c.key.CountsSigned) ∧
    ∀ (engine : Engine) (k : Key), c.key = engine.importedKey k →
      c.CountsRegions ∧ c.CountsThroughHandles := by
  refine ⟨?_, ?_, countsRegions_iff, countsThroughHandles_iff, ?_⟩
  · intro input inOffset length output outOffset p e n data he hn
    obtain ⟨hsource, -, hdelivers⟩ := encryptRegion_of_ok he hn
    have hlength : data.length = length := Region.length_extract hsource
    refine ⟨hdelivers.result.symm.trans hn, hlength, ?_, hdelivers.length, hdelivers.written n hn,
      hdelivers.around⟩
    exact (c.key.length_left data).trans hlength
  · intro p h input inOffset length output outOffset n run hget hn hne
    obtain ⟨origin, name, source, target, hinput, houtput, hs, ht, hin, hout, hcount, hmemory⟩ :=
      Boundary.exists_of_encrypt_ne_zero hget hn hne
    have hlength := Region.length_extract hin
    have hleft : (c.key.transform (source.extract (p.memory origin))).left.length =
        target.length := by
      rw [c.key.length_left, hlength, Region.length_eq_of_ofSigned hs ht]
    have hmemory' : run.process.memory = _ := hmemory
    refine ⟨origin, name, source, target, hinput, houtput, hs, ht, hcount, ?_, ?_, ?_⟩
    · obtain ⟨-, hnonneg, hsource⟩ := Region.ofSigned_eq_ok_iff.1 hs
      rw [hlength, hsource]
      exact Int.toNat_of_nonneg (toInt_nonneg hnonneg)
    · rw [hmemory', Memory.write_self]
      exact Region.replaced_replace hout hleft
    · intro other hother
      rw [hmemory', Memory.write_of_ne _ _ hother]
  · intro engine k hkey
    have hbytes : c.key.CountsBytes := hkey ▸ engine.countsBytes_importedKey k
    exact ⟨countsRegions_iff.2 hbytes.countsBlocks, countsThroughHandles_iff.2 hbytes.countsSigned⟩

/-- A key that reports seven bytes has replaced sixteen, whichever way it is asked. -/
theorem counts_as_key_counts_miscounted :
    let script : ProviderScript := { name := "scripted", mask := 0x55, written? := some 7 }
    let c : Context := { owner := ⟨0, "scripted", false⟩, key := script.importedKey .aes128 }
    let text : Bytes := List.replicate 16 0x41
    let new : Bytes := List.replicate 16 0x14
    let p : Process :=
      { handles := { entries := [(⟨1⟩, c)], nextId := 1, nodup := List.nodup_singleton _ }
        memory := fun _ ↦ text }
    let direct : Run CipherError Encryption := c.encryptRegion text 0 16 text 0 p
    let handled : Run CipherError Int32 := Boundary.encrypt ⟨1⟩ (some "a") 0 16 (some "o") 0 p
    direct.outcome = .ok ⟨new, .ok 7⟩ ∧ (Region.mk 0 16).Replaced text new new ∧
      handled.outcome = .ok 7 ∧
      (Region.mk 0 16).Replaced text new (handled.process.memory "o") ∧
      ¬ c.CountsRegions ∧ ¬ c.CountsThroughHandles := by
  intro script c text new p direct handled
  obtain ⟨hdirect, hhandled, hregions, hhandles, -⟩ := counts_as_key_counts c
  have hoffered : direct.outcome = .ok ⟨new, .ok 7⟩ := by
    simp only [direct, p, new, text, c, script]
    rfl
  have hreturned : handled.outcome = .ok 7 := by
    simp only [handled, p, text, c, script]
    rfl
  obtain ⟨-, -, hwhole⟩ := hdirect text 0 16 text 0 p _ 7 hoffered rfl
  obtain ⟨origin, name, source, target, horigin, hname, hs, ht, -, -, hwritten, -⟩ :=
    hhandled p ⟨1⟩ (some "a") 0 16 (some "o") 0 7 rfl hreturned (by decide)
  obtain rfl := Option.some.inj horigin
  obtain rfl := Option.some.inj hname
  have hleft : (c.key.transform ((Region.mk 0 16).extract text)).left = new := by decide
  have hregion : Region.ofSigned 0 16 = .ok ⟨0, 16⟩ := by decide
  obtain rfl := Except.ok.inj (hs.symm.trans hregion)
  obtain rfl := Except.ok.inj (ht.symm.trans hregion)
  refine ⟨hoffered, hleft ▸ hwhole, hreturned, hleft ▸ hwritten, fun hcounts ↦ ?_,
    fun hcounts ↦ ?_⟩
  · exact absurd (hregions.1 hcounts text 7 (by decide) (by decide) (by decide) rfl) (by decide)
  · exact absurd (hhandles.1 hcounts text 7 (by decide) (by decide) (by decide) rfl) (by decide)

end Context

end AesEcb
