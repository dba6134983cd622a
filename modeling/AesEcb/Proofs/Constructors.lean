import AesEcb.Proofs.Candidates
import AesEcb.Proofs.Delegation
import AesEcb.Proofs.Refinement
import AesEcb.Proofs.Secrecy

/-!
# The ways to open a context

However a context is opened on an engine, the length of its key is checked first, and then the
bounds, and what is opened encrypts the same.  This goes for the context behind a new handle, too.
-/

namespace AesEcb

section Indistinguishable

variable {ε α β : Type}

/-- The two end the same way, in the same state, and with the same diagnostics. -/
structure Run.Agrees (r r' : Run ε α) : Prop where
  outcome_eq : r.outcome = r'.outcome
  diagnostics_eq : r.trace.diagnostics = r'.trace.diagnostics
  process_eq : r.process = r'.process

namespace Run.Agrees

variable {r r' : Run ε α}

theorem refl (r : Run ε α) : r.Agrees r := ⟨rfl, rfl, rfl⟩

theorem andThen (h : r.Agrees r') (f : α → Process → Run ε β) :
    (r.andThen f).Agrees (r'.andThen f) := by
  obtain ⟨houtcome, hdiagnostics, hprocess⟩ := h
  rw [Run.andThen, Run.andThen, ← houtcome, ← hprocess]
  cases r.outcome with
  | ok a =>
    refine ⟨rfl, ?_, rfl⟩
    simp only [Run.after, Trace.diagnostics, List.filterMap_append]
    exact congrArg (· ++ _) hdiagnostics
  | error e => exact ⟨rfl, hdiagnostics, rfl⟩
  | panicked => exact ⟨rfl, hdiagnostics, rfl⟩

end Run.Agrees

namespace Context

variable {c c' : Context}

/-- The two cannot be told apart by how they encrypt, in any of the three ways. -/
structure EncryptsAs (c c' : Context) : Prop where
  inPlace : ∀ running data p, (c.encryptInPlace running data p : Run CipherError Encryption).Agrees
    (c'.encryptInPlace running data p)
  whole : ∀ input output p, (c.encrypt input output p : Run CipherError Encryption).Agrees
    (c'.encrypt input output p)
  region : ∀ input inOffset length output outOffset p,
    (c.encryptRegion input inOffset length output outOffset p : Run CipherError Encryption).Agrees
      (c'.encryptRegion input inOffset length output outOffset p)

theorem agrees_encryptInPlace (hkey : c.key = c'.key) (running : Option Reference) (data : Bytes)
    (p : Process) : (c.encryptInPlace running data p : Run ε Encryption).Agrees
      (c'.encryptInPlace running data p) := by
  rw [encryptInPlace_run, encryptInPlace_run, hkey]
  exact ⟨rfl, rfl, rfl⟩

theorem agrees_encrypt (hkey : c.key = c'.key) (input output : Bytes) (p : Process) :
    (c.encrypt input output p : Run ε Encryption).Agrees (c'.encrypt input output p) := by
  rw [encrypt, encrypt]
  split
  · exact .refl _
  · cases checkAligned input.length with
    | error e => exact .refl _
    | ok => exact (agrees_encryptInPlace hkey none input p).andThen _

theorem agrees_encryptRegion (hkey : c.key = c'.key) (input : Bytes) (inOffset length : Nat)
    (output : Bytes) (outOffset : Nat) (p : Process) :
    (c.encryptRegion input inOffset length output outOffset p : Run ε Encryption).Agrees
      (c'.encryptRegion input inOffset length output outOffset p) := by
  rw [encryptRegion, encryptRegion]
  cases (Region.mk inOffset length).slice input with
  | error e => exact .refl _
  | ok source =>
    simp only [Encryption.afterCheck]
    cases (Region.mk outOffset length).slice output with
    | error e => exact .refl _
    | ok old => exact (agrees_encrypt hkey source old p).andThen _

theorem EncryptsAs.of_key_eq (hkey : c.key = c'.key) : c.EncryptsAs c' where
  inPlace := agrees_encryptInPlace hkey
  whole := agrees_encrypt hkey
  region := agrees_encryptRegion hkey

end Context

end Indistinguishable

variable [LinkedCipher]

namespace Context

/-- The context shows the engine and the length of the key, and whenever a provider on the engine
imports the key, what it makes of it encrypts the same. -/
structure OpenedOn (c : Context) (engine : Engine) (key : Bytes) : Prop where
  providerName : c.providerName = engine.name
  keySize : c.keySize.length = key.length
  encrypts : ∀ p, ∃ c', (ofProvider (.builtIn engine) key p).outcome = .ok c' ∧ c.EncryptsAs c'

variable {engine : Engine} {key : Bytes} {k : Key}

theorem openedOn_of_ofBytes (hk : Key.ofBytes key = .ok k) (owner : Instance)
    (hname : owner.name = engine.name) : OpenedOn ⟨owner, engine.importedKey k⟩ engine key where
  providerName := hname
  keySize := (congrArg _ (engine.importedKey_size k)).trans (Key.size_length_of_ofBytes hk)
  encrypts p := ⟨_, ofProvider_builtIn_outcome engine hk p, .of_key_eq rfl⟩

theorem ofProvider_builtIn_diagnostics (engine : Engine) (hk : Key.ofBytes key = .ok k)
    (p : Process) :
    (ofProvider (.builtIn engine) key p).trace.diagnostics =
      [.contextOpened engine.name (engine.importedKey k).size] := by
  have hsize := Key.ofLength_of_ofBytes hk
  simp only [ofProvider_run, Provider.reactionTo, hsize, Provider.importKey_builtIn_of_ok engine hk,
    asking]
  rfl

end Context

/-- The ways to open a context on an engine with a region of a key, in a given state. -/
inductive Engine.Opens (engine : Engine) (key : Bytes) (offset length : Nat) (p : Process) :
    Action CipherError Context → Prop
  | ofConfig : Opens engine key offset length p (Context.ofConfig ⟨engine⟩ key offset length)
  | request (hoverride : p.override? = none) (hdefault : p.defaultEngine = engine) :
    Opens engine key offset length p (Factory.request key offset length)
  | create (hengine : engine = .software) :
    Opens engine key offset length p (Context.create key offset length)
  | ofKey (hengine : engine = .software) (hoffset : offset = 0) (hlength : length = key.length) :
    Opens engine key offset length p (Context.ofKey key)

theorem Context.ofConfig_of_invalid {length : Nat}
    (hlength : ¬ (length = 16 ∨ length = 24 ∨ length = 32)) (config : Configuration) (key : Bytes)
    (offset : Nat) (p : Process) :
    ofConfig config key offset length p = ⟨.error (.invalidKeyLength length), [], p⟩ := by
  simp only [ofConfig, Action.bind_run, Run.ofExcept_andThen, KeySize.ofLength_eq_error hlength]

theorem Context.ofConfig_of_outside {key : Bytes} {offset length : Nat}
    (hlength : length = 16 ∨ length = 24 ∨ length = 32)
    (hfits : ¬ (Region.mk offset length).Fits key.length) (config : Configuration) (p : Process) :
    ofConfig config key offset length p =
      ⟨.error (.outOfBounds offset length key.length), [], p⟩ := by
  obtain ⟨s, hs⟩ := KeySize.exists_ofLength hlength
  simp only [ofConfig, Action.bind_run, Run.ofExcept_andThen, hs, Region.slice_eq_error hfits]

/-- Without an override a request is left to the default engine, even if it is refused. -/
theorem Factory.request_eq_ofConfig {p : Process} (hnone : p.override? = none) (key : Bytes)
    (offset length : Nat) :
    request key offset length p = Context.ofConfig ⟨p.defaultEngine⟩ key offset length p := by
  simp only [request, requestBy, Action.bind_run, Run.ofExcept_andThen]
  cases hsize : KeySize.ofLength length with
  | error e => simp only [Context.ofConfig, Action.bind_run, Run.ofExcept_andThen, hsize]
  | ok s =>
    simp only [Action.state_run, Run.andThen_ok, Run.after_nil, hnone, askOverride,
      Action.bind_run, Action.pure_run]

namespace Engine

variable {engine : Engine} {key : Bytes} {offset length : Nat} {p : Process}
  {x : Action CipherError Context}

theorem Opens.run_eq (h : engine.Opens key offset length p x) :
    x p = Context.ofConfig ⟨engine⟩ key offset length p := by
  cases h with
  | ofConfig => rfl
  | request hoverride hdefault =>
    rw [Factory.request_eq_ofConfig hoverride, hdefault]
  | create hengine =>
    subst hengine
    rfl
  | ofKey hengine hoffset hlength =>
    subst hengine hoffset hlength
    rfl

theorem Opens.opened (h : engine.Opens key offset length p x)
    (hlength : length = 16 ∨ length = 24 ∨ length = 32)
    (hfits : (Region.mk offset length).Fits key.length) :
    ∃ c, (x p).outcome = .ok c ∧ c.keySize.length = length ∧
      (x p).trace.diagnostics = [.contextOpened engine.name c.keySize] ∧
      c.OpenedOn engine ((Region.mk offset length).extract key) := by
  obtain ⟨s, hs⟩ := KeySize.exists_ofLength hlength
  have hslice := Region.slice_eq_ok_iff.2 ⟨hfits, rfl⟩
  obtain ⟨k, hk⟩ := Key.exists_ofBytes_of_slice hs hslice
  rw [h.run_eq, Factory.ofConfig_of_slice (r := ⟨offset, length⟩) hs hslice]
  have hopened := Context.openedOn_of_ofBytes hk (p.nextInstance (.builtIn engine)) rfl
  exact ⟨_, Context.ofProvider_builtIn_outcome engine hk p,
    hopened.keySize.trans (Region.length_extract hfits),
    Context.ofProvider_builtIn_diagnostics engine hk p, hopened⟩

theorem Opens.accepts_iff (h : engine.Opens key offset length p x)
    (hfits : (Region.mk offset length).Fits key.length) :
    (∃ c, (x p).outcome = .ok c) ↔ length = 16 ∨ length = 24 ∨ length = 32 := by
  constructor
  · rintro ⟨c, hc⟩
    by_contra hlength
    rw [h.run_eq, Context.ofConfig_of_invalid hlength] at hc
    cases hc
  · intro hlength
    obtain ⟨c, hc, -⟩ := h.opened hlength hfits
    exact ⟨c, hc⟩

end Engine

namespace Boundary

variable {ε : Type} {p : Process} {name : String} {offset length : Int32}

theorem create_of_invalid (name : String) (offset : Int32) (hoverride : p.override? = none)
    (hlength : ¬ (length = 16 ∨ length = 24 ∨ length = 32)) :
    ∃ run : Run ε Handle, create (some name) offset length p = some run ∧
      run.outcome = .ok .null ∧ run.process = p := by
  have hnone : ¬ ∃ name', some name = some name' ∧ 0 ≤ offset ∧
      (length = 16 ∨ length = 24 ∨ length = 32) := fun ⟨_, _, _, hvalid⟩ ↦ hlength hvalid
  obtain ⟨e, he⟩ := keyArgument_error (m := p.memory) hnone
  rw [create_run _ _ _ _ hoverride, he]
  exact ⟨_, rfl, rfl, rfl⟩

theorem create_opened (hoverride : p.override? = none) (hroom : p.handles.size < 2 ^ 64 - 1)
    (hoffset : 0 ≤ offset) (hlength : length = 16 ∨ length = 24 ∨ length = 32)
    (hkey : Pointer.Holds (some name) p.memory offset length) :
    ∃ (run : Run ε Handle) (h : Handle) (c : Context),
      create (some name) offset length p = some run ∧
      run.outcome = .ok h ∧ h ≠ .null ∧ run.process.handles.get? h = some c ∧
      run.trace.diagnostics = [.contextOpened p.defaultEngine.name c.keySize, .handleIssued h] ∧
      c.OpenedOn p.defaultEngine ((p.memory name).sub offset length) := by
  obtain ⟨k, harg, -⟩ := keyArgument_of_holds hkey hoffset hlength
  obtain ⟨-, -, -, -, -, -, hk⟩ := keyArgument_eq_ok_iff.1 harg
  obtain ⟨h, u, hins⟩ := Registry.exists_insert? (p.opened k) hroom
  have hfree := Registry.isFree_of_fresh? (Registry.insert?_eq_some_iff.1 hins).1
  have hrun := create_run (ε := ε) (some name) offset length p hoverride
  have hsize : (p.opened k).keySize = k.size := p.defaultEngine.importedKey_size k
  rw [harg] at hrun
  simp only [hins, Option.map_some] at hrun
  refine ⟨_, h, p.opened k, hrun, rfl, hfree.1, ?_, ?_, Context.openedOn_of_ofBytes hk _ rfl⟩
  · simpa using Registry.get?_of_insert? (k := h) hins
  · rw [hsize]
    rfl

end Boundary

/-- All ways to open a context on an engine refuse the same keys for the same reasons, before
anything happens, and open contexts that encrypt the same.  A handle for a new context is returned
just when they accept the key, and is bound to such a context. -/
theorem Engine.constructors_agree (engine : Engine) (p : Process) :
    (∀ key offset length x, engine.Opens key offset length p x →
      let r := Region.mk offset length
      (¬ (length = 16 ∨ length = 24 ∨ length = 32) →
        x p = ⟨.error (.invalidKeyLength length), [], p⟩) ∧
      (length = 16 ∨ length = 24 ∨ length = 32 → ¬ r.Fits key.length →
        x p = ⟨.error (.outOfBounds offset length key.length), [], p⟩) ∧
      (length = 16 ∨ length = 24 ∨ length = 32 → r.Fits key.length →
        ∃ c, (x p).outcome = .ok c ∧ c.keySize.length = length ∧
          (x p).trace.diagnostics = [.contextOpened engine.name c.keySize] ∧
          c.OpenedOn engine (r.extract key))) ∧
    (∀ (name : String) (offset length : Int32), 0 ≤ offset → 0 ≤ length →
      Pointer.Holds (some name) p.memory offset length → p.override? = none →
      p.defaultEngine = engine → p.handles.size < 2 ^ 64 - 1 →
      ∃ (run : Run CipherError Handle) (h : Handle),
        Boundary.create (some name) offset length p = some run ∧ run.outcome = .ok h ∧
        (∀ x, engine.Opens (p.memory name) offset.toInt.toNat length.toInt.toNat p x →
          (h ≠ .null ↔ ∃ c, (x p).outcome = .ok c)) ∧
        (h = .null → run.process = p) ∧
        (h ≠ .null → ∃ c, run.process.handles.get? h = some c ∧
          run.trace.diagnostics = [.contextOpened engine.name c.keySize, .handleIssued h] ∧
          c.OpenedOn engine ((p.memory name).sub offset length))) := by
  refine ⟨fun key offset length x hx ↦ ⟨fun hlength ↦ ?_, fun hlength hfits ↦ ?_, hx.opened⟩, ?_⟩
  · rw [hx.run_eq, Context.ofConfig_of_invalid hlength]
  · rw [hx.run_eq, Context.ofConfig_of_outside hlength hfits]
  · rintro name offset length hoffset hnonneg hkey hoverride rfl hroom
    obtain ⟨r, hr, hfits, -⟩ := hkey.exists_region hoffset hnonneg
    obtain ⟨-, -, rfl⟩ := Region.ofSigned_eq_ok_iff.1 hr
    have haccepts : ∀ x, p.defaultEngine.Opens (p.memory name) offset.toInt.toNat
        length.toInt.toNat p x →
          ((∃ c, (x p).outcome = .ok c) ↔ length = 16 ∨ length = 24 ∨ length = 32) := by
      intro x hx
      rw [hx.accepts_iff hfits, ← KeySize.exists_length_eq_iff, KeySize.exists_length_iff hnonneg]
    by_cases hlength : length = 16 ∨ length = 24 ∨ length = 32
    · obtain ⟨run, h, c, hrun, houtcome, hnull, hbound⟩ :=
        Boundary.create_opened (ε := CipherError) hoverride hroom hoffset hlength hkey
      exact ⟨run, h, hrun, houtcome, fun x hx ↦ iff_of_true hnull ((haccepts x hx).2 hlength),
        fun h ↦ absurd h hnull, fun _ ↦ ⟨c, hbound⟩⟩
    · obtain ⟨run, hrun, houtcome, hprocess⟩ :=
        Boundary.create_of_invalid (ε := CipherError) name offset hoverride hlength
      exact ⟨run, .null, hrun, houtcome,
        fun x hx ↦ iff_of_false (fun h ↦ h rfl) (mt (haccepts x hx).1 hlength),
        fun _ ↦ hprocess, fun h ↦ absurd rfl h⟩

/-- A region that ends beyond the address space, and one that a context is opened with both
directly and behind a handle. -/
theorem Engine.constructors_agree_software :
    let key : Bytes := List.replicate 40 0x41
    let p : Process := { memory := fun _ ↦ key }
    Context.create key (2 ^ 64 - 8) 16 p =
        ⟨.error (.outOfBounds (2 ^ 64 - 8) 16 40), [], p⟩ ∧
      (∃ c, (Factory.request key 4 24 p).outcome = .ok c ∧
        c.OpenedOn .software (List.replicate 24 0x41)) ∧
      Pointer.Holds (some "key") p.memory 4 24 ∧
      ∃ (run : Run CipherError Handle) (h : Handle) (c : Context),
        Boundary.create (some "key") 4 24 p = some run ∧ run.outcome = .ok h ∧ h ≠ .null ∧
        run.process.handles.get? h = some c ∧ c.OpenedOn .software (List.replicate 24 0x41) := by
  intro key p
  obtain ⟨hopens, hcreate⟩ := Engine.constructors_agree .software p
  obtain ⟨-, houtside, -⟩ := hopens key (2 ^ 64 - 8) 16 _ (.create rfl)
  obtain ⟨-, -, hopened⟩ := hopens key 4 24 _ (.request rfl rfl)
  have hkey : Pointer.Holds (some "key") p.memory 4 24 := by decide
  obtain ⟨c, hc, -, -, hbytes⟩ := hopened (.inr (.inl rfl)) (by decide)
  obtain ⟨run, h, hrun, hh, haccepted, -, hbound⟩ :=
    hcreate "key" 4 24 (by decide) (by decide) hkey rfl rfl (by decide)
  have hnull : h ≠ .null := (haccepted _ (.request rfl rfl)).2 ⟨c, hc⟩
  obtain ⟨c', hget, -, hsame⟩ := hbound hnull
  exact ⟨houtside (.inl rfl) (by decide), ⟨c, hc, hbytes⟩, hkey, run, h, c', hrun, hh, hnull, hget,
    hsame⟩

end AesEcb
