import AesEcb.Proofs.Calls
import AesEcb.Proofs.Engines
import AesEcb.Proofs.Regions

/-!
# Encrypting through a handle, step by step

An encryption reads its arguments, has the key transform the bytes, and then delivers what the
key left.  Only the delivery touches the memory.
-/

namespace AesEcb

/-- What the run of an encryption has come to, as the doing of a key. -/
def Run.answer (r : Run Empty Encryption) : Transformation :=
  match r.outcome with
  | .ok e => { left := e.buffer, outcome := e.result }
  | .panicked => { left := [], outcome := .panicked }

namespace Boundary

variable {ε : Type} {m : Memory} {what : Pointed} {pointer : Pointer} {r : Region} {data : Bytes}

/-- The bytes of a region behind a pointer. -/
def read (what : Pointed) (pointer : Pointer) (r : Region) (m : Memory) :
    Except BoundaryError Bytes :=
  match view what pointer r m with
  | .error e => .error e
  | .ok bytes => (r.slice bytes).mapError .cipher

/-- What the arguments of an encryption name: the region to write, and the bytes to encrypt. -/
def arguments (m : Memory) (input : Pointer) (inOffset length outOffset : Int32) :
    Except BoundaryError (Region × Bytes) :=
  match Region.ofSigned inOffset length, Region.ofSigned outOffset length with
  | .error e, _ => .error (.cipher e)
  | .ok _, .error e => .error (.cipher e)
  | .ok source, .ok target => (read .input input source m).map fun data ↦ (target, data)

/-- How an encryption ends once the key is done, and what the memory holds then. -/
def deliver (m : Memory) (output : Pointer) (target : Region) (t : Transformation) :
    Outcome BoundaryError Int32 × Memory :=
  match t.outcome with
  | .panicked => (.panicked, m)
  | .error e => (.error (.cipher e), m)
  | .ok count =>
    match output with
    | none => (.error (.nullPointer .output), m)
    | some name =>
      match target.check ((m name).take (target.offset + target.length)).length with
      | .error e => (.error (.cipher e), m)
      | .ok () => (.ofExcept (signedCount count), m.write name (target.replace (m name) t.left))

/-- The part of an encryption that follows once its arguments are read. -/
def encryptRead (transform : Bytes → Action Empty Encryption) (output : Pointer)
    (target : Region) (data : Bytes) : Action BoundaryError Int32 := do
  let e ← .ofInfallible (transform data)
  let count ← (Action.finish e.result).mapError .cipher
  store .output output target e.buffer
  Action.ofExcept (signedCount count)

theorem load_run (what : Pointed) (pointer : Pointer) (r : Region) (p : Process) :
    load what pointer r p = Action.ofExcept (read what pointer r p.memory) p := by
  simp only [load, read, Action.bind_run, Action.state_run, Run.andThen_ok, Run.after_nil,
    Run.ofExcept_andThen]
  cases view what pointer r p.memory with
  | error e => rfl
  | ok bytes => rfl

theorem view_some (hspan : span r = .ok (r.offset + r.length)) (what : Pointed) (name : String)
    (m : Memory) : view what (some name) r m = .ok ((m name).take (r.offset + r.length)) := by
  rw [view, hspan]
  rfl

theorem store_run (hspan : span r = .ok (r.offset + r.length)) (what : Pointed) (pointer : Pointer)
    (data : Bytes) (p : Process) :
    store what pointer r data p =
      match pointer with
      | none => ⟨.error (.nullPointer what), [], p⟩
      | some name =>
        match r.check ((p.memory name).take (r.offset + r.length)).length with
        | .error e => ⟨.error (.cipher e), [], p⟩
        | .ok () =>
          ⟨.ok (), [],
            { p with memory := p.memory.write name (r.replace (p.memory name) data) }⟩ := by
  cases pointer with
  | none => rfl
  | some name =>
    simp only [store, view_some hspan, Action.bind_run, Action.state_run, Run.andThen_ok,
      Run.after_nil, Run.ofExcept_andThen]
    cases r.check ((p.memory name).take (r.offset + r.length)).length with
    | error e => rfl
    | ok => rfl

theorem encryptWith_eq (transform : Bytes → Action Empty Encryption) (input : Pointer)
    (inOffset length : Int32) (output : Pointer) (outOffset : Int32) (p : Process) :
    encryptWith transform input inOffset length output outOffset p =
      match arguments p.memory input inOffset length outOffset with
      | .error e => ⟨.error e, [], p⟩
      | .ok (target, data) => encryptRead transform output target data p := by
  simp only [encryptWith, arguments, region, Action.bind_run, Run.ofExcept_andThen]
  cases Region.ofSigned inOffset length with
  | error e => rfl
  | ok source =>
    cases Region.ofSigned outOffset length with
    | error e => rfl
    | ok target =>
      simp only [Except.mapError, load_run, Run.ofExcept_andThen]
      cases read .input input source p.memory with
      | error e => rfl
      | ok data => rfl

theorem span_of_arguments {input : Pointer} {inOffset length outOffset : Int32} {target : Region}
    (hargs : arguments m input inOffset length outOffset = .ok (target, data)) :
    span target = .ok (target.offset + target.length) := by
  rw [arguments] at hargs
  cases hin : Region.ofSigned inOffset length with
  | error e => simp [hin] at hargs
  | ok source =>
    cases hout : Region.ofSigned outOffset length with
    | error e => simp [hin, hout] at hargs
    | ok target' =>
      cases hread : read .input input source m with
      | error e => simp [hin, hout, hread, Except.map] at hargs
      | ok bytes =>
        simp only [hin, hout, hread, Except.map, Except.ok.injEq, Prod.mk.injEq] at hargs
        obtain ⟨rfl, rfl⟩ := hargs
        exact span_of_ofSigned hout

/-- What the key has left is delivered to the memory as it is by then. -/
theorem encryptRead_run {transform : Bytes → Action Empty Encryption} {target : Region}
    (hspan : span target = .ok (target.offset + target.length)) (output : Pointer) (data : Bytes)
    (p : Process) :
    encryptRead transform output target data p =
      let r := transform data p
      let d := deliver r.process.memory output target r.answer
      ⟨d.1, r.trace, { r.process with memory := d.2 }⟩ := by
  simp only [encryptRead, Action.bind_run, Action.ofInfallible_run]
  generalize transform data p = r
  obtain ⟨⟨buffer, result⟩ | e | -, t, q⟩ := r
  · simp only [Run.andThen_ok, Action.bind_run, Action.mapError, Action.finish_run,
      Run.mapOutcome, deliver, Run.answer]
    cases result with
    | panicked => simp [Outcome.mapError, Run.after]
    | error e => simp [Outcome.mapError, Run.after]
    | ok count =>
      simp only [Outcome.mapError, Run.andThen_ok, Run.after, store_run hspan, Action.bind_run]
      cases output with
      | none => simp
      | some name =>
        dsimp only
        cases target.check ((q.memory name).take (target.offset + target.length)).length with
        | error e => simp
        | ok => simp [Action.ofExcept]
  · exact e.elim
  · rfl

/-- Neither the calls that a key makes nor what it leaves depend on what is in the memory. -/
theorem encryptWith_run (c : Context) (running : Option Reference) (input : Pointer)
    (inOffset length : Int32) (output : Pointer) (outOffset : Int32) (p : Process) :
    encryptWith (c.encryptInPlace running) input inOffset length output outOffset p =
      match arguments p.memory input inOffset length outOffset with
      | .error e => ⟨.error e, [], p⟩
      | .ok (target, data) =>
        let placed := (c.encryptInPlace running data : Action Empty Encryption) p
        let d := deliver p.memory output target (c.key.transform data)
        ⟨d.1, placed.trace, { placed.process with memory := d.2 }⟩ := by
  rw [encryptWith_eq]
  cases hargs : arguments p.memory input inOffset length outOffset with
  | error e => rfl
  | ok named =>
    obtain ⟨target, data⟩ := named
    have hmemory := (runCallbacks_ok (ε := Empty) running
      (c.key.transform data).callbacks p).2
    dsimp only
    rw [encryptRead_run (span_of_arguments hargs)]
    simp only [c.encryptInPlace_run (ε := Empty) running data p, hmemory]
    rfl

theorem read_eq_ok_iff (hspan : span r = .ok (r.offset + r.length)) :
    read what pointer r m = .ok data ↔
      ∃ name, pointer = some name ∧ r.Fits (m name).length ∧ r.extract (m name) = data := by
  cases pointer with
  | none => simp [read, view]
  | some name =>
    have hslice : (r.slice ((m name).take (r.offset + r.length))).mapError BoundaryError.cipher =
        .ok data ↔ r.Fits (m name).length ∧ r.extract (m name) = data := by
      rw [← Region.fits_take_iff, ← Region.extract_take, ← Region.slice_eq_ok_iff]
      cases r.slice ((m name).take (r.offset + r.length)) with
      | error e => simp [Except.mapError]
      | ok bytes => simp [Except.mapError]
    simp [read, view_some hspan, hslice]

theorem arguments_eq_ok_iff {input : Pointer} {inOffset length outOffset : Int32}
    {target : Region} :
    arguments m input inOffset length outOffset = .ok (target, data) ↔
      ∃ source name, Region.ofSigned inOffset length = .ok source ∧
        Region.ofSigned outOffset length = .ok target ∧ input = some name ∧
        source.Fits (m name).length ∧ source.extract (m name) = data := by
  rw [arguments]
  cases hin : Region.ofSigned inOffset length with
  | error e => simp
  | ok source =>
    cases hout : Region.ofSigned outOffset length with
    | error e => simp
    | ok target' =>
      have hmap : (read .input input source m).map (fun data ↦ (target', data)) =
          .ok (target, data) ↔ target' = target ∧ read .input input source m = .ok data := by
        cases read .input input source m with
        | error e => simp [Except.map]
        | ok bytes => simp [Except.map]
      simp only [hmap, read_eq_ok_iff (span_of_ofSigned hin), Except.ok.injEq]
      constructor
      · rintro ⟨rfl, name, hname, hfits, hdata⟩
        exact ⟨source, name, rfl, rfl, hname, hfits, hdata⟩
      · rintro ⟨_, name, rfl, htarget, hname, hfits, hdata⟩
        exact ⟨htarget, name, hname, hfits, hdata⟩

theorem deliver_ofBlockCipher {m : Memory} {name : String} {target : Region} {data : Bytes}
    {size : KeySize} {f : Block → Block} (haligned : checkAligned data.length = .ok ())
    (hfits : target.Fits (m name).length) :
    deliver m (some name) target ((ImportedKey.ofBlockCipher size f).transform data) =
      (.ofExcept (signedCount data.length),
        m.write name (target.replace (m name) (ecb f data))) := by
  have hcheck : target.check ((m name).take (target.offset + target.length)).length = .ok () :=
    if_pos (Region.fits_take_iff.2 hfits)
  rw [ImportedKey.transform_ofBlockCipher haligned]
  simp only [deliver, hcheck]

/-- How an encryption through a handle ends inside, and what the memory holds then. -/
def encryption (p : Process) (h : Handle) (input : Pointer) (inOffset length : Int32)
    (output : Pointer) (outOffset : Int32) : Outcome BoundaryError Int32 × Memory :=
  match p.handles.get? h with
  | none => (.error .invalidHandle, p.memory)
  | some c =>
    match arguments p.memory input inOffset length outOffset with
    | .error e => (.error e, p.memory)
    | .ok (target, data) => deliver p.memory output target (c.key.transform data)

variable (h : Handle) (input : Pointer) (inOffset length : Int32) (output : Pointer)
  (outOffset : Int32) (p : Process)

theorem encryptBy_run
    (transform : Reference → Context → Bytes → Action Empty Encryption) :
    (encryptBy transform h input inOffset length output outOffset : Action ε Int32) p =
      match p.handles.get? h with
      | none => ⟨.ok 0, [.diagnostic (.callFailed .encrypt .invalidHandle)], p⟩
      | some c =>
        let r := encryptWith (transform ⟨h, c.owner⟩ c) input inOffset length output outOffset p
        ⟨.ok (r.outcome.getD 0),
          r.trace ++ r.process.dropped none h c ++ warning .encrypt r.outcome, r.process⟩ := by
  rw [encryptBy, contain_run, Action.bind_run, Action.state_run, Run.andThen_ok, Run.after_nil]
  cases p.handles.get? h with
  | none => rfl
  | some c => rfl

theorem encrypt_run :
    (encrypt h input inOffset length output outOffset : Action ε Int32) p =
      match p.handles.get? h with
      | none => ⟨.ok 0, [.diagnostic (.callFailed .encrypt .invalidHandle)], p⟩
      | some c =>
        let r := encryptWith (c.encryptInPlace (some ⟨h, c.owner⟩)) input inOffset length output
          outOffset p
        ⟨.ok (r.outcome.getD 0),
          r.trace ++ r.process.dropped none h c ++ warning .encrypt r.outcome, r.process⟩ :=
  encryptBy_run _ _ _ _ _ _ _ _

variable {p h input inOffset length outOffset} in
/-- With arguments that name something, the key is asked, and then what it left is delivered. -/
theorem encrypt_run_of_arguments {c : Context} {target : Region} (hc : p.handles.get? h = some c)
    (hargs : arguments p.memory input inOffset length outOffset = .ok (target, data)) :
    (encrypt h input inOffset length output outOffset : Action ε Int32) p =
      let placed := (c.encryptInPlace (some ⟨h, c.owner⟩) data : Action Empty Encryption) p
      let d := deliver p.memory output target (c.key.transform data)
      ⟨.ok (d.1.getD 0),
        placed.trace ++ placed.process.dropped none h c ++ warning .encrypt d.1,
        { placed.process with memory := d.2 }⟩ := by
  simp only [encrypt_run, hc, encryptWith_run, hargs]
  rfl

theorem encrypt_outcome_memory :
    let r := (encrypt h input inOffset length output outOffset : Action ε Int32) p
    let e := encryption p h input inOffset length output outOffset
    r.outcome = .ok (e.1.getD 0) ∧ r.process.memory = e.2 := by
  rw [encrypt_run, encryption]
  cases p.handles.get? h with
  | none => exact ⟨rfl, rfl⟩
  | some c =>
    simp only [encryptWith_run]
    cases arguments p.memory input inOffset length outOffset with
    | error e => exact ⟨rfl, rfl⟩
    | ok named => exact ⟨rfl, rfl⟩

/-- A key that makes no calls changes nothing in the process but the memory. -/
theorem encrypt_process_of_quiet
    (hquiet : ∀ c, p.handles.get? h = some c → ∀ data, (c.key.transform data).callbacks = []) :
    ((encrypt h input inOffset length output outOffset : Action ε Int32) p).process =
      { p with memory := (encryption p h input inOffset length output outOffset).2 } := by
  rw [encrypt_run, encryption]
  cases hget : p.handles.get? h with
  | none => rfl
  | some c =>
    simp only [encryptWith_run]
    cases arguments p.memory input inOffset length outOffset with
    | error e => rfl
    | ok named =>
      simp only [Context.encryptInPlace_run, hquiet c hget named.2]
      rfl

end Boundary

end AesEcb
