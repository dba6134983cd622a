import AesEcb.Boundary.Create
import AesEcb.Proofs.Encryption

/-!
# Creating a context behind a handle, step by step

Without an override a context is created on the default engine, from a copy of the key region,
just when the arguments name a key.
-/

namespace AesEcb

namespace Key

theorem size_length_of_ofBytes {data : Bytes} {k : Key} (h : ofBytes data = .ok k) :
    k.size.length = data.length :=
  KeySize.ofLength_eq_ok_iff.1 (ofLength_of_ofBytes h)

theorem exists_ofBytes {data : Bytes} {s : KeySize} (h : s.length = data.length) :
    ∃ k, ofBytes data = .ok k := by
  rw [ofBytes, KeySize.ofLength?_eq_some_iff.2 h]
  exact ⟨_, rfl⟩

theorem exists_ofBytes_of_length {data : Bytes}
    (h : data.length = 16 ∨ data.length = 24 ∨ data.length = 32) : ∃ k, ofBytes data = .ok k := by
  obtain ⟨s, hs⟩ := KeySize.exists_length_eq_iff.2 h
  exact exists_ofBytes hs

theorem ofBytes_eq_error {data : Bytes}
    (h : ¬ (data.length = 16 ∨ data.length = 24 ∨ data.length = 32)) :
    ofBytes data = .error (.invalidKeyLength data.length) := by
  cases hsize : KeySize.ofLength? data.length with
  | none => rw [ofBytes, hsize]
  | some s =>
    exact absurd (KeySize.exists_length_eq_iff.1 ⟨s, KeySize.ofLength?_eq_some_iff.1 hsize⟩) h

theorem exists_ofBytes_of_slice {r : Region} {bytes data : Bytes} {s : KeySize}
    (hsize : KeySize.ofLength r.length = .ok s) (hslice : r.slice bytes = .ok data) :
    ∃ k, ofBytes data = .ok k := by
  obtain ⟨hfits, rfl⟩ := Region.slice_eq_ok_iff.1 hslice
  apply exists_ofBytes
  rw [Region.length_extract hfits]
  exact KeySize.ofLength_eq_ok_iff.1 hsize

end Key

namespace Boundary

/-- What the arguments of a creation name: the key, as bytes and as a key. -/
def keyArgument (m : Memory) (key : Pointer) (offset length : Int32) :
    Except BoundaryError (Bytes × Key) :=
  match Region.ofSigned offset length with
  | .error e => .error (.cipher e)
  | .ok r =>
    match KeySize.ofLength r.length with
    | .error e => .error (.cipher e)
    | .ok _ =>
      match read .key key r m with
      | .error e => .error e
      | .ok data => ((Key.ofBytes data).mapError .cipher).map fun k ↦ (data, k)

theorem keyArgument_eq_ok_iff {m : Memory} {key : Pointer} {offset length : Int32} {data : Bytes}
    {k : Key} :
    keyArgument m key offset length = .ok (data, k) ↔
      ∃ r name, Region.ofSigned offset length = .ok r ∧ key = some name ∧
        r.Fits (m name).length ∧ r.extract (m name) = data ∧ Key.ofBytes data = .ok k := by
  rw [keyArgument]
  cases hr : Region.ofSigned offset length with
  | error e => simp
  | ok r =>
    constructor
    · intro hok
      cases hsize : KeySize.ofLength r.length with
      | error e => simp [hsize] at hok
      | ok s =>
        cases hread : read .key key r m with
        | error e => simp [hsize, hread] at hok
        | ok bytes =>
          cases hkey : Key.ofBytes bytes with
          | error e => simp [hsize, hread, hkey, Except.mapError, Except.map] at hok
          | ok k' =>
            simp only [hsize, hread, hkey, Except.mapError, Except.map, Except.ok.injEq,
              Prod.mk.injEq] at hok
            obtain ⟨rfl, rfl⟩ := hok
            obtain ⟨name, hname, hfits, hdata⟩ := (read_eq_ok_iff (span_of_ofSigned hr)).1 hread
            exact ⟨r, name, rfl, hname, hfits, hdata, hkey⟩
    · rintro ⟨r', name, hr', hname, hfits, hdata, hkey⟩
      obtain rfl := Except.ok.inj hr'
      have hread : read .key key r m = .ok data :=
        (read_eq_ok_iff (span_of_ofSigned hr)).2 ⟨name, hname, hfits, hdata⟩
      have hsize : KeySize.ofLength r.length = .ok k.size := by
        rw [KeySize.ofLength_eq_ok_iff, Key.size_length_of_ofBytes hkey, ← hdata,
          Region.length_extract hfits]
      simp [hsize, hread, hkey, Except.mapError, Except.map]

end Boundary

variable [LinkedCipher]

namespace Process

/-- The context that the default engine makes of a key. -/
def opened (p : Process) (k : Key) : Context where
  owner := ⟨p.nextSerial, p.defaultEngine.name, true⟩
  key := p.defaultEngine.importedKey k

/-- What happens while the default engine makes a context of a key. -/
def opening (p : Process) (data : Bytes) (k : Key) : Trace :=
  let owner := (p.opened k).owner
  [.crossing (.providerReceived owner), .crossing (.importAsked owner data),
    .crossing (.keyReceived owner), .diagnostic (.contextOpened owner.name k.size)]

end Process

theorem Context.ofProvider_builtIn_run {data : Bytes} {k : Key} (hk : Key.ofBytes data = .ok k)
    (p : Process) :
    ofProvider (.builtIn p.defaultEngine) data p =
      ⟨.ok (p.opened k), p.opening data k, { p with nextSerial := p.nextSerial + 1 }⟩ := by
  have himported : p.defaultEngine.importKey data = .ok (p.defaultEngine.importedKey k) := by
    rw [Engine.importKey_eq, hk]
    rfl
  simp [ofProvider, Provider.receive, importKey, Provider.importKey, himported,
    Key.ofLength_of_ofBytes hk, Action.ofExcept, Outcome.ofExcept, Action.cross, Action.diagnose,
    Action.atExit, Run.followedBy, Reaction.run, runCallbacks, Provider.name, Provider.isBuiltIn,
    Outcome.isOk, Process.opened, Process.opening]

namespace Factory

variable (ask : Override → Bytes → Action Empty (Option Context)) {key data : Bytes} {r : Region}
  {size : KeySize}

/-- The part of a request that follows once the key is read. -/
def requestRead (data : Bytes) : Action CipherError Context := do
  let before ← Action.state
  match before.override? with
  | none => Context.ofProvider (.builtIn before.defaultEngine) data
  | some o => do
    Action.cross (.overrideAsked data before.defaultEngine)
    match ← Action.ofInfallible (ask o data) with
    | some c => return c
    | none => do
      Action.diagnose .overrideDeclined
      Context.ofProvider (.builtIn before.defaultEngine) data

/-- How a request ends once an override has been asked.  Only if it declines is there anything that
follows, and that is `fallback`. -/
inductive Concludes (fallback : Action CipherError Context) (question : Event)
    (asked : Run Empty (Option Context)) : Run CipherError Context → Prop
  | offered {c : Context} (h : asked.outcome = .ok (some c)) :
    Concludes fallback question asked ⟨.ok c, question :: asked.trace, asked.process⟩
  | declined (h : asked.outcome = .ok none) :
    Concludes fallback question asked
      ((fallback asked.process).after (question :: asked.trace ++ [.diagnostic .overrideDeclined]))
  | panicked (h : asked.outcome = .panicked) :
    Concludes fallback question asked ⟨.panicked, question :: asked.trace, asked.process⟩

theorem requestRead_of_none {p : Process} (hnone : p.override? = none) :
    requestRead ask data p = Context.ofProvider (.builtIn p.defaultEngine) data p := by
  simp only [requestRead, Action.bind_run, Action.state_run, Run.andThen_ok, Run.after_nil, hnone]

/-- The state is read before the override is asked, so what it changes there comes too late. -/
theorem requestRead_concludes (data : Bytes) {p : Process} {o : Override}
    (ho : p.override? = some o) :
    Concludes (Context.ofProvider (.builtIn p.defaultEngine) data)
      (.crossing (.overrideAsked data p.defaultEngine)) (ask o data p)
      (requestRead ask data p) := by
  simp only [requestRead, Action.bind_run, Action.state_run, Run.andThen_ok, Run.after_nil, ho,
    Action.cross, Action.emit_run, Action.ofInfallible_run]
  cases hasked : (ask o data p).outcome with
  | ok c? =>
    cases c? with
    | some c =>
      convert Concludes.offered hasked using 1
      simp
    | none =>
      convert Concludes.declined hasked using 1
      simp [Action.diagnose, Run.after]
  | error e => exact e.elim
  | panicked =>
    convert Concludes.panicked hasked using 1
    simp

theorem ofConfig_of_slice (hsize : KeySize.ofLength r.length = .ok size)
    (hslice : r.slice key = .ok data) (config : Configuration) :
    Context.ofConfig config key r.offset r.length =
      Context.ofProvider (.builtIn config.engine) data := by
  funext p
  simp only [Context.ofConfig, Action.bind_run, Run.ofExcept_andThen, hsize, hslice]

theorem requestBy_of_slice (hsize : KeySize.ofLength r.length = .ok size)
    (hslice : r.slice key = .ok data) (p : Process) :
    requestBy ask key r.offset r.length p = requestRead ask data p := by
  have hdefault := ofConfig_of_slice hsize hslice ⟨p.defaultEngine⟩
  simp only [requestBy, requestRead, Action.bind_run, Run.ofExcept_andThen, hsize,
    Action.state_run, Run.andThen_ok]
  congr 1
  cases p.override? with
  | none =>
    simp only [askOverride, Action.pure_run, Run.andThen_ok, Run.after_nil, hdefault]
  | some o =>
    simp only [askOverride, Action.bind_run, Run.ofExcept_andThen, hslice, Action.state_run,
      Run.andThen_ok, Run.after_nil, Action.cross, Action.emit_run, Action.ofInfallible_run]
    rcases ask o data p with ⟨(_ | c) | e | -, t, q⟩
    · simp [Action.diagnose, hdefault, Run.after]
    · simp
    · exact e.elim
    · simp

theorem requestBy_of_slice_error {e : CipherError} (hsize : KeySize.ofLength r.length = .ok size)
    (hslice : r.slice key = .error e) (p : Process) :
    requestBy ask key r.offset r.length p = ⟨.error e, [], p⟩ := by
  simp only [requestBy, Action.bind_run, Run.ofExcept_andThen, hsize, Action.state_run,
    Run.andThen_ok, Run.after_nil]
  cases p.override? with
  | none =>
    simp only [askOverride, Action.pure_run, Run.andThen_ok, Run.after_nil, Context.ofConfig,
      Action.bind_run, Run.ofExcept_andThen, hsize, hslice]
  | some o =>
    simp only [askOverride, Action.bind_run, Run.ofExcept_andThen, hslice, Run.andThen_error]

end Factory

namespace Boundary

variable {ε : Type}

/-- A creation reads its key, and then makes its request. -/
theorem acquireBy_eq (ask : Override → Bytes → Action Empty (Option Context)) (key : Pointer)
    (offset length : Int32) (p : Process) :
    acquireBy ask key offset length p =
      match keyArgument p.memory key offset length with
      | .error e => ⟨.error e, [], p⟩
      | .ok (data, _) => (Factory.requestRead ask data).mapError .cipher p := by
  simp only [acquireBy, region, Action.bind_run, Run.ofExcept_andThen, keyArgument]
  cases Region.ofSigned offset length with
  | error e => rfl
  | ok r =>
    simp only [Except.mapError]
    cases hsize : KeySize.ofLength r.length with
    | error e => rfl
    | ok s =>
      simp only [Action.state_run, Run.andThen_ok, Run.after_nil, read]
      cases view .key key r p.memory with
      | error e => rfl
      | ok bytes =>
        simp only [Action.bind_run, Run.ofExcept_andThen, Action.mapError]
        cases hslice : r.slice bytes with
        | error e =>
          simp only [Factory.requestBy_of_slice_error ask hsize hslice, Except.mapError]
          rfl
        | ok data =>
          obtain ⟨k, hk⟩ := Key.exists_ofBytes_of_slice hsize hslice
          simp only [Factory.requestBy_of_slice ask hsize hslice, Except.mapError, hk, Except.map]

section

variable {ask : Override → Bytes → Action Empty (Option Context)} {key : Pointer}
  {offset length : Int32} {p : Process}

/-- A creation that ends has bound the context that it got, or else it has bound nothing. -/
theorem createBy_cases {r : Run ε Handle} (hr : createBy ask key offset length p = some r) :
    let acquired := acquireBy ask key offset length p
    (∃ c h u, acquired.outcome = .ok c ∧ acquired.process.handles.insert? c = some (h, u) ∧
      r = ⟨.ok h, acquired.trace ++ [.diagnostic (.handleIssued h)],
        { acquired.process with handles := u }⟩) ∨
    (acquired.outcome.isOk = false ∧
      r = ⟨.ok .null, acquired.trace ++ warning .create acquired.outcome, acquired.process⟩) := by
  intro acquired
  rw [createBy] at hr
  change (acquired.andThen? issue?).map _ = _ at hr
  cases hrun : acquired.outcome with
  | error e =>
    simp only [Run.andThen?, hrun, Option.map_some, contained_eq, Option.some.injEq] at hr
    exact .inr ⟨rfl, hr.symm⟩
  | panicked =>
    simp only [Run.andThen?, hrun, Option.map_some, contained_eq, Option.some.injEq] at hr
    exact .inr ⟨rfl, hr.symm⟩
  | ok c =>
    simp only [Run.andThen?, hrun, issue?, Option.map_map, Option.map_eq_some_iff] at hr
    obtain ⟨⟨h, u⟩, hins, rfl⟩ := hr
    refine .inl ⟨c, h, u, rfl, hins, ?_⟩
    simp [contained_eq, Run.after, Outcome.getD, warning]

/-- The only creation that does not end is one that got a context and finds no handle for it. -/
theorem createBy_eq_none_iff :
    (createBy ask key offset length p : Option (Run ε Handle)) = none ↔
      let acquired := acquireBy ask key offset length p
      ∃ c, acquired.outcome = .ok c ∧ acquired.process.handles.insert? c = none := by
  rw [createBy, Option.map_eq_none_iff]
  dsimp only
  generalize acquireBy ask key offset length p = acquired
  cases hrun : acquired.outcome with
  | error e => simp [Run.andThen?, hrun]
  | panicked => simp [Run.andThen?, hrun]
  | ok c => simp [Run.andThen?, hrun, issue?]

end

theorem create_run (key : Pointer) (offset length : Int32) (p : Process)
    (hp : p.override? = none) :
    (create key offset length p : Option (Run ε Handle)) =
      match keyArgument p.memory key offset length with
      | .error e => some ⟨.ok .null, [.diagnostic (.callFailed .create e)], p⟩
      | .ok (data, k) => (p.handles.insert? (p.opened k)).map fun (h, t) ↦
          ⟨.ok h, p.opening data k ++ [.diagnostic (.handleIssued h)],
            { p with nextSerial := p.nextSerial + 1, handles := t }⟩ := by
  rw [create, createBy, acquireBy_eq]
  cases hkey : keyArgument p.memory key offset length with
  | error e => rfl
  | ok named =>
    obtain ⟨data, k⟩ := named
    obtain ⟨-, -, -, -, -, -, hk⟩ := keyArgument_eq_ok_iff.1 hkey
    simp only [Action.mapError, Factory.requestRead, Action.bind_run, Action.state_run,
      Run.andThen_ok, Run.after_nil, hp, Context.ofProvider_builtIn_run hk, Run.mapOutcome,
      Outcome.mapError, Run.andThen?, issue?]
    cases p.handles.insert? (p.opened k) with
    | none => rfl
    | some issued => rfl

end Boundary

end AesEcb
