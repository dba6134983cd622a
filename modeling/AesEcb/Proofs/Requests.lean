import AesEcb.Proofs.Creation
import AesEcb.Proofs.Opening
import AesEcb.Proofs.Reentry

/-!
# Calls back during a request for a cipher

While a context is created, the override may call back into the library, and so may the providers
it opens.  The built-in engines never do.  Nothing but these calls changes what the process
keeps.
-/

namespace AesEcb

variable [LinkedCipher] {ε : Type} {p p' : Process}

/-- The event may be brought about by the opening of a context. -/
def Event.isOpening : Event → Bool
  | .crossing (.providerReceived _) | .crossing (.importAsked _ _) => true
  | .crossing (.keyReceived _) | .diagnostic (.contextOpened _ _) => true
  | e => e.isReentrant

omit [LinkedCipher] in
theorem Event.isOpening_of_isReentrant {e : Event} (h : e.isReentrant = true) :
    e.isOpening = true := by
  unfold isOpening
  split
  · rfl
  · rfl
  · rfl
  · rfl
  · exact h

namespace Deed

/-- The calls that are made back into the library while the deed is done. -/
def callsBack : Deed → List Callback
  | call c => [c]
  | opens provider key => (provider.reactionTo key).callbacks
  | drops _ => []

/-- The deed is to open a provider that panics. -/
def panics : Deed → Bool
  | opens provider key => (provider.reactionTo key).outcome.isPanicked
  | _ => false

end Deed

/-- The calls that the deeds make in a row, up to the first that panics. -/
def callsOf : List Deed → List Callback
  | [] => []
  | d :: ds => d.callsBack ++ if d.panics then [] else callsOf ds

def Answer.panics : Answer → Bool
  | panic => true
  | _ => false

/-- The calls that the override makes, and the providers that it opens, for a request. -/
def Override.callsBack (o : Override) (key : Bytes) (default : Engine) : List Callback :=
  callsOf (o.react key default).deeds

/-- The override panics on a request, or a provider does that it opens. -/
def Override.Panics (o : Override) (key : Bytes) (default : Engine) : Prop :=
  (o.react key default).deeds.any Deed.panics || (o.react key default).answer.panics

instance (o : Override) (key : Bytes) (default : Engine) : Decidable (o.Panics key default) :=
  inferInstanceAs (Decidable (_ = true))

/-- The calls that are made back into the library while a context for a key is requested. -/
def Process.callsOnRequest (p : Process) (data : Bytes) : List Callback :=
  p.override?.elim [] fun o ↦ o.callsBack data p.defaultEngine

/-- The calls that are made back into the library while a handle is created. -/
def Boundary.callsOnCreate (p : Process) (key : Pointer) (offset length : Int32) :
    List Callback :=
  match keyArgument p.memory key offset length with
  | .ok (data, _) => p.callsOnRequest data
  | .error _ => []

theorem Context.ofProvider_opening (provider : Provider) (key : Bytes) (p : Process) :
    ∀ e ∈ (ofProvider provider key p).trace, e.isOpening = true := by
  have hcalled := runCallbacks_reentrant (ε := CipherError) none
    (provider.reactionTo key).callbacks { p with nextSerial := p.nextSerial + 1 }
  have hasking : ∀ owner, ∀ e ∈ asking owner key, e.isOpening = true := by
    intro owner
    rw [asking]
    cases KeySize.ofLength key.length with
    | error e => exact List.forall_mem_nil _
    | ok size => simp [Event.isOpening]
  have hsettlement : ∀ owner o, ∀ e ∈ settlement owner o, e.isOpening = true := by
    intro owner o
    cases o with
    | ok k => simp [settlement, Event.isOpening]
    | error e => simp [settlement, Event.isOpening, Event.isReentrant]
    | panicked => simp [settlement, Event.isOpening, Event.isReentrant]
  rw [ofProvider_run]
  intro e he
  simp only [List.mem_append] at he
  rcases he with ((he | he) | he) | he
  · obtain rfl := List.mem_singleton.1 he
    rfl
  · exact hasking _ e he
  · exact Event.isOpening_of_isReentrant (hcalled e he)
  · exact hsettlement _ _ e he

theorem Context.ofProvider_called (provider : Provider) (key : Bytes) (p : Process) :
    p.Called (provider.reactionTo key).callbacks (ofProvider provider key p).process := by
  have hreceived : p.Called [] { p with nextSerial := p.nextSerial + 1 } := .of_eq rfl rfl rfl
  rw [ofProvider_run]
  exact hreceived.trans (runCallbacks_called none _ _)

theorem Provider.callbacks_reactionTo_builtIn (engine : Engine) (key : Bytes) :
    ((Provider.builtIn engine).reactionTo key).callbacks = [] := by
  rw [reactionTo]
  cases KeySize.ofLength key.length with
  | error e => rfl
  | ok size => rfl

theorem Context.ofProvider_builtIn_called (engine : Engine) (key : Bytes) (p : Process) :
    p.Called [] (ofProvider (.builtIn engine) key p).process := by
  have hcalled := ofProvider_called (.builtIn engine) key p
  rwa [Provider.callbacks_reactionTo_builtIn] at hcalled

theorem Context.ofConfig_called (config : Configuration) (key : Bytes) (offset length : Nat)
    (p : Process) : p.Called [] (ofConfig config key offset length p).process := by
  apply Process.Called.andThen (.refl p)
  intro size _
  apply Process.Called.andThen (.refl p)
  intro bytes _
  exact ofProvider_builtIn_called config.engine bytes p

/-! What an override does, one deed after another. -/
section Override

theorem Deed.run_called (own : List Context) (d : Deed) (p : Process) :
    p.Called d.callsBack ((d.run own : Action ε (List Context)) p).process := by
  cases d with
  | call c =>
    simp only [run, Action.bind_run, Run.andThen_of_ok (c.run_ok none p).1]
    exact c.run_called none p
  | opens provider key =>
    have hcalled := Context.ofProvider_called provider key p
    apply Process.Called.andThen (r := (Context.ofProvider provider key).orNone p) hcalled
    rintro (_ | c) -
    · exact .refl _
    · exact .refl _
  | drops place =>
    simp only [run]
    cases own[place]? with
    | none => exact .refl p
    | some c => exact .refl p

/-- A deed never fails, but it may panic. -/
theorem Deed.run_outcome (own : List Context) (d : Deed) (p : Process) :
    (d.panics = true ∧ ((d.run own : Action ε (List Context)) p).outcome = .panicked) ∨
      (d.panics = false ∧
        ∃ own', ((d.run own : Action ε (List Context)) p).outcome = .ok own') := by
  cases d with
  | call c =>
    simp only [run, Action.bind_run, Run.andThen_of_ok (c.run_ok none p).1]
    exact .inr ⟨rfl, own, rfl⟩
  | opens provider key =>
    simp only [run, panics, Action.bind_run, Action.orNone, Run.mapOutcome, Context.ofProvider_run]
    cases (provider.reactionTo key).outcome with
    | ok k => exact .inr ⟨rfl, _, rfl⟩
    | error e => exact .inr ⟨rfl, _, rfl⟩
    | panicked => exact .inl ⟨rfl, rfl⟩
  | drops place =>
    simp only [run]
    cases own[place]? with
    | none => exact .inr ⟨rfl, _, rfl⟩
    | some c => exact .inr ⟨rfl, _, rfl⟩

/-- A deed that panics is the last, and takes the contexts with it.  On any other the rest
follow. -/
theorem runDeeds_cons_cases (own : List Context) (d : Deed) (ds : List Deed) (p : Process) :
    let done := (d.run own : Action ε (List Context)) p
    let run := (runDeeds own (d :: ds) : Action ε (List Context)) p
    (d.panics = true ∧ run = ⟨.panicked, done.trace ++ teardowns own, done.process⟩) ∨
      (d.panics = false ∧ ∃ own', run = (runDeeds own' ds done.process).after done.trace) := by
  simp only [runDeeds, Action.bind_run, Action.atExit, Run.followedBy]
  rcases d.run_outcome (ε := ε) own p with ⟨hpanics, hrun⟩ | ⟨hpanics, own', hrun⟩
  · simp only [Run.andThen, hrun, Outcome.isOk]
    exact .inl ⟨hpanics, rfl⟩
  · simp only [Run.andThen, hrun, Outcome.isOk, if_true, List.append_nil]
    exact .inr ⟨hpanics, own', rfl⟩

theorem runDeeds_called (own : List Context) (ds : List Deed) (p : Process) :
    p.Called (callsOf ds) ((runDeeds own ds : Action ε (List Context)) p).process := by
  induction ds generalizing own p with
  | nil => exact .refl p
  | cons d ds ih =>
    have hcalled := d.run_called (ε := ε) own p
    rcases runDeeds_cons_cases (ε := ε) own d ds p with ⟨hpanics, hrun⟩ | ⟨hpanics, own', hrun⟩
    · rw [hrun, callsOf, hpanics, if_pos rfl, List.append_nil]
      exact hcalled
    · rw [hrun, callsOf, hpanics]
      exact hcalled.trans (ih own' _)

theorem runDeeds_outcome (own : List Context) (ds : List Deed) (p : Process) :
    (ds.any Deed.panics = true ∧
        ((runDeeds own ds : Action ε (List Context)) p).outcome = .panicked) ∨
      (ds.any Deed.panics = false ∧
        ∃ own', ((runDeeds own ds : Action ε (List Context)) p).outcome = .ok own') := by
  induction ds generalizing own p with
  | nil => exact .inr ⟨rfl, own, rfl⟩
  | cons d ds ih =>
    rcases runDeeds_cons_cases (ε := ε) own d ds p with ⟨hpanics, hrun⟩ | ⟨hpanics, own', hrun⟩
    · rw [hrun, List.any_cons, hpanics]
      exact .inl ⟨rfl, rfl⟩
    · rw [hrun, List.any_cons, hpanics]
      exact ih own' _

omit [LinkedCipher] in
theorem teardowns_reentrant (own : List Context) :
    ∀ e ∈ teardowns own, e.isReentrant = true := by
  intro e he
  obtain ⟨c, -, he⟩ := List.mem_flatMap.1 he
  exact c.teardown_reentrant e he

theorem Deed.run_opening (own : List Context) (d : Deed) (p : Process) :
    ∀ e ∈ ((d.run own : Action ε (List Context)) p).trace, e.isOpening = true := by
  cases d with
  | call c =>
    have hcalled := runCallbacks_reentrant (ε := ε) none [c] p
    rw [runCallbacks_cons] at hcalled
    simp only [run, Action.bind_run, Run.andThen_of_ok (c.run_ok none p).1]
    exact fun e he ↦ Event.isOpening_of_isReentrant (hcalled e he)
  | opens provider key =>
    have hopened := Context.ofProvider_opening provider key p
    simp only [run, Action.bind_run, Action.orNone, Run.mapOutcome]
    cases (Context.ofProvider provider key p).outcome with
    | ok c => simpa using hopened
    | error e => simpa using hopened
    | panicked => simpa using hopened
  | drops place =>
    simp only [run]
    cases own[place]? with
    | none => exact List.forall_mem_nil _
    | some c =>
      intro e he
      refine Event.isOpening_of_isReentrant (c.teardown_reentrant e ?_)
      simpa using he

theorem runDeeds_opening (own : List Context) (ds : List Deed) (p : Process) :
    ∀ e ∈ ((runDeeds own ds : Action ε (List Context)) p).trace, e.isOpening = true := by
  induction ds generalizing own p with
  | nil => exact List.forall_mem_nil _
  | cons d ds ih =>
    have hdone := d.run_opening (ε := ε) own p
    rcases runDeeds_cons_cases (ε := ε) own d ds p with ⟨-, hrun⟩ | ⟨-, own', hrun⟩
    · rw [hrun]
      intro e he
      rcases List.mem_append.1 he with he | he
      · exact hdone e he
      · exact Event.isOpening_of_isReentrant (teardowns_reentrant own e he)
    · rw [hrun]
      intro e he
      rcases List.mem_append.1 he with he | he
      · exact hdone e he
      · exact ih own' _ e he

omit [LinkedCipher] in
theorem Answer.run_reentrant (own : List Context) (answer : Answer) (p : Process) :
    ∀ e ∈ ((answer.run own : Action ε (Option Context)) p).trace, e.isReentrant = true := by
  cases answer with
  | panic => simpa [run] using teardowns_reentrant own
  | decline => simpa [run] using teardowns_reentrant own
  | hands place => simpa [run] using teardowns_reentrant (own.eraseIdx place)

omit [LinkedCipher] in
theorem Answer.run_outcome (own : List Context) (answer : Answer) (p : Process) :
    ((answer.run own : Action ε (Option Context)) p).process = p ∧
      ((answer.panics = true ∧
          ((answer.run own : Action ε (Option Context)) p).outcome = .panicked) ∨
        (answer.panics = false ∧
          ∃ c?, ((answer.run own : Action ε (Option Context)) p).outcome = .ok c?)) := by
  cases answer with
  | panic => exact ⟨rfl, .inl ⟨rfl, rfl⟩⟩
  | decline => exact ⟨rfl, .inr ⟨rfl, _, rfl⟩⟩
  | hands place => exact ⟨rfl, .inr ⟨rfl, _, rfl⟩⟩

namespace Override

theorem ask_called (o : Override) (key : Bytes) (p : Process) :
    p.Called (o.callsBack key p.defaultEngine)
      ((o.ask key : Action ε (Option Context)) p).process := by
  refine (runDeeds_called [] (o.react key p.defaultEngine).deeds p).andThen ?_
  intro own _
  rw [(Answer.run_outcome own _ _).1]
  exact .refl _

/-- Nothing happens while an override answers but calls back into the library, and that contexts are
opened and given up. -/
theorem ask_opening (o : Override) (key : Bytes) (p : Process) :
    ∀ e ∈ ((o.ask key : Action ε (Option Context)) p).trace, e.isOpening = true := by
  have hdone := runDeeds_opening (ε := ε) [] (o.react key p.defaultEngine).deeds p
  simp only [ask, Action.bind_run, Action.state_run, Run.andThen_ok, Run.after_nil]
  cases hrun : (runDeeds [] (o.react key p.defaultEngine).deeds p : Run ε _).outcome with
  | ok own =>
    rw [Run.andThen_of_ok hrun]
    intro e he
    rcases List.mem_append.1 he with he | he
    · exact hdone e he
    · exact Event.isOpening_of_isReentrant (Answer.run_reentrant own _ _ e he)
  | error e =>
    simp only [Run.andThen, hrun]
    exact hdone
  | panicked =>
    simp only [Run.andThen, hrun]
    exact hdone

/-- An override never fails, but it may panic. -/
theorem ask_outcome (o : Override) (key : Bytes) (p : Process) :
    (o.Panics key p.defaultEngine ∧
        ((o.ask key : Action ε (Option Context)) p).outcome = .panicked) ∨
      (¬ o.Panics key p.defaultEngine ∧
        ∃ c?, ((o.ask key : Action ε (Option Context)) p).outcome = .ok c?) := by
  simp only [ask, Panics, Action.bind_run, Action.state_run, Run.andThen_ok, Run.after_nil]
  rcases runDeeds_outcome (ε := ε) [] (o.react key p.defaultEngine).deeds p with
    ⟨hpanics, hrun⟩ | ⟨hpanics, own, hrun⟩
  · exact .inl ⟨by rw [hpanics]; rfl, Run.andThen_of_panicked hrun _⟩
  · rw [Run.andThen_of_ok hrun, hpanics]
    rcases (Answer.run_outcome (ε := ε) own (o.react key p.defaultEngine).answer
      (runDeeds [] (o.react key p.defaultEngine).deeds p).process).2 with
      ⟨hanswer, hend⟩ | ⟨hanswer, c?, hend⟩
    · exact .inl ⟨hanswer, hend⟩
    · exact .inr ⟨by rw [hanswer]; nofun, c?, hend⟩

theorem ask_panicked_iff (o : Override) (key : Bytes) (p : Process) :
    ((o.ask key : Action ε (Option Context)) p).outcome = .panicked ↔
      o.Panics key p.defaultEngine := by
  rcases o.ask_outcome (ε := ε) key p with ⟨hpanics, hend⟩ | ⟨hquiet, c?, hend⟩
  · exact iff_of_true hend hpanics
  · rw [hend]
    exact iff_of_false nofun hquiet

end Override

end Override

namespace Factory

theorem requestRead_called (data : Bytes) (p : Process) :
    p.Called (p.callsOnRequest data) (requestRead Override.ask data p).process := by
  cases ho : p.override? with
  | none =>
    rw [requestRead_of_none _ ho, Process.callsOnRequest, ho]
    exact Context.ofProvider_builtIn_called p.defaultEngine data p
  | some o =>
    have hends := requestRead_concludes Override.ask data ho
    have hasked := o.ask_called (ε := Empty) data p
    rw [Process.callsOnRequest, ho]
    generalize requestRead Override.ask data p = run at hends ⊢
    cases hends with
    | offered _ => exact hasked
    | declined _ =>
      have hopened := hasked.trans (Context.ofProvider_builtIn_called p.defaultEngine data _)
      rwa [List.append_nil] at hopened
    | panicked _ => exact hasked

theorem request_called (key : Bytes) (offset length : Nat) (p : Process) :
    ∃ cs, p.Called cs (request key offset length p).process := by
  cases hsize : KeySize.ofLength length with
  | error e =>
    refine ⟨[], ?_⟩
    simp only [request, requestBy, Action.bind_run, Run.ofExcept_andThen, hsize]
    exact .refl p
  | ok size =>
    have hsize' : KeySize.ofLength (Region.mk offset length).length = .ok size := hsize
    cases hslice : (Region.mk offset length).slice key with
    | error e =>
      have hrun := requestBy_of_slice_error Override.ask hsize' hslice p
      exact ⟨[], by rw [request, hrun]; exact .refl p⟩
    | ok data =>
      have hrun := requestBy_of_slice Override.ask hsize' hslice p
      exact ⟨_, by rw [request, hrun]; exact requestRead_called data p⟩

/-- Whatever an override does and hands over, a request for a context with a key that does not get
one leaves the process as the override has left it. -/
theorem requestRead_process (ask : Override → Bytes → Action Empty (Option Context)) {data : Bytes}
    {k : Key} (hk : Key.ofBytes data = .ok k) (p : Process)
    (hfailed : (requestRead ask data p).outcome.isOk = false) :
    ∃ o, p.override? = some o ∧ (requestRead ask data p).process = (ask o data p).process := by
  have hdefault := Context.ofProvider_builtIn_outcome p.defaultEngine hk
  cases ho : p.override? with
  | none =>
    rw [requestRead_of_none ask ho, hdefault] at hfailed
    cases hfailed
  | some o =>
    have hends := requestRead_concludes ask data ho
    generalize requestRead ask data p = run at hends hfailed ⊢
    cases hends with
    | offered _ => cases hfailed
    | declined _ =>
      rw [Run.after, hdefault] at hfailed
      cases hfailed
    | panicked _ => exact ⟨o, rfl, rfl⟩

/-- A request for a context with a key panics if the override does, and otherwise succeeds. -/
theorem requestRead_outcome (ask : Override → Bytes → Action Empty (Option Context)) {data : Bytes}
    {k : Key} (hk : Key.ofBytes data = .ok k) (p : Process) :
    ((∃ o, p.override? = some o ∧ (ask o data p).outcome = .panicked) ∧
        (requestRead ask data p).outcome = .panicked) ∨
      ((∀ o, p.override? = some o → (ask o data p).outcome ≠ .panicked) ∧
        ∃ c, (requestRead ask data p).outcome = .ok c) := by
  have hdefault := Context.ofProvider_builtIn_outcome p.defaultEngine hk
  cases ho : p.override? with
  | none =>
    rw [requestRead_of_none ask ho]
    exact .inr ⟨nofun, _, hdefault p⟩
  | some o =>
    have hends := requestRead_concludes ask data ho
    generalize requestRead ask data p = run at hends ⊢
    cases hends with
    | offered hoffered =>
      refine .inr ⟨fun o' ho' ↦ ?_, _, rfl⟩
      rw [← Option.some.inj ho', hoffered]
      nofun
    | declined hdeclined =>
      refine .inr ⟨fun o' ho' ↦ ?_, _, hdefault _⟩
      rw [← Option.some.inj ho', hdeclined]
      nofun
    | panicked hpanicked => exact .inl ⟨⟨o, rfl, hpanicked⟩, rfl⟩

end Factory

namespace Boundary

variable (key : Pointer) (offset length : Int32) (p : Process)

theorem acquire_called :
    p.Called (callsOnCreate p key offset length)
      (acquireBy Override.ask key offset length p).process := by
  rw [acquireBy_eq, callsOnCreate]
  cases keyArgument p.memory key offset length with
  | error e => exact .refl p
  | ok named => exact Factory.requestRead_called named.1 p

variable {key offset length p} in
theorem acquireBy_process {ask : Override → Bytes → Action Empty (Option Context)}
    (hfailed : (acquireBy ask key offset length p).outcome.isOk = false) :
    let q := (acquireBy ask key offset length p).process
    q = p ∨ ∃ o data, p.override? = some o ∧ q = (ask o data p).process := by
  rw [acquireBy_eq] at hfailed ⊢
  cases hkey : keyArgument p.memory key offset length with
  | error e => exact .inl rfl
  | ok named =>
    obtain ⟨data, k⟩ := named
    obtain ⟨-, -, -, -, -, -, hk⟩ := keyArgument_eq_ok_iff.1 hkey
    simp only [hkey, Action.mapError, Run.mapOutcome, Outcome.isOk_mapError] at hfailed ⊢
    obtain ⟨o, ho, hprocess⟩ := Factory.requestRead_process ask hk p hfailed
    exact .inr ⟨o, data, ho, hprocess⟩

/-- A creation gets its context unless the arguments name no key, or the override panics. -/
theorem acquire_outcome :
    let outcome := (acquireBy Override.ask key offset length p).outcome
    (∃ e, keyArgument p.memory key offset length = .error e ∧ outcome = .error e) ∨
      ∃ data k, keyArgument p.memory key offset length = .ok (data, k) ∧
        ((∃ o, p.override? = some o ∧ o.Panics data p.defaultEngine) ∧ outcome = .panicked ∨
          (∀ o, p.override? = some o → ¬ o.Panics data p.defaultEngine) ∧
            ∃ c, outcome = .ok c) := by
  rw [acquireBy_eq]
  cases hkey : keyArgument p.memory key offset length with
  | error e => exact .inl ⟨e, rfl, rfl⟩
  | ok named =>
    obtain ⟨data, k⟩ := named
    obtain ⟨-, -, -, -, -, -, hk⟩ := keyArgument_eq_ok_iff.1 hkey
    refine .inr ⟨data, k, rfl, ?_⟩
    simp only [Action.mapError, Run.mapOutcome]
    have hrequested := Factory.requestRead_outcome Override.ask hk p
    simp only [ne_eq, Override.ask_panicked_iff] at hrequested
    rcases hrequested with ⟨hpanics, hrun⟩ | ⟨hquiet, c, hrun⟩
    · exact .inl ⟨hpanics, by rw [hrun]; rfl⟩
    · exact .inr ⟨hquiet, c, by rw [hrun]; rfl⟩

end Boundary

end AesEcb
