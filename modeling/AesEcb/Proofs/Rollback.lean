import AesEcb.Proofs.Balance
import AesEcb.Proofs.Requests

/-!
# Failed calls through handles

A call through a handle that fails tells so by its value and by its last warning.  It leaves
nothing behind but what the calls back into the library have done meanwhile.
-/

namespace AesEcb

/-- The operation whose failure the event warns of. -/
def Event.warning? : Event → Option Operation
  | .diagnostic (.callFailed operation _) | .diagnostic (.panicContained operation) =>
    some operation
  | _ => none

/-- The operation of which the trace says at its end that it failed. -/
def Trace.failed? (t : Trace) : Option Operation := t.getLast?.bind Event.warning?

namespace Trace

def WarnsOnlyOf (t : Trace) (operation : Operation) : Prop :=
  ∀ e ∈ t, ∀ warned, e.warning? = some warned → warned = operation

variable {t t' : Trace} {operation : Operation}

theorem failed?_append_singleton (t : Trace) (e : Event) : failed? (t ++ [e]) = e.warning? := by
  rw [failed?, List.getLast?_append]
  rfl

namespace WarnsOnlyOf

theorem append (ht : t.WarnsOnlyOf operation) (ht' : t'.WarnsOnlyOf operation) :
    WarnsOnlyOf (t ++ t') operation := by
  intro e he
  rcases List.mem_append.1 he with he | he
  · exact ht e he
  · exact ht' e he

theorem failed?_ne {other : Operation} (ht : t.WarnsOnlyOf operation) (hother : other ≠ operation) :
    t.failed? ≠ some other := by
  intro hfailed
  obtain ⟨e, hlast, hwarning⟩ := Option.bind_eq_some_iff.1 hfailed
  exact hother (ht e (List.mem_of_getLast? hlast) other hwarning)

end WarnsOnlyOf

/-- While contexts are opened nothing is warned of but releases, which are calls back. -/
theorem warnsOnlyOf_of_opening (h : ∀ e ∈ t, e.isOpening = true) : t.WarnsOnlyOf .release := by
  intro e he operation hwarning
  have hopening := h e he
  rcases e with d | c
  · cases d with
    | callFailed failed cause =>
      obtain rfl := Option.some.inj hwarning
      cases failed with
      | release => rfl
      | create | encrypt => cases hopening
    | panicContained failed => cases hopening
    | _ => cases hwarning
  · cases hwarning

theorem warnsOnlyOf_of_reentrant (h : ∀ e ∈ t, e.isReentrant = true) : t.WarnsOnlyOf .release :=
  warnsOnlyOf_of_opening fun e he ↦ Event.isOpening_of_isReentrant (h e he)

end Trace

namespace Run

variable {ε α : Type}

/-- The body of a call succeeds with a good value, or else the process is what the calls `cs` have
made of `p`. -/
inductive Undoes (r : Run ε α) (operation : Operation) (good : α → Prop) (cs : List Callback)
    (p : Process) : Prop
  | success (a : α) (hgood : good a) (houtcome : r.outcome = .ok a)
      (hlast : r.trace.failed? ≠ some operation)
  | failure (houtcome : ∀ a, r.outcome ≠ .ok a) (hcalled : p.Called cs r.process)

/-- The same of the call itself, which returns `sentinel` when its body does not succeed. -/
inductive RollsBack (r : Run ε α) (operation : Operation) (sentinel : α) (good : α → Prop)
    (cs : List Callback) (p : Process) : Prop
  | success (a : α) (hgood : good a) (houtcome : r.outcome = .ok a)
      (hlast : r.trace.failed? ≠ some operation)
  | failure (houtcome : r.outcome = .ok sentinel) (hlast : r.trace.failed? = some operation)
      (hcalled : p.Called cs r.process)

end Run

namespace Boundary

/-- The calls that are made back into the library while a handle is used. -/
def callsOnEncrypt (p : Process) (h : Handle) (input : Pointer)
    (inOffset length outOffset : Int32) : List Callback :=
  match p.handles.get? h, arguments p.memory input inOffset length outOffset with
  | some c, .ok (_, data) => (c.key.transform data).callbacks
  | _, _ => []

variable {ε α : Type} {p q : Process} {t : Trace} {operation : Operation} {good : α → Prop}
  {cs : List Callback}

theorem failed?_append_warning {o : Outcome BoundaryError α} (hfailed : o.isOk = false) (t : Trace)
    (operation : Operation) : (t ++ warning operation o).failed? = some operation := by
  cases o with
  | ok a => cases hfailed
  | error e => exact Trace.failed?_append_singleton _ _
  | panicked => exact Trace.failed?_append_singleton _ _

theorem undoes_error (e : BoundaryError) (p : Process) :
    Run.Undoes (⟨.error e, [], p⟩ : Run BoundaryError α) operation good [] p := by
  apply Run.Undoes.failure
  · rintro a ⟨⟩
  · exact .refl p

theorem contained_rollsBack {sentinel : α} {r : Run BoundaryError α}
    (hr : r.Undoes operation good cs p) :
    (r.contained operation sentinel : Run ε α).RollsBack operation sentinel good cs p := by
  rw [contained_eq]
  cases hr with
  | success a hgood houtcome hlast =>
    rw [houtcome, warning, List.append_nil]
    exact .success a hgood rfl hlast
  | failure houtcome hcalled =>
    cases hrun : r.outcome with
    | ok a => exact absurd hrun (houtcome a)
    | error e => exact .failure rfl (Trace.failed?_append_singleton _ _) hcalled
    | panicked => exact .failure rfl (Trace.failed?_append_singleton _ _) hcalled

/-- The arguments do not name a key, or the override panics or has a provider panic. -/
def CreateFails [LinkedCipher] (p : Process) (key : Pointer) (offset length : Int32) : Prop :=
  match keyArgument p.memory key offset length with
  | .error _ => True
  | .ok (data, _) => ∃ o, p.override? = some o ∧ o.Panics data p.defaultEngine

theorem not_createFails_of_ok [LinkedCipher] {key : Pointer} {offset length : Int32} {p : Process}
    {c : Context} (hok : (acquireBy Override.ask key offset length p).outcome = .ok c) :
    ¬ CreateFails p key offset length := by
  have hacquired := acquire_outcome key offset length p
  rw [hok] at hacquired
  rcases hacquired with ⟨e, -, hend⟩ | ⟨data, k, hkey, ⟨-, hend⟩ | ⟨hquiet, -⟩⟩
  · cases hend
  · cases hend
  · rw [CreateFails, hkey]
    rintro ⟨o, ho, hpanics⟩
    exact hquiet o ho hpanics

/-- A creation that fails issues no handle, and changes nothing of its own. -/
theorem create_rollsBack [LinkedCipher] {key : Pointer} {offset length : Int32} {p : Process}
    {r : Run ε Handle} (hr : create key offset length p = some r) :
    r.RollsBack .create .null (fun h ↦ h ≠ .null ∧ ¬ CreateFails p key offset length)
      (callsOnCreate p key offset length) p := by
  have hcalled := acquire_called key offset length p
  rcases createBy_cases hr with ⟨c, h, u, hok, hins, rfl⟩ | ⟨hfailed, rfl⟩
  · obtain ⟨hfresh, -, -⟩ := Registry.insert?_eq_some_iff.1 hins
    refine .success h ⟨(Registry.isFree_of_fresh? hfresh).1, not_createFails_of_ok hok⟩ rfl ?_
    rw [Trace.failed?_append_singleton]
    simp [Event.warning?]
  · exact .failure rfl (failed?_append_warning hfailed _ _) hcalled

theorem runCallbacks_warnings (running : Option Reference) (calls : List Callback) (p : Process) :
    ((runCallbacks running calls : Action ε Unit) p).trace.WarnsOnlyOf .release :=
  Trace.warnsOnlyOf_of_reentrant (runCallbacks_reentrant running calls p)

theorem encrypt_rollsBack (h : Handle) (input : Pointer) (inOffset length : Int32)
    (output : Pointer) (outOffset : Int32) (p : Process) :
    ((encrypt h input inOffset length output outOffset : Action ε Int32) p).RollsBack .encrypt 0
      (fun n ↦ (encryption p h input inOffset length output outOffset).1 = .ok n)
      (callsOnEncrypt p h input inOffset length outOffset) p := by
  apply contained_rollsBack
  rw [Action.bind_run, Action.state_run, Run.andThen_ok, Run.after_nil, callsOnEncrypt]
  simp only [encryption]
  cases hget : p.handles.get? h with
  | none => exact undoes_error _ p
  | some c =>
    simp only [Action.atExit, Run.followedBy, encryptWith_run]
    cases arguments p.memory input inOffset length outOffset with
    | error e =>
      apply Run.Undoes.failure
      · rintro n ⟨⟩
      · exact .refl p
    | ok named =>
      obtain ⟨target, data⟩ := named
      let calls := (c.key.transform data).callbacks
      let running : Option Reference := some ⟨h, c.owner⟩
      have hcalled := runCallbacks_called (ε := Empty) running calls p
      have hwarnings := runCallbacks_warnings (ε := Empty) running calls p
      simp only [Context.encryptInPlace_run]
      by_cases hok : ∃ n, (deliver p.memory output target (c.key.transform data)).1 = .ok n
      · obtain ⟨n, hn⟩ := hok
        have hother : Operation.encrypt ≠ .release := by decide
        refine .success n hn hn (Trace.WarnsOnlyOf.failed?_ne ?_ hother)
        refine Trace.WarnsOnlyOf.append (Trace.WarnsOnlyOf.append ?_ hwarnings)
          (Trace.warnsOnlyOf_of_reentrant (Process.dropped_reentrant _ _ _ _))
        simp [Trace.WarnsOnlyOf, Event.warning?]
      · apply Run.Undoes.failure
        · exact not_exists.1 hok
        · exact ⟨hcalled.entries_eq, hcalled.nextId_eq, hcalled.defaultEngine_eq,
            hcalled.override_eq⟩

theorem release_rollsBack (h : Handle) (p : Process) :
    ((release none h : Action ε Unit) p).RollsBack .release ()
      (fun _ ↦ h = .null ∨ p.handles.get? h ≠ none) [] p := by
  rw [release_run]
  by_cases hnull : h = .null
  · rw [if_pos hnull]
    exact .success () (.inl hnull) rfl (by simp [Trace.failed?])
  · rw [if_neg hnull]
    cases p.handles.get? h with
    | none => exact .failure rfl rfl (.refl p)
    | some c =>
      refine .success () (.inr (Option.some_ne_none c)) rfl ?_
      rw [Trace.failed?_append_singleton]
      simp [Event.warning?]

end Boundary

end AesEcb
