import AesEcb.Proofs.Calls
import AesEcb.Proofs.Registry

/-!
# What calls back into the library add up to

Taken together, the calls that outside code makes back erase the handles they release, leave the
default engine they set last, and remove the override if one of them does.
-/

namespace AesEcb

namespace Callback

/-- The handle that the call releases; the null handle releases nothing. -/
def released? : Callback → Option Handle
  | release h => if h = .null then none else some h
  | _ => none

def engine? : Callback → Option Engine
  | setDefault engine => some engine
  | _ => none

end Callback

/-- The event may be brought about by a call back into the library. -/
def Event.isReentrant : Event → Bool
  | .diagnostic (.contextClosed _) | .diagnostic (.handleReleased _) => true
  | .diagnostic (.callFailed .release _) | .diagnostic (.defaultChanged _) => true
  | .crossing (.keyDestroyed _) | .crossing (.providerDestroyed _) => true
  | _ => false

theorem Context.teardown_reentrant (c : Context) : ∀ e ∈ c.teardown, e.isReentrant = true := by
  simp [teardown, Event.isReentrant]

theorem Process.dropped_reentrant (p : Process) (running : Option Reference) (h : Handle)
    (c : Context) : ∀ e ∈ p.dropped running h c, e.isReentrant = true := by
  rw [dropped]
  split
  · exact c.teardown_reentrant
  · exact List.forall_mem_nil _

def releasedHandles (cs : List Callback) : List Handle := cs.filterMap Callback.released?

theorem releasedHandles_append (cs cs' : List Callback) :
    releasedHandles (cs ++ cs') = releasedHandles cs ++ releasedHandles cs' :=
  List.filterMap_append

/-- What the calls `cs` back into the library make of the process `p`. -/
structure Process.Called (p : Process) (cs : List Callback) (p' : Process) : Prop where
  entries_eq : p'.handles.entries = p.handles.entries.filter fun e ↦ e.1 ∉ releasedHandles cs
  nextId_eq : p'.handles.nextId = p.handles.nextId
  defaultEngine_eq :
    p'.defaultEngine = (cs.filterMap Callback.engine?).getLast?.getD p.defaultEngine
  override_eq : p'.override? = if .clearOverride ∈ cs then none else p.override?

namespace Process.Called

variable {p p' p'' : Process} {cs cs' : List Callback}

theorem of_eq (hhandles : p'.handles = p.handles) (hengine : p'.defaultEngine = p.defaultEngine)
    (hoverride : p'.override? = p.override?) : p.Called [] p' where
  entries_eq := by
    rw [hhandles]
    exact (List.filter_eq_self.2 fun e _ ↦ rfl).symm
  nextId_eq := by rw [hhandles]
  defaultEngine_eq := hengine
  override_eq := hoverride

theorem refl (p : Process) : p.Called [] p := of_eq rfl rfl rfl

theorem trans (h : p.Called cs p') (h' : p'.Called cs' p'') : p.Called (cs ++ cs') p'' where
  entries_eq := by
    rw [h'.entries_eq, h.entries_eq, List.filter_filter]
    congr 1
    funext e
    simp [releasedHandles_append, Bool.and_comm]
  nextId_eq := h'.nextId_eq.trans h.nextId_eq
  defaultEngine_eq := by
    rw [h'.defaultEngine_eq, h.defaultEngine_eq, List.filterMap_append, List.getLast?_append]
    cases (cs'.filterMap Callback.engine?).getLast? with
    | none => rfl
    | some engine => rfl
  override_eq := by
    rw [h'.override_eq, h.override_eq]
    by_cases hc : .clearOverride ∈ cs
    · simp [hc]
    · simp [hc]

theorem get?_eq (h : p.Called cs p') (k : Handle) :
    p'.handles.get? k = if k ∈ releasedHandles cs then none else p.handles.get? k := by
  rw [Registry.get?, h.entries_eq, List.find?_filter]
  by_cases hk : k ∈ releasedHandles cs
  · rw [if_pos hk, Option.map_eq_none_iff, List.find?_eq_none]
    rintro e - he
    simp only [decide_not, Bool.not_eq_true', decide_eq_false_iff_not,
      decide_eq_true_eq] at he
    exact he.1 (he.2 ▸ hk)
  · rw [if_neg hk, Registry.get?]
    congr 2
    funext e
    by_cases he : e.1 = k
    · simp [he, hk]
    · simp [he]

/-- What follows makes no calls and keeps what the process keeps. -/
theorem andThen {ε α β : Type} {r : Run ε α} {f : α → Action ε β} (h : p.Called cs r.process)
    (hf : ∀ a, r.outcome = .ok a → r.process.Called [] (f a r.process).process) :
    p.Called cs (r.andThen f).process := by
  cases hrun : r.outcome with
  | ok a =>
    rw [Run.andThen_of_ok hrun]
    have hcalled := h.trans (hf a hrun)
    rwa [List.append_nil] at hcalled
  | error e =>
    simp only [Run.andThen, hrun]
    exact h
  | panicked =>
    simp only [Run.andThen, hrun]
    exact h

end Process.Called

section Callbacks

variable {ε : Type}

theorem Callback.run_called (running : Option Reference) (c : Callback) (p : Process) :
    p.Called [c] ((c.run running : Action ε Unit) p).process := by
  cases c with
  | release h =>
    have hrun := Boundary.release_run (ε := ε) running h p
    by_cases hnull : h = .null
    · have hnone : releasedHandles [release h] = [] := by simp [releasedHandles, released?, hnull]
      rw [Callback.run, hrun, if_pos hnull]
      refine ⟨?_, rfl, rfl, rfl⟩
      rw [hnone]
      exact (Process.Called.refl p).entries_eq
    · have herased : (p.handles.entries.filter fun e ↦ e.1 ∉ releasedHandles [release h]) =
          (p.handles.erase h).entries := by
        simp [releasedHandles, released?, hnull, Registry.erase]
      rw [Callback.run, hrun, if_neg hnull]
      cases hget : p.handles.get? h with
      | none =>
        refine ⟨?_, rfl, rfl, rfl⟩
        rw [herased, Registry.entries_erase_of_get?_none hget]
      | some c => exact ⟨herased.symm, rfl, rfl, rfl⟩
  | setDefault engine => exact ⟨(Process.Called.refl p).entries_eq, rfl, rfl, rfl⟩
  | clearOverride => exact ⟨(Process.Called.refl p).entries_eq, rfl, rfl, rfl⟩

theorem runCallbacks_called (running : Option Reference) (cs : List Callback) (p : Process) :
    p.Called cs ((runCallbacks running cs : Action ε Unit) p).process := by
  induction cs generalizing p with
  | nil => exact .refl p
  | cons c cs ih =>
    rw [runCallbacks_cons]
    exact (c.run_called running p).trans (ih _)

theorem Boundary.release_reentrant (running : Option Reference) (h : Handle) (p : Process) :
    ∀ e ∈ ((release running h : Action ε Unit) p).trace, e.isReentrant = true := by
  rw [release_run]
  by_cases hnull : h = .null
  · simp [hnull]
  · rw [if_neg hnull]
    cases p.handles.get? h with
    | none => simp [Event.isReentrant]
    | some c =>
      by_cases hrunning : running = some ⟨h, c.owner⟩
      · simp [hrunning, Event.isReentrant]
      · simp [hrunning, Event.isReentrant, Context.teardown]

theorem runCallbacks_reentrant (running : Option Reference) (cs : List Callback) (p : Process) :
    ∀ e ∈ ((runCallbacks running cs : Action ε Unit) p).trace, e.isReentrant = true := by
  induction cs generalizing p with
  | nil => simp [runCallbacks]
  | cons c cs ih =>
    rw [runCallbacks_cons]
    intro e he
    rcases List.mem_append.1 he with he | he
    · cases c with
      | release h => exact Boundary.release_reentrant running h p e he
      | setDefault engine =>
        obtain rfl : e = .diagnostic (.defaultChanged engine) := by
          simpa [Callback.run, changeDefault, Action.diagnose] using he
        rfl
      | clearOverride => cases he
    · exact ih _ e he

end Callbacks

end AesEcb
