import AesEcb.Proofs.Books
import AesEcb.Proofs.Reentry

/-!
# Who owns a context

The registry owns the contexts it binds, and whoever runs an action owns the contexts that it was
given or has got.  A tidy action hands on what it keeps when it succeeds, and has destroyed the
rest by its end, whatever its outcome.
-/

namespace AesEcb

namespace Process

def owners (p : Process) : List Instance := p.handles.entries.map fun e ↦ e.2.owner

/-- What the registry and the holder of the contexts of `given` own together. -/
def books (given : List Instance) (p : Process) : Books where
  providers := given ++ p.owners
  keys := given ++ p.owners
  serial := p.nextSerial

/-- The context that the running call uses, if its handle was released between `p` and `p'`. -/
def deferred (running : Option Reference) (p p' : Process) : List Instance :=
  match running with
  | some r => if r ∈ p.handles.references ∧ r ∉ p'.handles.references then [r.owner] else []
  | none => []

variable {p p' p'' : Process} {given given' held : List Instance} {h : Handle} {c : Context}
  {t : Trace}

theorem owners_perm_of_get? (hget : p.handles.get? h = some c) :
    p.owners.Perm (c.owner :: { p with handles := p.handles.erase h }.owners) :=
  (Registry.entries_perm_of_get? hget).map _

theorem books_frame (h : (p.books given).Settles t (p'.books given')) (held : List Instance) :
    (p.books (held ++ given)).Settles t (p'.books (held ++ given')) := by
  have hframe := h.frame held held
  simp only [books, ← List.append_assoc] at hframe
  exact hframe

/-- Whoever holds contexts may hold them in any order. -/
theorem books_perm (p : Process) (h : given.Perm given') :
    (p.books given).Settles [] (p.books given') :=
  (Books.Settles.refl _).of_perm (h.append_right _) (h.append_right _)

theorem deferred_of_references_eq (href : p'.handles.references = p.handles.references)
    (running : Option Reference) : p.deferred running p' = [] := by
  cases running with
  | none => rfl
  | some r => exact if_neg fun hgone ↦ hgone.2 (href ▸ hgone.1)

theorem Called.mem_references_iff {cs : List Callback} (h : p.Called cs p') {r : Reference} :
    r ∈ p'.handles.references ↔ r ∈ p.handles.references ∧ r.handle ∉ releasedHandles cs := by
  rw [Registry.mem_references_iff, Registry.mem_references_iff, h.get?_eq]
  by_cases hr : r.handle ∈ releasedHandles cs
  · simp [hr]
  · simp [hr]

theorem deferred_trans {cs cs' : List Callback} (h : p.Called cs p') (h' : p'.Called cs' p'')
    (running : Option Reference) :
    p.deferred running p'' = p.deferred running p' ++ p'.deferred running p'' := by
  cases running with
  | none => rfl
  | some r =>
    simp only [deferred, h'.mem_references_iff, h.mem_references_iff]
    by_cases hp : r ∈ p.handles.references
    · by_cases hr : r.handle ∈ releasedHandles cs
      · simp [hp, hr]
      · simp [hp, hr]
    · simp [hp]

/-- Giving up the context in use, if its handle is gone, leaves nothing deferred. -/
theorem deferred_settles (hget : p.handles.get? h = some c) (p' : Process) :
    (p'.books (p.deferred (some ⟨h, c.owner⟩) p')).Settles (p'.dropped none h c)
      (p'.books []) := by
  have hbound : ⟨h, c.owner⟩ ∈ p.handles.references := by
    rw [Registry.mem_references_iff, hget]
    rfl
  rw [dropped_none, deferred]
  by_cases hleft : ⟨h, c.owner⟩ ∈ p'.handles.references
  · rw [if_pos hleft, if_neg fun hgone ↦ hgone.2 hleft]
    exact .refl _
  · rw [if_neg hleft, if_pos ⟨hbound, hleft⟩]
    exact .closing _ _ _ c

end Process

/-- What is left in hand when an action ends so. -/
def Outcome.kept {ε α : Type} (kept : α → List Instance) : Outcome ε α → List Instance
  | ok a => kept a
  | _ => []

@[simp] theorem Outcome.kept_nothing {ε α : Type} (o : Outcome ε α) :
    o.kept (fun _ ↦ []) = [] := by
  cases o with
  | ok a => rfl
  | error e => rfl
  | panicked => rfl

/-- Given the contexts of `given`, the action owns those of `kept` when it succeeds, and none when
it does not. -/
def Action.Tidy {ε α : Type} (given : List Instance) (x : Action ε α) (kept : α → List Instance) :
    Prop :=
  ∀ p : Process, (p.books given).Settles (x p).trace ((x p).process.books ((x p).outcome.kept kept))

namespace Action.Tidy

variable {ε ε' α β : Type} {given : List Instance} {kept : α → List Instance}
  {kept' : β → List Instance} {x : Action ε α}

theorem finish {o : Outcome ε α} (ho : o.kept kept = given) : Tidy given (finish o) kept :=
  fun _ ↦ ho ▸ .refl _

theorem pure {a : α} (ha : kept a = given) : Tidy given (Pure.pure a : Action ε α) kept :=
  fun _ ↦ ha ▸ .refl _

theorem finish_nothing (o : Outcome ε α) : Tidy [] (Action.finish o) fun _ ↦ [] :=
  finish o.kept_nothing

theorem state : Tidy given (state : Action ε Process) fun _ ↦ given :=
  fun _ ↦ .refl _

theorem modify {f : Process → Process} (hhandles : ∀ p, (f p).handles = p.handles)
    (hserial : ∀ p, (f p).nextSerial = p.nextSerial) :
    Tidy given (modify f : Action ε Unit) fun _ ↦ given := by
  intro p
  have hbooks : (f p).books given = p.books given := by
    rw [Process.books, Process.books, Process.owners, Process.owners, hhandles, hserial]
  rw [Action.modify_run, Outcome.kept, hbooks]
  exact .refl _

theorem emit {t : Trace} (hneutral : ∀ e ∈ t, e.isNeutral = true) :
    Tidy given (emit t : Action ε Unit) fun _ ↦ given :=
  fun _ ↦ .of_neutral hneutral _

theorem bind {f : α → Action ε β} (hx : Tidy given x kept) (hf : ∀ a, Tidy (kept a) (f a) kept') :
    Tidy given (x >>= f) kept' := by
  intro p
  have hbooks := hx p
  cases hrun : (x p).outcome with
  | ok a =>
    rw [hrun] at hbooks
    rw [bind_run, Run.andThen_of_ok hrun]
    exact hbooks.trans (hf a _)
  | error e =>
    rw [hrun] at hbooks
    simp only [bind_run, Run.andThen, hrun]
    exact hbooks
  | panicked =>
    rw [hrun] at hbooks
    simp only [bind_run, Run.andThen, hrun]
    exact hbooks

theorem mapError (f : ε → ε') (hx : Tidy given x kept) : Tidy given (x.mapError f) kept := by
  intro p
  have hbooks := hx p
  rw [Action.mapError, Run.mapOutcome]
  cases hrun : (x p).outcome with
  | ok a => rwa [hrun] at hbooks
  | error e => rwa [hrun] at hbooks
  | panicked => rwa [hrun] at hbooks

end Action.Tidy

section Callbacks

variable {ε : Type} (running : Option Reference) (p : Process)

/-- A context that is released while it is in use is not given up yet. -/
theorem Boundary.release_settles (h : Handle) :
    let r := (release running h : Action ε Unit) p
    (p.books []).Settles r.trace (r.process.books (p.deferred running r.process)) := by
  intro r
  have hr : r = _ := release_run running h p
  by_cases hnull : h = .null
  · rw [if_pos hnull] at hr
    rw [hr, Process.deferred_of_references_eq rfl]
    exact .refl _
  · rw [if_neg hnull] at hr
    cases hget : p.handles.get? h with
    | none =>
      simp only [hget] at hr
      rw [hr, Process.deferred_of_references_eq rfl]
      exact .of_neutral (by simp [Event.isNeutral]) _
    | some c =>
      have hperm := Process.owners_perm_of_get? hget
      have hnews : ∀ e ∈ [Event.diagnostic (.handleReleased h)], e.isNeutral = true := by
        simp [Event.isNeutral]
      have hgone : ∀ k : Reference, k ∈ p.handles.references ∧
          k ∉ { p with handles := p.handles.erase h }.handles.references ↔ k = ⟨h, c.owner⟩ := by
        rintro ⟨k, owner⟩
        simp only [Registry.mem_references_iff, Registry.get?_erase, Reference.mk.injEq]
        by_cases hk : k = h
        · simp [hk, hget, eq_comm]
        · simp [hk]
      simp only [hget] at hr
      -- The context in use outlives its handle; any other is given up at once.
      by_cases hrunning : running = some ⟨h, c.owner⟩
      · have hdeferred : p.deferred running r.process = [c.owner] := by
          rw [hr, hrunning]
          exact if_pos ((hgone _).2 rfl)
        rw [hdeferred, hr, if_pos hrunning]
        exact (Books.Settles.of_neutral hnews _).of_perm hperm hperm
      · have hdeferred : p.deferred running r.process = [] := by
          rw [hr]
          cases running with
          | none => rfl
          | some k => exact if_neg fun hk ↦ hrunning (congrArg some ((hgone k).1 hk))
        rw [hdeferred, hr, if_neg hrunning]
        have hsorted := (Books.Settles.refl (p.books [])).of_perm hperm hperm
        exact hsorted.trans ((Books.Settles.closing _ _ _ c).trans (.of_neutral hnews _))

theorem Callback.run_settles (c : Callback) :
    let r := (c.run running : Action ε Unit) p
    (p.books []).Settles r.trace (r.process.books (p.deferred running r.process)) := by
  cases c with
  | release h => exact Boundary.release_settles running p h
  | setDefault engine =>
    have hdeferred : p.deferred running { p with defaultEngine := engine } = [] :=
      Process.deferred_of_references_eq rfl running
    simp only [Callback.run, changeDefault, Action.diagnose, Action.bind_run, Action.emit_run,
      Run.andThen_ok, Action.modify_run, Run.after_mk, hdeferred]
    exact .of_neutral (by simp [Event.isNeutral]) _
  | clearOverride =>
    have hdeferred : p.deferred running { p with override? := none } = [] :=
      Process.deferred_of_references_eq rfl running
    simp only [Callback.run, installOverride, Action.modify_run, hdeferred]
    exact .refl _

theorem runCallbacks_settles (cs : List Callback) :
    let r := (runCallbacks running cs : Action ε Unit) p
    (p.books []).Settles r.trace (r.process.books (p.deferred running r.process)) := by
  induction cs generalizing p with
  | nil =>
    have hdeferred := Process.deferred_of_references_eq (p := p) rfl running
    simp only [runCallbacks, Action.pure_run, hdeferred]
    exact .refl _
  | cons c cs ih =>
    rw [runCallbacks_cons]
    have hfirst := c.run_settles (ε := ε) running p
    have hcalled := c.run_called (ε := ε) running p
    generalize (c.run running : Action ε Unit) p = first at hfirst hcalled ⊢
    -- What the first call defers stays in hand while the rest run.
    have hsplit :=
      Process.deferred_trans hcalled (runCallbacks_called (ε := ε) running cs _) running
    have hrest := Process.books_frame (ih first.process) (p.deferred running first.process)
    rw [List.append_nil, ← hsplit] at hrest
    exact hfirst.trans hrest

end Callbacks

namespace Action.Tidy

variable {ε : Type}

theorem runCallbacks (cs : List Callback) :
    Tidy [] (runCallbacks none cs : Action ε Unit) fun _ ↦ [] := by
  intro p
  rw [Outcome.kept_nothing]
  exact runCallbacks_settles none p cs

end Action.Tidy

end AesEcb
