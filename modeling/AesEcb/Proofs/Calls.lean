import AesEcb.Context.Encrypt
import AesEcb.Proofs.Registry

/-!
# What calls leave behind

Equations for the runs of the smaller actions: containment, dropping a reference, releasing a
handle, the calls that outside code makes back into the library, and an encryption in place.
-/

namespace AesEcb

namespace Run

variable {ε α β : Type} {p : Process} {t : Trace}

@[simp] theorem after_nil (r : Run ε α) : r.after [] = r := rfl

@[simp] theorem after_mk (o : Outcome ε α) (t' : Trace) :
    (Run.mk o t p).after t' = ⟨o, t' ++ t, p⟩ := rfl

@[simp] theorem andThen_ok (a : α) (f : α → Action ε β) :
    (Run.mk (.ok a) t p).andThen f = (f a p).after t := rfl

@[simp] theorem andThen_error (e : ε) (f : α → Action ε β) :
    (Run.mk (.error e) t p).andThen f = ⟨.error e, t, p⟩ := rfl

@[simp] theorem andThen_panicked (f : α → Action ε β) :
    (Run.mk .panicked t p).andThen f = ⟨.panicked, t, p⟩ := rfl

theorem andThen_of_ok {r : Run ε α} {a : α} (h : r.outcome = .ok a) (f : α → Action ε β) :
    r.andThen f = (f a r.process).after r.trace := by
  simp only [andThen, h]

theorem andThen_of_panicked {r : Run ε α} (h : r.outcome = .panicked) (f : α → Action ε β) :
    (r.andThen f).outcome = .panicked := by
  simp only [andThen, h]

theorem ofExcept_andThen (x : Except ε α) (f : α → Action ε β) :
    (Action.ofExcept x p).andThen f =
      match x with
      | .ok a => f a p
      | .error e => ⟨.error e, [], p⟩ := by
  cases x with
  | ok a => rfl
  | error e => rfl

end Run

/-- An action that cannot fail gives a value or panics. -/
theorem Action.ofInfallible_run {ε α : Type} (x : Action Empty α) (p : Process) :
    (ofInfallible x : Action ε α) p =
      match (x p).outcome with
      | .ok a => ⟨.ok a, (x p).trace, (x p).process⟩
      | .panicked => ⟨.panicked, (x p).trace, (x p).process⟩ := by
  rw [ofInfallible, mapError, Run.mapOutcome]
  cases (x p).outcome with
  | ok a => rfl
  | error e => exact e.elim
  | panicked => rfl

/-- The value, or `failure` where there is none. -/
def Outcome.getD {ε α : Type} (failure : α) : Outcome ε α → α
  | ok a => a
  | _ => failure

namespace Boundary

variable {ε α : Type}

/-- The warning that a call through a handle gives when it ends. -/
def warning (operation : Operation) : Outcome BoundaryError α → Trace
  | .ok _ => []
  | .error e => [.diagnostic (.callFailed operation e)]
  | .panicked => [.diagnostic (.panicContained operation)]

theorem contained_eq (operation : Operation) (failure : α) (r : Run BoundaryError α) :
    (r.contained operation failure : Run ε α) =
      ⟨.ok (r.outcome.getD failure), r.trace ++ warning operation r.outcome, r.process⟩ := by
  rw [Run.contained, Run.followedBy, Run.mapOutcome]
  cases r.outcome with
  | ok a => rfl
  | error e => rfl
  | panicked => rfl

theorem contain_run (operation : Operation) (failure : α) (body : Action BoundaryError α)
    (p : Process) :
    (contain operation failure body : Action ε α) p =
      ⟨.ok ((body p).outcome.getD failure),
        (body p).trace ++ warning operation (body p).outcome, (body p).process⟩ :=
  contained_eq operation failure (body p)

end Boundary

theorem Registry.mem_references_iff {t : Registry Context} {r : Reference} :
    r ∈ t.references ↔ (t.get? r.handle).map Context.owner = some r.owner := by
  rw [references, List.mem_map, Option.map_eq_some_iff]
  constructor
  · rintro ⟨⟨k, c⟩, hmem, rfl⟩
    exact ⟨c, get?_eq_some_iff.2 hmem, rfl⟩
  · rintro ⟨c, hget, howner⟩
    exact ⟨_, get?_eq_some_iff.1 hget, congrArg (Reference.mk r.handle) howner⟩

namespace Process

variable {p : Process} {h : Handle}

/-- When no call is running that uses a context, only the registry can refer to it. -/
theorem dropped_none (p : Process) (h : Handle) (c : Context) :
    p.dropped none h c = if ⟨h, c.owner⟩ ∈ p.handles.references then [] else c.teardown := by
  simp only [dropped, referenceCount, Option.toList, List.append_nil, List.count_eq_zero, ite_not]

/-- Only a running call can refer to a context whose handle is gone. -/
theorem dropped_of_get?_none (hget : p.handles.get? h = none) (running : Option Reference)
    (c : Context) :
    p.dropped running h c = if running = some ⟨h, c.owner⟩ then [] else c.teardown := by
  have hunbound : ⟨h, c.owner⟩ ∉ p.handles.references := by
    rw [Registry.mem_references_iff, hget]
    nofun
  rw [dropped, referenceCount, List.count_append, List.count_eq_zero.2 hunbound, Nat.zero_add]
  cases running with
  | none => rfl
  | some r =>
    by_cases hr : r = ⟨h, c.owner⟩
    · simp [hr]
    · simp [hr, Option.toList]

end Process

namespace Boundary

variable {ε : Type}

theorem release_run (running : Option Reference) (h : Handle) (p : Process) :
    (release running h : Action ε Unit) p =
      if h = .null then ⟨.ok (), [], p⟩
      else match p.handles.get? h with
        | none => ⟨.ok (), [.diagnostic (.callFailed .release .invalidHandle)], p⟩
        | some c =>
          ⟨.ok (), (if running = some ⟨h, c.owner⟩ then [] else c.teardown) ++
              [.diagnostic (.handleReleased h)],
            { p with handles := p.handles.erase h }⟩ := by
  rw [release, contain_run]
  by_cases hnull : h = .null
  · simp [hnull, Handle.isNull_iff, Outcome.getD, warning]
  · have hfalse : h.isNull = false := by simpa [← Handle.isNull_iff] using hnull
    cases hget : p.handles.get? h with
    | none => simp [hnull, hfalse, Registry.remove, hget, Outcome.getD, warning, Action.fail]
    | some c =>
      have hdropped := Process.dropped_of_get?_none (p := { p with handles := p.handles.erase h })
        (p.handles.get?_erase_self h) running c
      simp [hnull, hfalse, Registry.remove, hget, Outcome.getD, warning, Action.diagnose, hdropped]

theorem release_lookup {p : Process} (hfree : p.handles.get? .null = none) (h : Handle) :
    let r := (release none h : Action ε Unit) p
    r.outcome = .ok () ∧ r.process.memory = p.memory ∧ r.process.override? = p.override? ∧
      r.process.handles.nextId = p.handles.nextId ∧
      ∀ k, r.process.handles.get? k = if k = h then none else p.handles.get? k := by
  intro r
  have hr : r = _ := release_run none h p
  have hunbound : p.handles.get? h = none →
      ∀ k, p.handles.get? k = if k = h then none else p.handles.get? k := by
    intro hget k
    by_cases hk : k = h
    · rw [if_pos hk, hk, hget]
    · rw [if_neg hk]
  by_cases hnull : h = .null
  · rw [if_pos hnull] at hr
    rw [hr]
    exact ⟨rfl, rfl, rfl, rfl, hunbound (hnull ▸ hfree)⟩
  · rw [if_neg hnull] at hr
    cases hget : p.handles.get? h with
    | none =>
      simp only [hget] at hr
      rw [hr]
      exact ⟨rfl, rfl, rfl, rfl, hunbound hget⟩
    | some c =>
      simp only [hget] at hr
      rw [hr]
      refine ⟨rfl, rfl, rfl, rfl, ?_⟩
      intro k
      by_cases hk : k = h
      · rw [if_pos hk, hk, Registry.get?_erase_self]
      · rw [if_neg hk, Registry.get?_erase_of_ne _ hk]

end Boundary

section Callbacks

variable {ε : Type}

theorem Callback.run_ok (running : Option Reference) (c : Callback) (p : Process) :
    ((c.run running : Action ε Unit) p).outcome = .ok () ∧
      ((c.run running : Action ε Unit) p).process.memory = p.memory := by
  cases c with
  | release h =>
    rw [Callback.run, Boundary.release_run]
    split
    · exact ⟨rfl, rfl⟩
    · split
      · exact ⟨rfl, rfl⟩
      · exact ⟨rfl, rfl⟩
  | setDefault engine => exact ⟨rfl, rfl⟩
  | clearOverride => exact ⟨rfl, rfl⟩

theorem runCallbacks_cons (running : Option Reference) (c : Callback) (cs : List Callback)
    (p : Process) :
    (runCallbacks running (c :: cs) : Action ε Unit) p =
      ((runCallbacks running cs : Action ε Unit) ((c.run running : Action ε Unit) p).process).after
        ((c.run running : Action ε Unit) p).trace :=
  Run.andThen_of_ok (c.run_ok running p).1 fun _ ↦ runCallbacks running cs

/-- Calls back into the library never fail and never touch the caller's memory. -/
theorem runCallbacks_ok (running : Option Reference) (cs : List Callback) (p : Process) :
    ((runCallbacks running cs : Action ε Unit) p).outcome = .ok () ∧
      ((runCallbacks running cs : Action ε Unit) p).process.memory = p.memory := by
  induction cs generalizing p with
  | nil => exact ⟨rfl, rfl⟩
  | cons c cs ih =>
    obtain ⟨hok, hmemory⟩ := ih ((c.run running : Action ε Unit) p).process
    rw [runCallbacks_cons]
    exact ⟨hok, hmemory.trans (c.run_ok running p).2⟩

theorem Context.encryptInPlace_run (running : Option Reference) (c : Context) (data : Bytes)
    (p : Process) :
    (c.encryptInPlace running data : Action ε Encryption) p =
      ⟨.ok ⟨(c.key.transform data).left, (c.key.transform data).outcome⟩,
        [.diagnostic (.encrypting data.length), .crossing (.transformAsked c.owner data)] ++
          ((runCallbacks running (c.key.transform data).callbacks : Action ε Unit) p).trace,
        ((runCallbacks running (c.key.transform data).callbacks : Action ε Unit) p).process⟩ := by
  have hok := (runCallbacks_ok (ε := ε) running (c.key.transform data).callbacks p).1
  simp [Context.encryptInPlace, Action.diagnose, Action.cross, Run.andThen_of_ok hok]

end Callbacks

/-! An encryption is refused, or it is one in place with its result put elsewhere. -/
section EncryptionInduction

variable {ε : Type} {c : Context} {P : Action ε Encryption → Prop}

theorem Context.encrypt_induction (input output : Bytes) (hrefused : ∀ e, P (pure e))
    (hplace : ∀ data, P (c.encryptInPlace none data))
    (hresult : ∀ x (f : Encryption → Encryption), P x → P (x >>= fun e ↦ pure (f e))) :
    P (c.encrypt input output) := by
  simp only [encrypt, Encryption.afterCheck]
  split
  · exact hrefused _
  · cases checkAligned input.length with
    | error e => exact hrefused _
    | ok => exact hresult _ _ (hplace input)

theorem Context.encryptRegion_induction (input : Bytes) (inOffset length : Nat) (output : Bytes)
    (outOffset : Nat) (hrefused : ∀ e, P (pure e))
    (hplace : ∀ data, P (c.encryptInPlace none data))
    (hresult : ∀ x (f : Encryption → Encryption), P x → P (x >>= fun e ↦ pure (f e))) :
    P (c.encryptRegion input inOffset length output outOffset) := by
  simp only [encryptRegion, Encryption.afterCheck]
  cases (Region.mk inOffset length).slice input with
  | error e => exact hrefused _
  | ok source =>
    cases (Region.mk outOffset length).slice output with
    | error e => exact hrefused _
    | ok old => exact hresult _ _ (encrypt_induction source old hrefused hplace hresult)

end EncryptionInduction

end AesEcb
