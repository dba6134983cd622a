import AesEcb.Boundary.Contain
import AesEcb.Proofs.Registry
import Mathlib.Data.List.Forall2
import Mathlib.Data.Option.Defs

/-!
# Processes that differ in bytes only

Two keys are alike when what they do cannot be told apart but by the bytes they leave, and two
processes are when the same handles are bound to keys that are alike and buffers have the same
lengths.  Actions that are alike lead from such processes to such processes, with traces that differ
in bytes only.
-/

namespace AesEcb

/-! Traces without the bytes they carry. -/
section Blanked

def Bytes.SameLength (data data' : Bytes) : Prop := data.length = data'.length

def Bytes.blanked (data : Bytes) : Bytes := List.replicate data.length 0

theorem Bytes.blanked_eq_iff {data data' : Bytes} :
    data.blanked = data'.blanked ↔ data.SameLength data' := by
  simp [blanked, SameLength, List.replicate_inj]

/-- The crossing with zeros in the place of the bytes that it carries. -/
def Crossing.blanked : Crossing → Crossing
  | overrideAsked key engine => overrideAsked key.blanked engine
  | importAsked owner key => importAsked owner key.blanked
  | transformAsked owner data => transformAsked owner data.blanked
  | c => c

def Event.blanked : Event → Event
  | diagnostic d => diagnostic d
  | crossing c => crossing c.blanked

def Trace.blanked (t : Trace) : Trace := t.map Event.blanked

theorem Trace.blanked_append (t u : Trace) : blanked (t ++ u) = t.blanked ++ u.blanked :=
  List.map_append

end Blanked

/-- The two end the same way, with values that are related if they succeed. -/
inductive Outcome.Alike {ε α β : Type} (R : α → β → Prop) : Outcome ε α → Outcome ε β → Prop
  | ok {a : α} {b : β} (h : R a b) : Alike R (ok a) (ok b)
  | error (e : ε) : Alike R (error e) (error e)
  | panicked : Alike R panicked panicked

theorem Outcome.Alike.map {ε α α' β β' : Type} {R : α → β → Prop} {S : α' → β' → Prop}
    {o : Outcome ε α} {o' : Outcome ε β} (h : o.Alike R o') {f : α → α'} {g : β → β'}
    (hf : ∀ a b, R a b → S (f a) (g b)) : (o.map f).Alike S (o'.map g) := by
  cases h with
  | ok hab => exact .ok (hf _ _ hab)
  | error e => exact .error e
  | panicked => exact .panicked

theorem Outcome.Alike.refl {ε α : Type} (o : Outcome ε α) : o.Alike Eq o := by
  cases o with
  | ok a => exact .ok rfl
  | error e => exact .error e
  | panicked => exact .panicked

theorem Outcome.Alike.ofExcept_cases {ε α β : Type} {R : α → β → Prop} {x : Except ε α}
    {x' : Except ε β} (h : (ofExcept x).Alike R (ofExcept x')) :
    (∃ e, x = .error e ∧ x' = .error e) ∨ ∃ a b, x = .ok a ∧ x' = .ok b ∧ R a b := by
  cases x with
  | error e =>
    cases x' with
    | error e' =>
      cases h
      exact .inl ⟨e, rfl, rfl⟩
    | ok b => cases h
  | ok a =>
    cases x' with
    | error e' => cases h
    | ok b =>
      cases h with
      | ok hab => exact .inr ⟨a, b, rfl, rfl, hab⟩

theorem Outcome.Alike.mapError_ofExcept {ε ε' α β : Type} {R : α → β → Prop} {x : Except ε α}
    {x' : Except ε β} (h : (ofExcept x).Alike R (ofExcept x')) (f : ε → ε') :
    (ofExcept (x.mapError f)).Alike R (ofExcept (x'.mapError f)) := by
  rcases h.ofExcept_cases with ⟨e, rfl, rfl⟩ | ⟨a, b, rfl, rfl, hab⟩
  · exact .error _
  · exact .ok hab

/-- On buffers of the same length the two make the same calls and end the same way. -/
structure ImportedKey.Alike (k k' : ImportedKey) : Prop where
  size_eq : k.size = k'.size
  callbacks_eq : ∀ data data', data.SameLength data' →
    (k.transform data).callbacks = (k'.transform data').callbacks
  outcome_eq : ∀ data data', data.SameLength data' →
    (k.transform data).outcome = (k'.transform data').outcome

structure Context.Alike (c c' : Context) : Prop where
  owner_eq : c.owner = c'.owner
  key : c.key.Alike c'.key

theorem Context.Alike.teardown_eq {c c' : Context} (hc : c.Alike c') :
    c.teardown = c'.teardown := by
  rw [teardown, teardown, providerName, providerName, hc.owner_eq]

structure Reaction.Alike {α β : Type} (R : α → β → Prop) (r : Reaction α) (r' : Reaction β) :
    Prop where
  callbacks_eq : r.callbacks = r'.callbacks
  outcome : r.outcome.Alike R r'.outcome

/-- What the provider makes of a key shows nothing of the key but its length. -/
def Provider.Blind : Provider → Prop
  | builtIn _ => True
  | foreign _ onImport =>
    ∀ key key' : Bytes, key.SameLength key' → (onImport key).Alike ImportedKey.Alike (onImport key')

/-- The same deed, but that a key may be another one of the same length. -/
inductive Deed.Alike : Deed → Deed → Prop
  | call (c : Callback) : Alike (call c) (call c)
  | opens {provider : Provider} {key key' : Bytes} (hblind : provider.Blind)
      (hlength : key.SameLength key') : Alike (opens provider key) (opens provider key')
  | drops (place : Nat) : Alike (drops place) (drops place)

structure OverrideReaction.Alike (r r' : OverrideReaction) : Prop where
  deeds : List.Forall₂ Deed.Alike r.deeds r'.deeds
  answer_eq : r.answer = r'.answer

/-- What the override makes of a request shows nothing of the key but its length. -/
def Override.Blind (o : Override) : Prop :=
  ∀ (key key' : Bytes) (engine : Engine), key.SameLength key' →
    (o.react key engine).Alike (o.react key' engine)

/-- The same handles are bound, to contexts that are alike. -/
structure Registry.Alike (t t' : Registry Context) : Prop where
  nextId_eq : t.nextId = t'.nextId
  entries : List.Forall₂ (fun e e' ↦ e.1 = e'.1 ∧ e.2.Alike e'.2) t.entries t'.entries

namespace Registry.Alike

variable {t t' : Registry Context} {c c' : Context}

theorem keys_eq (h : t.Alike t') : t.keys = t'.keys := by
  rw [keys, keys, ← List.forall₂_eq_eq_eq, List.forall₂_map_left_iff, List.forall₂_map_right_iff]
  exact h.entries.imp fun _ _ he ↦ he.1

theorem fresh?_eq (h : t.Alike t') : t.fresh? = t'.fresh? := by
  -- The search for a fresh handle looks at the counter and at the handles, not at contexts.
  have hcandidate : t.candidate = t'.candidate := by
    funext k
    rw [candidate, candidate, h.nextId_eq]
  have hfree : ∀ k, t.IsFree k ↔ t'.IsFree k := by
    intro k
    rw [IsFree, IsFree, h.keys_eq]
  have hsize : t.size = t'.size := h.entries.length_eq
  simp only [fresh?, hcandidate, hfree, hsize]

theorem references_eq (h : t.Alike t') : t.references = t'.references := by
  rw [references, references, ← List.forall₂_eq_eq_eq, List.forall₂_map_left_iff,
    List.forall₂_map_right_iff]
  refine h.entries.imp ?_
  rintro ⟨k, c⟩ ⟨k', c'⟩ ⟨hk, hc⟩
  exact congrArg₂ Reference.mk hk hc.owner_eq

theorem get? (h : t.Alike t') (k : Handle) : Option.Rel Context.Alike (t.get? k) (t'.get? k) := by
  obtain ⟨-, hentries⟩ := h
  rw [Registry.get?, Registry.get?]
  generalize t.entries = entries, t'.entries = entries' at hentries
  induction hentries with
  | nil => exact .none
  | @cons e e' _ _ he _ ih =>
    obtain ⟨hhandle, hcontext⟩ := he
    rw [List.find?_cons, List.find?_cons, ← hhandle]
    cases decide (e.1 = k) with
    | true => exact .some hcontext
    | false => exact ih

theorem erase (h : t.Alike t') (k : Handle) : (t.erase k).Alike (t'.erase k) := by
  refine ⟨h.nextId_eq, List.rel_filter ?_ h.entries⟩
  rintro e e' ⟨hhandle, -⟩
  simp only [hhandle]

theorem insert? (h : t.Alike t') (hc : c.Alike c') :
    Option.Rel (fun r r' ↦ r.1 = r'.1 ∧ r.2.Alike r'.2) (t.insert? c) (t'.insert? c') := by
  have hfresh := h.fresh?_eq
  cases hins : t.insert? c with
  | none =>
    rw [insert?_eq_none_iff, hfresh] at hins
    rw [insert?_eq_none_iff.2 hins]
    exact .none
  | some r =>
    cases hins' : t'.insert? c' with
    | none =>
      rw [insert?_eq_none_iff, ← hfresh, ← insert?_eq_none_iff (a := c), hins] at hins'
      cases hins'
    | some r' =>
      obtain ⟨k, u⟩ := r
      obtain ⟨k', u'⟩ := r'
      obtain ⟨hk, hu, hnext⟩ := insert?_eq_some_iff.1 hins
      obtain ⟨hk', hu', hnext'⟩ := insert?_eq_some_iff.1 hins'
      obtain rfl : k = k' := Option.some.inj (hk.symm.trans (hfresh.trans hk'))
      refine .some ⟨rfl, hnext.trans hnext'.symm, ?_⟩
      rw [hu, hu']
      exact .cons ⟨rfl, hc⟩ h.entries

end Registry.Alike

/-- The two differ in the bytes of buffers and keys only. -/
structure Process.Alike (p p' : Process) : Prop where
  override_eq : p.override? = p'.override?
  blind : ∀ o, p.override? = some o → o.Blind
  engine_eq : p.defaultEngine = p'.defaultEngine
  handles : p.handles.Alike p'.handles
  lengths : ∀ name, (p.memory name).SameLength (p'.memory name)
  serial_eq : p.nextSerial = p'.nextSerial

theorem Process.Alike.length_write {p p' : Process} (hp : p.Alike p') (name : String)
    {data data' : Bytes} (h : data.SameLength data') (other : String) :
    (p.memory.write name data other).SameLength (p'.memory.write name data' other) := by
  by_cases hother : other = name
  · rw [hother, Memory.write_self, Memory.write_self]
    exact h
  · rw [Memory.write_of_ne _ _ hother, Memory.write_of_ne _ _ hother]
    exact hp.lengths other

theorem Process.Alike.dropped_eq {p p' : Process} (hp : p.Alike p') {c c' : Context}
    (hc : c.Alike c') (running : Option Reference) (h : Handle) :
    p.dropped running h c = p'.dropped running h c' := by
  rw [dropped, dropped, referenceCount, referenceCount, hp.handles.references_eq, hc.owner_eq,
    hc.teardown_eq]

structure Run.Alike {ε α β : Type} (R : α → β → Prop) (r : Run ε α) (r' : Run ε β) : Prop where
  outcome : r.outcome.Alike R r'.outcome
  trace_eq : r.trace.blanked = r'.trace.blanked
  process : r.process.Alike r'.process

/-- From processes that are alike the two lead to such processes, and to related values. -/
def Action.Alike {ε α β : Type} (R : α → β → Prop) (x : Action ε α) (y : Action ε β) : Prop :=
  ∀ p p' : Process, p.Alike p' → (x p).Alike R (y p')

namespace Action.Alike

variable {ε ε' α α' β β' : Type} {R : α → β → Prop} {S : α' → β' → Prop} {x : Action ε α}
  {y : Action ε β}

theorem finish {o : Outcome ε α} {o' : Outcome ε β} (h : o.Alike R o') :
    Alike R (finish o) (finish o') :=
  fun _ _ hp ↦ ⟨h, rfl, hp⟩

theorem pure {a : α} {b : β} (h : R a b) : Alike R (pure a : Action ε α) (pure b) :=
  finish (.ok h)

theorem state : Alike Process.Alike (state : Action ε Process) state :=
  fun _ _ hp ↦ ⟨.ok hp, rfl, hp⟩

theorem emit {t t' : Trace} (h : t.blanked = t'.blanked) :
    Alike Eq (emit t : Action ε Unit) (emit t') :=
  fun _ _ hp ↦ ⟨.ok rfl, h, hp⟩

theorem cross {c c' : Crossing} (h : c.blanked = c'.blanked) :
    Alike Eq (cross c : Action ε Unit) (cross c') :=
  emit (congrArg (fun c ↦ [Event.crossing c]) h)

theorem diagnose (d : Diagnostic) : Alike Eq (diagnose d : Action ε Unit) (diagnose d) :=
  emit rfl

theorem modify {f g : Process → Process} (h : ∀ p p', p.Alike p' → (f p).Alike (g p')) :
    Alike Eq (modify f : Action ε Unit) (modify g) :=
  fun _ _ hp ↦ ⟨.ok rfl, rfl, h _ _ hp⟩

theorem bind {f : α → Action ε α'} {g : β → Action ε β'} (hx : Alike R x y)
    (hf : ∀ a b, R a b → Alike S (f a) (g b)) : Alike S (x >>= f) (y >>= g) := by
  intro p p' hp
  obtain ⟨houtcome, htrace, hprocess⟩ := hx p p' hp
  simp only [bind_run, Run.andThen]
  generalize (x p).outcome = o, (y p').outcome = o' at houtcome
  cases houtcome with
  | ok hab =>
    obtain ⟨houtcome', htrace', hprocess'⟩ := hf _ _ hab _ _ hprocess
    refine ⟨houtcome', ?_, hprocess'⟩
    simp only [Run.after, Trace.blanked_append, htrace, htrace']
  | error e => exact ⟨.error e, htrace, hprocess⟩
  | panicked => exact ⟨.panicked, htrace, hprocess⟩

theorem mapOutcome {f : Outcome ε α → Outcome ε' α'} {g : Outcome ε β → Outcome ε' β'}
    (hx : Alike R x y) (hf : ∀ o o', Outcome.Alike R o o' → (f o).Alike S (g o')) :
    Alike S (fun p ↦ (x p).mapOutcome f) fun p ↦ (y p).mapOutcome g := by
  intro p p' hp
  obtain ⟨houtcome, htrace, hprocess⟩ := hx p p' hp
  exact ⟨hf _ _ houtcome, htrace, hprocess⟩

theorem mapError (f : ε → ε') (hx : Alike R x y) : Alike R (x.mapError f) (y.mapError f) := by
  apply hx.mapOutcome
  intro o o' ho
  cases ho with
  | ok hab => exact .ok hab
  | error e => exact .error (f e)
  | panicked => exact .panicked

theorem orNone (hx : Alike R x y) :
    Alike (Option.Rel R) (x.orNone : Action ε' (Option α)) y.orNone := by
  apply hx.mapOutcome
  intro o o' ho
  cases ho with
  | ok hab => exact .ok (.some hab)
  | error e => exact .ok .none
  | panicked => exact .panicked

theorem atExit {last : Outcome ε α → Process → Trace} {last' : Outcome ε β → Process → Trace}
    (hx : Alike R x y) (hlast : ∀ o o' p p', Outcome.Alike R o o' → p.Alike p' →
      (last o p).blanked = (last' o' p').blanked) : Alike R (x.atExit last) (y.atExit last') := by
  intro p p' hp
  obtain ⟨houtcome, htrace, hprocess⟩ := hx p p' hp
  refine ⟨houtcome, ?_, hprocess⟩
  simp only [Action.atExit, Run.followedBy, Trace.blanked_append, htrace,
    hlast _ _ _ _ houtcome hprocess]

end Action.Alike

end AesEcb
