import AesEcb.Proofs.Acquisition
import AesEcb.Proofs.Steps
import AesEcb.Provider.Scripted

/-!
# The resources of a session

A session owns the contexts in its slots and those in the registry, and with each of them one
provider and one key.  Every step settles the books of what is owned, and so does every run.
-/

namespace AesEcb

namespace Session

def slotOwners (s : Session) : List Instance := (s.slots.filterMap id).map Context.owner

/-- The live contexts, in slots and behind handles, each as often as it occurs. -/
def contexts (s : Session) : List Context :=
  s.slots.filterMap id ++ s.process.handles.entries.map Prod.snd

def owners (s : Session) : List Instance := s.contexts.map Context.owner

def books (s : Session) : Books where
  providers := s.owners
  keys := s.owners
  serial := s.process.nextSerial

def history [LinkedCipher] (s : Session) (steps : List Step) : Trace :=
  (s.run steps).flatMap Result.trace

/-- The session `s` that the trace `t` led to owns what came in and was not destroyed. -/
structure Balanced (s : Session) (t : Trace) : Prop where
  received : ∀ i, t.count (.crossing (.providerReceived i)) ≤ 1
  provider : ∀ i, .crossing (.providerReceived i) ∈ t →
    (t.count (.crossing (.providerDestroyed i)) = 1 ∧ i ∉ s.owners) ∨
      (.crossing (.providerDestroyed i) ∉ t ∧ s.owners.count i = 1)
  key : ∀ i, .crossing (.keyReceived i) ∈ t →
    (t.count (.crossing (.keyDestroyed i)) = 1 ∧ i ∉ s.owners) ∨
      (.crossing (.keyDestroyed i) ∉ t ∧ s.owners.count i = 1)
  alive : t.countP Event.opens = t.countP Event.closes + s.contexts.length
  /-- The events that end a context directly follow one another and none of them comes twice. -/
  destroyed : ∀ i, .crossing (.keyDestroyed i) ∈ t → ∃ before after,
    t = before ++ [.diagnostic (.contextClosed i.name), .crossing (.keyDestroyed i),
      .crossing (.providerDestroyed i)] ++ after ∧
    ∀ e ∈ before ++ after, e ≠ .crossing (.keyDestroyed i) ∧ e ≠ .crossing (.providerDestroyed i)
  opened : ∀ before name size after, t = before ++ .diagnostic (.contextOpened name size) :: after →
    ∃ i rest, i.name = name ∧ before = rest ++ [.crossing (.keyReceived i)]
  closed : ∀ before name after, t = before ++ .diagnostic (.contextClosed name) :: after →
    ∃ i rest, i.name = name ∧
      after = .crossing (.keyDestroyed i) :: .crossing (.providerDestroyed i) :: rest

/-- The provider `i` came in during the step, which gave it up again without having got its key. -/
structure Result.Refuses (r : Result) (i : Instance) : Prop where
  provider : r.trace.count (.crossing (.providerDestroyed i)) = 1
  key : .crossing (.keyDestroyed i) ∉ r.trace
  owners : i ∉ r.session.owners
  /-- A context that is opened or closed in the same step is another one. -/
  opened : ∀ before name size after,
    r.trace = before ++ .diagnostic (.contextOpened name size) :: after →
    ∃ j rest, j ≠ i ∧ before = rest ++ [.crossing (.keyReceived j)]
  closed : ∀ before name after, r.trace = before ++ .diagnostic (.contextClosed name) :: after →
    ∃ j rest, j ≠ i ∧
      after = .crossing (.keyDestroyed j) :: .crossing (.providerDestroyed j) :: rest

variable {s : Session} {t : Trace} {α : Type} {i : Instance}

theorem books_eq (s : Session) : s.books = s.process.books s.slotOwners := by
  simp only [books, owners, contexts, List.map_append, List.map_map]
  rfl

theorem conclude_settles {r : Run CipherError α}
    (hr : (s.process.books []).Settles r.trace (r.process.books [])) (reply : α → Reply) :
    s.books.Settles (s.conclude r reply).trace (s.conclude r reply).session.books := by
  have hsettles := Process.books_frame hr s.slotOwners
  rw [List.append_nil] at hsettles
  rw [books_eq, books_eq]
  exact hsettles

theorem perform_settles {x : Action CipherError α} (hx : Action.Tidy [] x fun _ ↦ [])
    (reply : α → Reply) :
    s.books.Settles (s.perform x reply).trace (s.perform x reply).session.books := by
  have hsettles := hx s.process
  rw [Outcome.kept_nothing] at hsettles
  exact conclude_settles hsettles reply

theorem openSlot_settles {x : Action CipherError Context}
    (hx : Action.Tidy [] x fun c ↦ [c.owner]) :
    s.books.Settles (s.openSlot x).trace (s.openSlot x).session.books := by
  have hsettles := Process.books_frame (hx s.process) s.slotOwners
  rw [List.append_nil, ← books_eq] at hsettles
  by_cases hok : ∃ c, (x s.process).outcome = .ok c
  · obtain ⟨c, hc⟩ := hok
    have howners : ∀ p, slotOwners ⟨p, s.slots ++ [some c]⟩ = s.slotOwners ++ [c.owner] := by
      simp [slotOwners]
    rw [hc, Outcome.kept] at hsettles
    have hrun : x s.process = ⟨.ok c, (x s.process).trace, (x s.process).process⟩ := by rw [← hc]
    rw [openSlot_of_ok hrun]
    rw [books_eq ⟨_, s.slots ++ [some c]⟩, howners]
    exact hsettles
  · have hfailed : (x s.process).outcome.kept (fun c ↦ [c.owner]) = [] := by
      cases hrun : (x s.process).outcome with
      | ok c => exact absurd ⟨c, hrun⟩ hok
      | error e => rfl
      | panicked => rfl
    rw [hfailed, List.append_nil] at hsettles
    obtain ⟨htrace, hsession⟩ := openSlot_of_not_ok (not_exists.1 hok)
    have hbooks : { s with process := (x s.process).process }.books =
        (x s.process).process.books s.slotOwners :=
      books_eq _
    rw [htrace, hsession, hbooks]
    exact hsettles

theorem useSlot_settles {x : Context → Action CipherError Encryption}
    (hx : ∀ c, Action.Tidy [] (x c) fun _ ↦ []) (slot : Nat) (output : String) :
    s.books.Settles (s.useSlot slot output x).trace (s.useSlot slot output x).session.books := by
  rw [useSlot]
  cases s.context? slot with
  | none => exact .refl _
  | some c =>
    apply perform_settles
    apply Action.Tidy.bind (hx c)
    intro e
    refine Action.Tidy.bind (Action.Tidy.modify ?_ ?_) ?_
    · exact fun _ ↦ rfl
    · exact fun _ ↦ rfl
    · exact fun _ ↦ Action.Tidy.finish_nothing _

theorem slots_perm_of_context? {slot : Nat} {c : Context} (hc : s.context? slot = some c) :
    (s.slots.filterMap id).Perm (c :: (s.slots.set slot none).filterMap id) := by
  have hget : s.slots[slot]? = some (some c) := Option.join_eq_some_iff.1 hc
  obtain ⟨hlt, hslot⟩ := List.getElem?_eq_some_iff.1 hget
  have hsplit : s.slots = s.slots.take slot ++ some c :: s.slots.drop (slot + 1) := by
    rw [← hslot, List.cons_getElem_drop_succ, List.take_append_drop]
  rw [List.set_eq_take_append_cons_drop, if_pos hlt, List.filterMap_append]
  conv_lhs => rw [hsplit, List.filterMap_append]
  exact List.perm_middle

theorem release_settles {slot : Nat} {c : Context} (hc : s.context? slot = some c) :
    s.books.Settles c.teardown { s with slots := s.slots.set slot none }.books := by
  have hperm : s.owners.Perm (c.owner :: { s with slots := s.slots.set slot none }.owners) :=
    ((slots_perm_of_context? hc).append_right _).map Context.owner
  have hsorted := (Books.Settles.refl s.books).of_perm hperm hperm
  exact hsorted.trans (.closing _ _ _ c)

variable [LinkedCipher]

theorem step_settles (s : Session) (x : Step) :
    s.books.Settles (s.step x).trace (s.step x).session.books := by
  cases x with
  | openKey key => exact openSlot_settles (Context.ofConfig_tidy _ _ _ _)
  | openRegion key offset length => exact openSlot_settles (Context.ofConfig_tidy _ _ _ _)
  | openOn config key offset length => exact openSlot_settles (Context.ofConfig_tidy _ _ _ _)
  | openWith provider key => exact openSlot_settles (Context.ofProvider_tidy _ _)
  | request key offset length => exact openSlot_settles (Factory.request_tidy _ _ _)
  | encryptRegion slot input inOffset length output outOffset =>
    exact useSlot_settles (fun c ↦ c.encryptRegion_tidy _ _ _ _ _) _ _
  | encrypt slot input output => exact useSlot_settles (fun c ↦ c.encrypt_tidy _ _) _ _
  | encryptInPlace slot output => exact useSlot_settles (fun c ↦ c.encryptInPlace_tidy _) _ _
  | release slot =>
    simp only [step]
    cases hc : s.context? slot with
    | none => exact .refl _
    | some c => exact release_settles hc
  | setDefault engine =>
    apply perform_settles
    apply Action.Tidy.bind (Action.Tidy.emit (by simp [Event.isNeutral]))
    rintro ⟨⟩
    exact Action.Tidy.modify (fun _ ↦ rfl) fun _ ↦ rfl
  | setOverride o =>
    apply perform_settles
    exact Action.Tidy.modify (fun _ ↦ rfl) fun _ ↦ rfl
  | getDefault => exact perform_settles Action.Tidy.state _
  | handleCreate key offset length =>
    simp only [step]
    cases hcreate : Boundary.create key offset length s.process with
    | none => exact .refl _
    | some r => exact conclude_settles (Boundary.create_settles hcreate) _
  | handleEncrypt h input inOffset length output outOffset =>
    exact perform_settles (Boundary.encrypt_tidy _ _ _ _ _ _) _
  | handleRelease h => exact perform_settles (Boundary.release_tidy _) _

/-- Whatever a run does, it settles the books. -/
theorem after_settles (s : Session) (steps : List Step) :
    s.books.Settles (s.history steps) (s.after steps).books := by
  induction steps generalizing s with
  | nil => exact .refl _
  | cons x xs ih =>
    simp only [history, run, after]
    by_cases hends : (s.step x).reply.ends = true
    · rw [if_pos hends, if_pos hends, List.flatMap_cons]
      exact (s.step_settles x).trans (ih _)
    · rw [if_neg hends, if_neg hends]
      exact .refl _

omit [LinkedCipher] in
/-- Serial numbers are given out once. -/
theorem count_received_le_one (h : Books.Settles ⟨[], [], 0⟩ t s.books) (i : Instance) :
    t.count (.crossing (.providerReceived i)) ≤ 1 := by
  obtain ⟨n, -, hserials⟩ := h.serials
  have hnodup : (t.filterMap Event.serial?).Nodup := hserials ▸ List.nodup_range'
  calc t.count (.crossing (.providerReceived i))
      ≤ (t.filterMap Event.serial?).count i.serial := by
        rw [List.count, List.count, List.countP_filterMap]
        apply List.countP_mono_left
        intro e _ he
        obtain rfl := eq_of_beq he
        simp [Event.serial?]
    _ ≤ 1 := List.nodup_iff_count_le_one.1 hnodup _

omit [LinkedCipher] in
theorem notMem_of_count_le_one {before block after : Trace} {e : Event} (he : e ∈ block)
    (hcount : (before ++ block ++ after).count e ≤ 1) : e ∉ before ++ after := by
  have hpos := List.count_pos_iff.2 he
  rw [List.count_append, List.count_append] at hcount
  rw [← List.count_eq_zero, List.count_append]
  omega

omit [LinkedCipher] in
theorem balanced_of_settles (h : Books.Settles ⟨[], [], 0⟩ t s.books) : s.Balanced t := by
  have hproviders : ∀ i, t.count (.crossing (.providerReceived i)) =
      s.owners.count i + t.count (.crossing (.providerDestroyed i)) := by
    intro i
    simpa [books] using h.providers i
  have hkeys : ∀ i, t.count (.crossing (.keyReceived i)) =
      s.owners.count i + t.count (.crossing (.keyDestroyed i)) := by
    intro i
    simpa [books] using h.keys i
  have honce := count_received_le_one h
  -- Providers and keys are owned in pairs, so the two accounts differ by the refused providers.
  refine ⟨honce, ?_, ?_, ?_, ?_, fun _ _ _ _ ↦ h.orderly.before_opened,
    fun _ _ _ ↦ h.orderly.after_closed⟩
  · intro i hi
    have hpos := List.count_pos_iff.2 hi
    have := hproviders i
    have := honce i
    rw [← List.count_eq_zero, ← List.count_eq_zero]
    omega
  · intro i hi
    have hpos := List.count_pos_iff.2 hi
    have := hproviders i
    have := hkeys i
    have := honce i
    have := h.orderly.count_keyDestroyed_le i
    rw [← List.count_eq_zero, ← List.count_eq_zero]
    omega
  · have := h.contexts
    simp only [books, owners, List.length_map, List.length_nil] at this
    omega
  · intro i hi
    obtain ⟨before, after, heq⟩ := h.orderly.exists_closing hi
    have hprovider : t.count (.crossing (.providerDestroyed i)) ≤ 1 := by
      have := hproviders i
      have := honce i
      omega
    have hkey := (h.orderly.count_keyDestroyed_le i).trans hprovider
    rw [heq] at hprovider hkey
    refine ⟨before, after, heq, fun e he ↦ ⟨?_, ?_⟩⟩
    · rintro rfl
      exact notMem_of_count_le_one (by simp) hkey he
    · rintro rfl
      exact notMem_of_count_le_one (by simp) hprovider he

theorem refuses_of_settles (h : Books.Settles ⟨[], [], 0⟩ t s.books) (x : Step)
    (hi : .crossing (.providerReceived i) ∈ (s.step x).trace)
    (hkey : .crossing (.keyReceived i) ∉ (s.step x).trace) : (s.step x).Refuses i := by
  have hstep := s.step_settles x
  have hbefore := h.providers i
  have honce := count_received_le_one (h.trans hstep) i
  have hproviders := hstep.providers i
  have hkeys := hstep.keys i
  have hpos := List.count_pos_iff.2 hi
  -- The serial number is new, so that `i` was not owned before the step.
  rw [List.count_append] at honce
  rw [List.count_eq_zero.2 hkey] at hkeys
  simp only [books, List.count_nil] at hbefore hproviders hkeys
  have hdestroyed : .crossing (.keyDestroyed i) ∉ (s.step x).trace := by
    rw [← List.count_eq_zero]
    omega
  refine ⟨by omega, hdestroyed, ?_, ?_, ?_⟩
  · rw [← List.count_eq_zero]
    omega
  · rintro before name size after htrace
    obtain ⟨j, rest, -, rfl⟩ := hstep.orderly.before_opened htrace
    refine ⟨j, rest, ?_, rfl⟩
    rintro rfl
    exact hkey (by simp [htrace])
  · rintro before name after htrace
    obtain ⟨j, rest, -, rfl⟩ := hstep.orderly.after_closed htrace
    refine ⟨j, rest, ?_, rfl⟩
    rintro rfl
    exact hdestroyed (by simp [htrace])

/-- The key of a provider that cannot import it is never received. -/
theorem received_of_openWith {provider : Provider} {key : String}
    (hfail : ∀ k, (provider.reactionTo (s.process.memory key)).outcome ≠ .ok k) :
    let r := s.step (.openWith provider key)
    let i := s.process.nextInstance provider
    .crossing (.providerReceived i) ∈ r.trace ∧ .crossing (.keyReceived i) ∉ r.trace := by
  intro r i
  have hopened : ∀ c,
      (Context.ofProvider provider (s.process.memory key) s.process).outcome ≠ .ok c := by
    intro c hc
    rw [Context.ofProvider_run] at hc
    cases houtcome : (provider.reactionTo (s.process.memory key)).outcome with
    | ok k => exact hfail k houtcome
    | error e => simp [houtcome, Outcome.map] at hc
    | panicked => simp [houtcome, Outcome.map] at hc
  have htrace : r.trace = (Context.ofProvider provider (s.process.memory key) s.process).trace :=
    (openSlot_of_not_ok hopened).1
  rw [htrace, Context.ofProvider_run]
  constructor
  · simp [i]
  · simp only [List.mem_append, not_or]
    refine ⟨⟨⟨by simp, ?_⟩, ?_⟩, ?_⟩
    · intro hmem
      have hneutral := Context.asking_neutral _ _ _ hmem
      cases hneutral
    · intro hmem
      have hreentrant := runCallbacks_reentrant none _ _ _ hmem
      cases hreentrant
    · cases houtcome : (provider.reactionTo (s.process.memory key)).outcome with
      | ok k => exact absurd houtcome (hfail k)
      | error e => simp [Context.settlement]
      | panicked => simp [Context.settlement]

end Session

/-- Whatever the providers and overrides of a session do, after every step each provider that came
in and each key that was imported is owned by one live context or has been destroyed once. -/
theorem Session.resources_balanced [LinkedCipher] (m : Memory) (steps : List Step) :
    let start : Session := { process := { memory := m } }
    let s := start.after steps
    s.Balanced (start.history steps) ∧
      (∀ x i, .crossing (.providerReceived i) ∈ (s.step x).trace →
        .crossing (.keyReceived i) ∉ (s.step x).trace → (s.step x).Refuses i) ∧
      ∀ provider key, (∀ k, (provider.reactionTo (s.process.memory key)).outcome ≠ .ok k) →
        (s.step (.openWith provider key)).Refuses (s.process.nextInstance provider) := by
  intro start s
  have hsettles : Books.Settles ⟨[], [], 0⟩ (start.history steps) s.books :=
    start.after_settles steps
  refine ⟨balanced_of_settles hsettles, fun x i ↦ refuses_of_settles hsettles x, ?_⟩
  rintro provider key hfail
  obtain ⟨hreceived, hkey⟩ := received_of_openWith hfail
  exact refuses_of_settles hsettles _ hreceived hkey

/-- After a context has been opened and released, another provider panics on the import. -/
theorem Session.resources_balanced_panicking :
    let start : Session := { process := { memory := fun _ ↦ List.replicate 16 0x41 } }
    let steady : ProviderScript := { name := "steady" }
    let failing : ProviderScript := { name := "failing", panicAt? := some .onImport }
    let steps : List Step := [.openWith steady.provider "key", .release 0]
    let x : Step := .openWith failing.provider "key"
    let i : Instance := ⟨1, "failing", false⟩
    (start.after steps).Balanced (start.history steps) ∧
      .crossing (.keyDestroyed ⟨0, "steady", false⟩) ∈ start.history steps ∧
      .crossing (.providerReceived i) ∈ ((start.after steps).step x).trace ∧
      .crossing (.keyReceived i) ∉ ((start.after steps).step x).trace ∧
      ((start.after steps).step x).Refuses i := by
  intro start steady failing steps x i
  obtain ⟨hbalanced, hrefuses, -⟩ :=
    Session.resources_balanced (fun _ ↦ List.replicate 16 0x41) steps
  have hreceived : .crossing (.providerReceived i) ∈ ((start.after steps).step x).trace := by
    decide
  have hkey : .crossing (.keyReceived i) ∉ ((start.after steps).step x).trace := by decide
  exact ⟨hbalanced, by decide, hreceived, hkey, hrefuses x i hreceived hkey⟩

end AesEcb
