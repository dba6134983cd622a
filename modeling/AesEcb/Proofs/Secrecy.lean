import AesEcb.Proofs.Blindness
import AesEcb.Proofs.Steps
import AesEcb.Provider.Scripted
import AesEcb.Session.Log

/-!
# Nothing but ciphertext depends on what buffers hold

Two sessions that take the same steps from buffers of the same lengths cannot be told apart but by
the bytes in their buffers, and by those that providers and overrides from outside are handed.
-/

namespace AesEcb

/-! What an observer sees of a session. -/
section Observation

def LogValue.blanked : LogValue → LogValue
  | bytes data => bytes data.blanked
  | v => v

/-- The entry with zeros in the place of bytes. -/
def LogEntry.blanked (e : LogEntry) : LogEntry := e.map fun f ↦ (f.1, f.2.blanked)

/-- The same reply, but that a context is known by what it shows of itself only. -/
inductive Reply.Alike : Reply → Reply → Prop
  | opened (slot : Nat) {c c' : Context} (hname : c.providerName = c'.providerName)
      (hsize : c.keySize = c'.keySize) (hdebug : c.debug = c'.debug) :
      Alike (opened slot c) (opened slot c')
  | same (r : Reply) : Alike r r

theorem Reply.Alike.ends_eq {r r' : Reply} (h : r.Alike r') : r.ends = r'.ends := by
  cases h with
  | opened slot hname hsize hdebug => rfl
  | same r => rfl

/-- Replies, diagnostics, log and lengths of buffers are the same, except for bytes in the log. -/
structure Session.Result.Alike (r r' : Session.Result) : Prop where
  reply : r.reply.Alike r'.reply
  diagnostics_eq : r.trace.diagnostics = r'.trace.diagnostics
  log_eq : r.trace.log.map LogEntry.blanked = r'.trace.log.map LogEntry.blanked
  lengths : ∀ name, (r.session.process.memory name).length = (r'.session.process.memory name).length

theorem Context.Alike.reply {c c' : Context} (hc : c.Alike c') (slot : Nat) :
    (Reply.opened slot c).Alike (.opened slot c') := by
  have hname : c.providerName = c'.providerName := congrArg Instance.name hc.owner_eq
  have hsize : c.keySize = c'.keySize := hc.key.size_eq
  have hdebug : c.debug = c'.debug := by
    unfold debug
    rw [hname, hsize]
  exact .opened slot hname hsize hdebug

theorem Trace.diagnostics_blanked (t : Trace) : t.blanked.diagnostics = t.diagnostics := by
  rw [diagnostics, diagnostics, blanked, List.filterMap_map]
  congr 1
  funext e
  cases e with
  | diagnostic d => rfl
  | crossing c => rfl

theorem Crossing.entry?_blanked (c : Crossing) :
    c.blanked.entry?.map LogEntry.blanked = c.entry?.map LogEntry.blanked := by
  have hlength : ∀ data : Bytes, data.blanked.length = data.length := fun _ ↦ List.length_replicate
  have hbytes : ∀ data : Bytes, data.blanked.blanked = data.blanked := fun data ↦
    Bytes.blanked_eq_iff.2 (hlength data)
  cases c with
  | overrideAsked key engine => simp [blanked, entry?, LogEntry.blanked, LogValue.blanked, hbytes]
  | importAsked owner key =>
    cases hbuiltIn : owner.builtIn with
    | true => simp [blanked, entry?, entry?.ofForeign, hbuiltIn]
    | false =>
      simp [blanked, entry?, entry?.ofForeign, hbuiltIn, LogEntry.blanked, LogValue.blanked, hbytes]
  | transformAsked owner data => simp [blanked, entry?, hlength]
  | _ => rfl

theorem Trace.log_blanked (t : Trace) :
    t.blanked.log.map LogEntry.blanked = t.log.map LogEntry.blanked := by
  rw [log, log, blanked, List.filterMap_map, List.map_filterMap, List.map_filterMap]
  congr 1
  funext e
  cases e with
  | diagnostic d => rfl
  | crossing c => exact c.entry?_blanked

end Observation

namespace Session

variable {s s' : Session}

structure Alike (s s' : Session) : Prop where
  process : s.process.Alike s'.process
  slots : List.Forall₂ (Option.Rel Context.Alike) s.slots s'.slots

/-- The two replies and traces differ in bytes only, and so do the sessions that are left. -/
structure Follows (r r' : Result) : Prop where
  reply : r.reply.Alike r'.reply
  trace_eq : r.trace.blanked = r'.trace.blanked
  session : r.session.Alike r'.session

theorem Follows.alike {r r' : Result} (h : Follows r r') : r.Alike r' where
  reply := h.reply
  diagnostics_eq := by
    rw [← Trace.diagnostics_blanked, h.trace_eq, Trace.diagnostics_blanked]
  log_eq := by rw [← Trace.log_blanked, h.trace_eq, Trace.log_blanked]
  lengths := h.session.process.lengths

theorem Alike.context? (h : s.Alike s') (slot : Nat) :
    Option.Rel Context.Alike (s.context? slot) (s'.context? slot) := by
  obtain ⟨-, hslots⟩ := h
  rw [Session.context?, Session.context?]
  generalize s.slots = slots, s'.slots = slots' at hslots
  induction hslots generalizing slot with
  | nil => exact .none
  | cons hc _ ih =>
    cases slot with
    | zero => exact hc
    | succ slot => exact ih slot

theorem Alike.close (h : s.Alike s') (slot : Nat) :
    Alike { s with slots := s.slots.set slot none }
      { s' with slots := s'.slots.set slot none } := by
  obtain ⟨hprocess, hslots⟩ := h
  refine ⟨hprocess, ?_⟩
  dsimp only
  generalize s.slots = slots, s'.slots = slots' at hslots
  induction hslots generalizing slot with
  | nil => exact .nil
  | cons hc hrest ih =>
    cases slot with
    | zero => exact .cons .none hrest
    | succ slot => exact .cons hc (ih slot)

theorem conclude_follows {α β : Type} {R : α → β → Prop} {r : Run CipherError α}
    {r' : Run CipherError β} {reply : α → Reply} {reply' : β → Reply} (hs : s.Alike s')
    (hr : r.Alike R r') (hreply : ∀ a b, R a b → (reply a).Alike (reply' b)) :
    Follows (s.conclude r reply) (s'.conclude r' reply') := by
  obtain ⟨houtcome, htrace, hprocess⟩ := hr
  refine ⟨?_, htrace, hprocess, hs.slots⟩
  simp only [conclude]
  generalize r.outcome = o, r'.outcome = o' at houtcome
  cases houtcome with
  | ok hab => exact hreply _ _ hab
  | error e => exact .same _
  | panicked => exact .same _

theorem perform_follows {α β : Type} {R : α → β → Prop} {x : Action CipherError α}
    {y : Action CipherError β} {reply : α → Reply} {reply' : β → Reply} (hs : s.Alike s')
    (hx : Action.Alike R x y) (hreply : ∀ a b, R a b → (reply a).Alike (reply' b)) :
    Follows (s.perform x reply) (s'.perform y reply') :=
  conclude_follows hs (hx _ _ hs.process) hreply

theorem openSlot_follows {x y : Action CipherError Context} (hs : s.Alike s')
    (hx : Action.Alike Context.Alike x y) : Follows (s.openSlot x) (s'.openSlot y) := by
  obtain ⟨houtcome, htrace, hprocess⟩ := hx _ _ hs.process
  have hlength : s.slots.length = s'.slots.length := hs.slots.length_eq
  simp only [openSlot, perform, conclude, hlength]
  generalize (x s.process).outcome = o, (y s'.process).outcome = o' at houtcome
  cases houtcome with
  | ok hc =>
    exact ⟨hc.reply _, htrace, hprocess, List.rel_append hs.slots (.cons (.some hc) .nil)⟩
  | error e => exact ⟨.same _, htrace, hprocess, hs.slots⟩
  | panicked => exact ⟨.same _, htrace, hprocess, hs.slots⟩

theorem useSlot_follows {x y : Context → Action CipherError Encryption} (hs : s.Alike s')
    (slot : Nat) (output : String)
    (hx : ∀ c c', c.Alike c' → Action.Alike Encryption.Alike (x c) (y c')) :
    Follows (s.useSlot slot output x) (s'.useSlot slot output y) := by
  have hcontext := hs.context? slot
  rw [useSlot, useSlot]
  generalize s.context? slot = c?, s'.context? slot = c?' at hcontext
  cases hcontext with
  | none => exact ⟨.same _, rfl, hs⟩
  | some hc =>
    refine perform_follows (R := Eq) hs ?_ fun _ _ hcount ↦ hcount ▸ .same _
    apply (hx _ _ hc).bind
    rintro e e' ⟨hbuffer, hresult⟩
    have hwrite : ∀ p p' : Process, p.Alike p' →
        Process.Alike { p with memory := p.memory.write output e.buffer }
          { p' with memory := p'.memory.write output e'.buffer } :=
      fun p p' hp ↦ { hp with lengths := hp.length_write output hbuffer }
    apply (Action.Alike.modify hwrite).bind
    rintro _ _ -
    rw [hresult]
    exact .finish (Outcome.Alike.refl _)

end Session

namespace Step

/-- The providers and overrides that the step brings in are blind to the keys they are given. -/
def Blind : Step → Prop
  | openWith provider _ => provider.Blind
  | setOverride (some o) => o.Blind
  | _ => True

end Step

namespace Session

variable [LinkedCipher] {s s' : Session}

theorem step_follows (hs : s.Alike s') {x : Step} (hx : x.Blind) :
    Follows (s.step x) (s'.step x) := by
  have hlengths := hs.process.lengths
  cases x with
  | openKey key =>
    rw [step, step, Context.ofKey, Context.ofKey, hlengths key]
    exact openSlot_follows hs (Context.ofConfig_alike _ (hlengths key) _ _)
  | openRegion key offset length =>
    exact openSlot_follows hs (Context.ofConfig_alike _ (hlengths key) _ _)
  | openOn config key offset length =>
    exact openSlot_follows hs (Context.ofConfig_alike _ (hlengths key) _ _)
  | openWith provider key => exact openSlot_follows hs (Context.ofProvider_alike hx (hlengths key))
  | request key offset length =>
    exact openSlot_follows hs (Factory.request_alike (hlengths key) offset length)
  | encryptRegion slot input inOffset length output outOffset =>
    exact useSlot_follows hs slot output fun c c' hc ↦
      Context.encryptRegion_alike hc (hlengths input) (hlengths output) _ _ _
  | encrypt slot input output =>
    exact useSlot_follows hs slot output fun c c' hc ↦
      Context.encrypt_alike hc (hlengths input) (hlengths output)
  | encryptInPlace slot output =>
    exact useSlot_follows hs slot output fun c c' hc ↦
      Context.encryptInPlace_alike none hc (hlengths output)
  | release slot =>
    have hcontext := hs.context? slot
    simp only [step]
    generalize s.context? slot = c?, s'.context? slot = c?' at hcontext
    cases hcontext with
    | none => exact ⟨.same _, rfl, hs⟩
    | some hc => exact ⟨.same _, by simp only [hc.teardown_eq], hs.close slot⟩
  | setDefault engine =>
    exact perform_follows hs (Callback.run_alike none (.setDefault engine)) fun _ _ _ ↦ .same _
  | setOverride o =>
    have hinstall : ∀ p p' : Process, p.Alike p' →
        Process.Alike { p with override? := o } { p' with override? := o } :=
      fun p p' hp ↦ { hp with override_eq := rfl, blind := fun o' ho ↦ by subst ho; exact hx }
    exact perform_follows hs (Action.Alike.modify hinstall) fun _ _ _ ↦ .same _
  | getDefault =>
    have hreply : ∀ p p' : Process, p.Alike p' →
        (Reply.defaultIs p.defaultEngine).Alike (.defaultIs p'.defaultEngine) :=
      fun p p' hp ↦ hp.engine_eq ▸ .same _
    exact perform_follows hs .state hreply
  | handleCreate key offset length =>
    have hcreate := Boundary.create_alike (ε := CipherError) key offset length hs.process
    simp only [step]
    generalize Boundary.create key offset length s.process = r?,
      Boundary.create key offset length s'.process = r?' at hcreate
    cases hcreate with
    | none => exact ⟨.same _, rfl, hs⟩
    | some hr => exact conclude_follows hs hr fun _ _ h ↦ h ▸ .same _
  | handleEncrypt h input inOffset length output outOffset =>
    exact perform_follows hs (Boundary.encrypt_alike h input inOffset length output outOffset)
      fun _ _ hn ↦ hn ▸ .same _
  | handleRelease h =>
    exact perform_follows hs (Boundary.release_alike none h) fun _ _ _ ↦ .same _

theorem run_follows (hs : s.Alike s') {steps : List Step} (hsteps : ∀ x ∈ steps, x.Blind) :
    List.Forall₂ Follows (s.run steps) (s'.run steps) := by
  induction steps generalizing s s' with
  | nil => exact .nil
  | cons x xs ih =>
    -- What one step puts out may be a key of the next, so the sessions need only be alike.
    have hstep := step_follows hs (hsteps x List.mem_cons_self)
    simp only [run, hstep.reply.ends_eq]
    split
    · exact .cons hstep (ih hstep.session fun y hy ↦ hsteps y (List.mem_cons_of_mem x hy))
    · exact .nil

end Session

/-! Scripts look at lengths only. -/
section Scripts

def Provider.IsScripted (provider : Provider) : Prop :=
  (∃ engine, provider = .builtIn engine) ∨ ∃ script : ProviderScript, provider = script.provider

def Override.IsScripted (o : Override) : Prop :=
  ∃ script : OverrideScript, script.provider.IsScripted ∧ o = script.override

/-- Every provider and override that the step brings in comes with the library or has a script. -/
def Step.IsScripted : Step → Prop
  | openWith provider _ => provider.IsScripted
  | setOverride (some o) => o.IsScripted
  | _ => True

theorem ProviderScript.importedKey_alike (script : ProviderScript) (size : KeySize) :
    (script.importedKey size).Alike (script.importedKey size) where
  size_eq := rfl
  callbacks_eq _ _ _ := rfl
  outcome_eq data data' h := by
    have hlength : data.length = data'.length := h
    simp only [importedKey, transform, hlength]

theorem Provider.IsScripted.blind {provider : Provider} (h : provider.IsScripted) :
    provider.Blind := by
  rcases h with ⟨engine, rfl⟩ | ⟨script, rfl⟩
  · exact trivial
  · intro key key' hlength
    refine ⟨rfl, ?_⟩
    rw [ProviderScript.onImport, ProviderScript.onImport, hlength]
    dsimp only
    split
    · exact .panicked
    · split
      · exact .error _
      · exact (Outcome.Alike.refl _).map fun _ _ hsize ↦ hsize ▸ script.importedKey_alike _

theorem Override.IsScripted.blind {o : Override} (h : o.IsScripted) : o.Blind := by
  obtain ⟨script, hprovider, rfl⟩ := h
  intro key key' engine hlength
  have hcalls : List.Forall₂ Deed.Alike (script.callbacks.map .call)
      (script.callbacks.map .call) := by
    rw [List.forall₂_map_left_iff, List.forall₂_map_right_iff, List.forall₂_same]
    exact fun c _ ↦ .call c
  have hsame : key.length = key'.length := hlength
  simp only [OverrideScript.override, OverrideScript.react, hsame]
  split
  · exact ⟨hcalls, rfl⟩
  · split
    · exact ⟨List.rel_append hcalls (.cons (.opens hprovider.blind hlength) .nil), rfl⟩
    · exact ⟨hcalls, rfl⟩

theorem Step.IsScripted.blind {x : Step} (h : x.IsScripted) : x.Blind := by
  cases x with
  | openWith provider key => exact Provider.IsScripted.blind h
  | setOverride o =>
    cases o with
    | none => exact trivial
    | some o => exact Override.IsScripted.blind h
  | _ => exact trivial

end Scripts

/-- Two sessions that take the same steps from buffers of the same lengths are told apart by bytes
only, though the bytes that one step puts out may be the key of another.  Nor does the text that
shows a key or its round keys tell more than the size. -/
theorem Session.run_indistinguishable [LinkedCipher] {m m' : Memory}
    (hlengths : ∀ name, (m name).length = (m' name).length) {steps : List Step}
    (hsteps : ∀ x ∈ steps, x.IsScripted) :
    List.Forall₂ Result.Alike (run { process := { memory := m } } steps)
        (run { process := { memory := m' } } steps) ∧
      (∀ k k' : Key, k.size = k'.size → k.debug = k'.debug) ∧
      ∀ k k' : RoundKeys, k.size = k'.size → k.debug = k'.debug := by
  -- Before the first step there is no context yet that could tell the two apart.
  have hstart : Alike { process := { memory := m } } { process := { memory := m' } } :=
    ⟨⟨rfl, nofun, rfl, ⟨rfl, .nil⟩, hlengths, rfl⟩, .nil⟩
  refine ⟨?_, ?_, ?_⟩
  · exact (run_follows hstart fun x hx ↦ (hsteps x hx).blind).imp fun _ _ h ↦ h.alike
  · intro k k' hsize
    unfold Key.debug
    rw [hsize]
  · intro k k' hsize
    unfold RoundKeys.debug
    rw [hsize]

/-- A text is encrypted in one context to become the key of another, which an override offers and
which panics while its own handle is released. -/
theorem Session.run_indistinguishable_reused :
    let m : Memory := fun _ ↦ List.replicate 16 0x41
    let m' : Memory := fun _ ↦ List.replicate 16 0x5a
    let failing : ProviderScript :=
      { name := "failing", panicAt? := some .onEncrypt, release? := some ⟨1⟩ }
    let script : OverrideScript := { provider := failing.provider, setDefault? := some .linked }
    let steps : List Step :=
      [.openKey "key", .encrypt 0 "text" "next", .setOverride (some script.override),
        .handleCreate (some "next") 0 16, .handleEncrypt ⟨1⟩ (some "text") 0 16 (some "out") 0]
    m "key" ≠ m' "key" ∧ (∀ name, (m name).length = (m' name).length) ∧
      (∀ x ∈ steps, x.IsScripted) ∧
      List.Forall₂ Result.Alike (run { process := { memory := m } } steps)
        (run { process := { memory := m' } } steps) := by
  intro m m' failing script steps
  have hlengths : ∀ name, (m name).length = (m' name).length := fun _ ↦ rfl
  have hoverride : script.override.IsScripted := ⟨script, .inr ⟨failing, rfl⟩, rfl⟩
  have hsteps : ∀ x ∈ steps, x.IsScripted := by
    simp [steps, Step.IsScripted, hoverride]
  exact ⟨by decide, hlengths, hsteps, (Session.run_indistinguishable hlengths hsteps).1⟩

end AesEcb
