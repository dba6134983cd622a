import AesEcb.Proofs.Numbering
import AesEcb.Proofs.Patches

/-!
# Calls that commute

Two calls are independent if neither creates or releases what the other uses, nor writes what the
other reads or writes.  As long as there are numbers left for new handles, it makes no difference
which of the two comes first, and so none in which order the calls of a run come, as far as one
order arises from the other by exchanging independent neighbours.
-/

namespace AesEcb

namespace Registry

variable {α : Type} {t u : Registry α} {a : α} {h k : Handle} {n : Nat}

theorem eq_of_entries_eq (hentries : t.entries = u.entries) (hnext : t.nextId = u.nextId) :
    t = u := by
  cases t
  cases u
  simp only at hentries hnext
  subst hentries hnext
  rfl

theorem erase_of_get?_none (hget : t.get? h = none) : t.erase h = t :=
  eq_of_entries_eq (entries_erase_of_get?_none hget) rfl

theorem erase_comm (t : Registry α) (h k : Handle) :
    (t.erase h).erase k = (t.erase k).erase h := by
  refine eq_of_entries_eq ?_ rfl
  simp only [erase, List.filter_filter, Bool.and_comm]

theorem narrowsTo_erase (t : Registry α) (h : Handle) : t.NarrowsTo (t.erase h) where
  nextId_eq := rfl
  keys_subset := List.map_subset _ (List.filter_subset_self _)

theorem Numbered.exists_insert? (ht : t.Numbered n) (hroom : n + 1 < UInt64.size) (a : α) :
    ∃ h u, t.insert? a = some (h, u) ∧ h.id.toNat = n + 1 := by
  obtain ⟨hnext, hused⟩ := ht (Nat.lt_of_succ_lt hroom)
  have hins := insert?_of_le a (hnext.symm ▸ hroom) (hnext.symm ▸ hused)
  rwa [hnext] at hins

/-- Which number comes next is not for a removal to say. -/
theorem Numbered.insert?_erase (ht : t.Numbered n) (hroom : n + 1 < UInt64.size)
    (hins : t.insert? a = some (h, u)) (hk : k ≠ h) :
    (t.erase k).insert? a = some (h, u.erase k) := by
  obtain ⟨h', u', hins', hnumber'⟩ := ht.exists_insert? hroom a
  obtain ⟨rfl, rfl⟩ := Prod.mk.inj (Option.some.inj (hins'.symm.trans hins))
  obtain ⟨h'', v, hafter, hnumber⟩ :=
    (ht.narrowsTo (t.narrowsTo_erase k)).exists_insert? hroom a
  obtain rfl : h'' = h' := Handle.toNat_inj.1 (hnumber.trans hnumber'.symm)
  obtain ⟨-, hentries, hnext⟩ := insert?_eq_some_iff.1 hins
  obtain ⟨-, hentries', hnext'⟩ := insert?_eq_some_iff.1 hafter
  have heq : v = u'.erase k := by
    refine eq_of_entries_eq ?_ (hnext'.trans hnext.symm)
    simp [hentries', erase, hentries, hk.symm]
  rw [hafter, heq]

end Registry

/-- The runs `x` and then `y'` end as `y` and then `x'` do, and leave the same. -/
structure Run.Commute {ε α β : Type} (x x' : Run ε α) (y y' : Run ε β) : Prop where
  left : x'.outcome = x.outcome
  right : y'.outcome = y.outcome
  process_eq : y'.process = x'.process

/-- In either order the two actions end alike, and leave the same. -/
def Action.Commute {ε α β : Type} (x : Action ε α) (y : Action ε β) (p : Process) : Prop :=
  Run.Commute (x p) (x (y p).process) (y p) (y (x p).process)

/-- No override is installed, and every handle in use is bound to a context on an engine of the
library. -/
structure Process.Plain [LinkedCipher] (p : Process) : Prop where
  override_eq : p.override? = none
  builtIn : ∀ h c, p.handles.get? h = some c → ∃ (engine : Engine) (k : Key),
    c.key = engine.importedKey k

theorem Engine.callbacks_importedKey [LinkedCipher] (engine : Engine) (k : Key) (data : Bytes) :
    ((engine.importedKey k).transform data).callbacks = [] := by
  cases engine with
  | software => exact ImportedKey.callbacks_ofBlockCipher
  | linked => exact ImportedKey.callbacks_ofBlockCipher

/-- The process without the handle `h`. -/
def Process.without (p : Process) (h : Handle) : Process :=
  if h = .null then p else { p with handles := p.handles.erase h }

namespace Boundary

variable {ε : Type} {p : Process} {h k : Handle} {n : Nat}

theorem release_process (h : Handle) (p : Process) :
    ((release none h : Action ε Unit) p).outcome = .ok () ∧
      ((release none h : Action ε Unit) p).process = p.without h := by
  rw [release_run, Process.without]
  by_cases hnull : h = .null
  · simp only [if_pos hnull, and_self]
  · simp only [if_neg hnull]
    cases hget : p.handles.get? h with
    | none => exact ⟨rfl, by rw [Registry.erase_of_get?_none hget]⟩
    | some c => exact ⟨rfl, rfl⟩

variable [LinkedCipher]

section Creation

variable {key : Pointer} {offset length : Int32}

theorem create_of_error {e : BoundaryError} (hp : p.override? = none)
    (harg : keyArgument p.memory key offset length = .error e) :
    (create key offset length p : Option (Run ε Handle)) =
      some ⟨.ok .null, [.diagnostic (.callFailed .create e)], p⟩ := by
  simp only [create_run key offset length p hp, harg]

theorem create_of_ok {data : Bytes} {k : Key} {u : Registry Context} (hp : p.override? = none)
    (harg : keyArgument p.memory key offset length = .ok (data, k))
    (hins : p.handles.insert? (p.opened k) = some (h, u)) :
    (create key offset length p : Option (Run ε Handle)) =
      some ⟨.ok h, p.opening data k ++ [.diagnostic (.handleIssued h)],
        { p with nextSerial := p.nextSerial + 1, handles := u }⟩ := by
  simp only [create_run key offset length p hp, harg, hins, Option.map_some]

/-- While there are numbers left, a creation comes to an end. -/
theorem exists_create (hp : p.override? = none) (hnumbered : p.handles.Numbered n)
    (hroom : n + 1 < UInt64.size) (key : Pointer) (offset length : Int32) :
    ∃ (r : Run ε Handle) (h : Handle), create key offset length p = some r ∧ r.outcome = .ok h := by
  cases harg : keyArgument p.memory key offset length with
  | error e => exact ⟨_, _, create_of_error hp harg, rfl⟩
  | ok named =>
    obtain ⟨new, u, hins, -⟩ := hnumbered.exists_insert? hroom (p.opened named.2)
    exact ⟨_, _, create_of_ok hp harg hins, rfl⟩

end Creation

/-- What an encryption returns and writes follows from what it reads. -/
theorem exists_patch_of_encrypt (hp : p.Plain) (h : Handle) (input : Pointer)
    (inOffset length : Int32) (output : Pointer) (outOffset : Int32) :
    ∃ (count : Int32) (w? : Option Patch),
      (∀ w, w? = some w → output.place? outOffset length = some w.place ∧ w.Fits p.memory) ∧
      ∀ q : Process, q.handles.get? h = p.handles.get? h →
        p.memory.AgreesOn q.memory (input.place? inOffset length) →
        let r := (encrypt h input inOffset length output outOffset : Action ε Int32) q
        r.outcome = .ok count ∧ r.process = { q with memory := q.memory.patch? w? } := by
  obtain ⟨o, w?, hw, hencryption⟩ :=
    exists_patch_of_encryption p h input inOffset length output outOffset
  refine ⟨o.getD 0, w?, hw, fun q hq hm ↦ ?_⟩
  have hquiet : ∀ c, q.handles.get? h = some c →
      ∀ data, (c.key.transform data).callbacks = [] := by
    intro c hc data
    obtain ⟨engine, key, hkey⟩ := hp.builtIn h c (hq ▸ hc)
    rw [hkey]
    exact engine.callbacks_importedKey key data
  have houtcome := (encrypt_outcome_memory (ε := ε) h input inOffset length output outOffset q).1
  have hprocess :=
    encrypt_process_of_quiet (ε := ε) h input inOffset length output outOffset q hquiet
  rw [hencryption q hq hm] at houtcome hprocess
  exact ⟨houtcome, hprocess⟩

omit [LinkedCipher] in
theorem release_commute_release (h k : Handle) (p : Process) :
    (release none h : Action ε Unit).Commute (release none k : Action ε Unit) p := by
  refine ⟨?_, ?_, ?_⟩
  · rw [(release_process h _).1, (release_process h _).1]
  · rw [(release_process k _).1, (release_process k _).1]
  · rw [(release_process k _).2, (release_process h _).2, (release_process h _).2,
      (release_process k _).2]
    simp only [Process.without]
    split
    · rfl
    · split
      · rfl
      · simp only [Registry.erase_comm]

theorem create_commute_release (hp : p.Plain) (hnumbered : p.handles.Numbered n)
    (hroom : n + 1 < UInt64.size) {key : Pointer} {offset length : Int32}
    (hnew : ∀ (r : Run ε Handle) (k : Handle), create key offset length p = some r →
      r.outcome = .ok k → k ≠ .null → h ≠ k) :
    let y : Action ε Unit := release none h
    ∃ x x' : Run ε Handle, create key offset length p = some x ∧
      create key offset length (y p).process = some x' ∧ x.Commute x' (y p) (y x.process) := by
  intro y
  by_cases hnull : h = .null
  · have hsame : ∀ q, (y q).process = q := by
      intro q
      rw [(release_process h q).2, Process.without, if_pos hnull]
    obtain ⟨x, k, hx, -⟩ := exists_create (ε := ε) hp.override_eq hnumbered hroom key offset length
    refine ⟨x, x, hx, by rw [hsame, hx], rfl, ?_, hsame _⟩
    rw [(release_process h _).1, (release_process h _).1]
  · have hwithout : ∀ q, (y q).process = { q with handles := q.handles.erase h } := by
      intro q
      rw [(release_process h q).2, Process.without, if_neg hnull]
    have hp' : (y p).process.override? = none := by
      rw [hwithout]
      exact hp.override_eq
    have hmemory : (y p).process.memory = p.memory := by rw [hwithout]
    cases harg : keyArgument p.memory key offset length with
    | error e =>
      have hx := create_of_error (ε := ε) hp.override_eq harg
      have hx' := create_of_error (ε := ε) hp' (hmemory.symm ▸ harg)
      exact ⟨_, _, hx, hx', rfl, rfl, rfl⟩
    | ok named =>
      obtain ⟨data, k⟩ := named
      obtain ⟨new, u, hins, hnumber⟩ := hnumbered.exists_insert? hroom (p.opened k)
      have hx := create_of_ok (ε := ε) hp.override_eq harg hins
      have hne : h ≠ new := hnew _ new hx rfl
        (Registry.isFree_of_fresh? (Registry.insert?_eq_some_iff.1 hins).1).1
      have hins' := hnumbered.insert?_erase hroom hins hne
      have hx' := create_of_ok (ε := ε) (p := { p with handles := p.handles.erase h })
        hp.override_eq harg hins'
      refine ⟨_, _, hx, (congrArg _ (hwithout p)).trans hx', rfl, ?_, hwithout _⟩
      rw [(release_process h _).1, (release_process h _).1]

theorem create_commute_encrypt (hp : p.Plain) (hnumbered : p.handles.Numbered n)
    (hroom : n + 1 < UInt64.size) {key : Pointer} {offset size : Int32} {input output : Pointer}
    {inOffset length outOffset : Int32}
    (hnew : ∀ (r : Run ε Handle) (k : Handle), create key offset size p = some r →
      r.outcome = .ok k → k ≠ .null → h ≠ k)
    (hapart : ∀ a b, output.place? outOffset length = some a → key.place? offset size = some b →
      ¬ a.Meets b) :
    let y : Action ε Int32 := encrypt h input inOffset length output outOffset
    ∃ x x' : Run ε Handle, create key offset size p = some x ∧
      create key offset size (y p).process = some x' ∧ x.Commute x' (y p) (y x.process) := by
  intro y
  obtain ⟨count, w?, hw, hencrypt⟩ :=
    exists_patch_of_encrypt (ε := ε) hp h input inOffset length output outOffset
  obtain ⟨hcount, hpatched⟩ := hencrypt p rfl (.refl _ _)
  have hkey : keyArgument (p.memory.patch? w?) key offset size =
      keyArgument p.memory key offset size :=
    keyArgument_congr (Memory.agreesOn_patch? (fun w hsome ↦ (hw w hsome).2)
      fun w hsome b hb ↦ hapart w.place b (hw w hsome).1 hb)
  have hp' : { p with memory := p.memory.patch? w? }.override? = none := hp.override_eq
  have hy : (y p).process = { p with memory := p.memory.patch? w? } := hpatched
  rw [hy]
  cases harg : keyArgument p.memory key offset size with
  | error e =>
    have hx := create_of_error (ε := ε) hp.override_eq harg
    have hx' := create_of_error (ε := ε) hp' (hkey.trans harg)
    exact ⟨_, _, hx, hx', rfl, rfl, hy⟩
  | ok named =>
    obtain ⟨data, k⟩ := named
    obtain ⟨new, u, hins, hnumber⟩ := hnumbered.exists_insert? hroom (p.opened k)
    have hx := create_of_ok (ε := ε) hp.override_eq harg hins
    have hx' := create_of_ok (ε := ε) hp' (hkey.trans harg) hins
    have hne : h ≠ new := hnew _ new hx rfl
      (Registry.isFree_of_fresh? (Registry.insert?_eq_some_iff.1 hins).1).1
    obtain ⟨hcount', hpatched'⟩ := hencrypt
      { p with nextSerial := p.nextSerial + 1, handles := u }
      ((Registry.get?_of_insert? hins).trans (if_neg hne)) (.refl _ _)
    exact ⟨_, _, hx, hx', rfl, hcount'.trans hcount.symm, hpatched'⟩

theorem release_commute_encrypt (hp : p.Plain) {input output : Pointer}
    {inOffset length outOffset : Int32} (hne : h ≠ k) :
    (release none k : Action ε Unit).Commute
      (encrypt h input inOffset length output outOffset : Action ε Int32) p := by
  obtain ⟨count, w?, -, hencrypt⟩ :=
    exists_patch_of_encrypt (ε := ε) hp h input inOffset length output outOffset
  obtain ⟨hcount, hpatched⟩ := hencrypt p rfl (.refl _ _)
  have hget : (p.without k).handles.get? h = p.handles.get? h := by
    rw [Process.without]
    split
    · rfl
    · exact Registry.get?_erase_of_ne _ hne
  have hmemory : (p.without k).memory = p.memory := by
    rw [Process.without]
    split
    · rfl
    · rfl
  obtain ⟨hcount', hpatched'⟩ := hencrypt (p.without k) hget (hmemory ▸ .refl _ _)
  refine ⟨?_, ?_, ?_⟩
  · rw [(release_process k _).1, (release_process k _).1]
  · rw [(release_process k _).2, hcount', hcount]
  · rw [(release_process k _).2, (release_process k _).2, hpatched', hpatched, hmemory]
    simp only [Process.without]
    split
    · rfl
    · rfl

theorem encrypt_commute_encrypt (hp : p.Plain) {input output input' output' : Pointer}
    {inOffset length outOffset inOffset' length' outOffset' : Int32}
    (hapart : ∀ a b, output.place? outOffset length = some a →
      input'.place? inOffset' length' = some b ∨ output'.place? outOffset' length' = some b →
      ¬ a.Meets b)
    (hapart' : ∀ a b, output'.place? outOffset' length' = some a →
      input.place? inOffset length = some b → ¬ a.Meets b) :
    (encrypt h input inOffset length output outOffset : Action ε Int32).Commute
      (encrypt k input' inOffset' length' output' outOffset' : Action ε Int32) p := by
  obtain ⟨count, w?, hw, hencrypt⟩ :=
    exists_patch_of_encrypt (ε := ε) hp h input inOffset length output outOffset
  obtain ⟨count', w'?, hw', hencrypt'⟩ :=
    exists_patch_of_encrypt (ε := ε) hp k input' inOffset' length' output' outOffset'
  obtain ⟨hcount, hpatched⟩ := hencrypt p rfl (.refl _ _)
  obtain ⟨hcount', hpatched'⟩ := hencrypt' p rfl (.refl _ _)
  have hfits : ∀ w, w? = some w → w.Fits p.memory := fun w hsome ↦ (hw w hsome).2
  have hfits' : ∀ w, w'? = some w → w.Fits p.memory := fun w hsome ↦ (hw' w hsome).2
  have hinput' : p.memory.AgreesOn (p.memory.patch? w?) (input'.place? inOffset' length') :=
    Memory.agreesOn_patch? hfits fun w hsome b hb ↦ hapart w.place b (hw w hsome).1 (.inl hb)
  have hinput : p.memory.AgreesOn (p.memory.patch? w'?) (input.place? inOffset length) :=
    Memory.agreesOn_patch? hfits' fun w hsome b hb ↦ hapart' w.place b (hw' w hsome).1 hb
  obtain ⟨hsecond, hboth⟩ := hencrypt' { p with memory := p.memory.patch? w? } rfl hinput'
  obtain ⟨hfirst, hboth'⟩ := hencrypt { p with memory := p.memory.patch? w'? } rfl hinput
  have hcomm : (p.memory.patch? w?).patch? w'? = (p.memory.patch? w'?).patch? w? :=
    Memory.patch?_comm hfits hfits' fun w w' hsome hsome' ↦
      hapart w.place w'.place (hw w hsome).1 (.inr (hw' w' hsome').1)
  refine ⟨?_, ?_, ?_⟩
  · rw [hpatched', hfirst, hcount]
  · rw [hpatched, hsecond, hcount']
  · rw [hpatched, hpatched', hboth, hboth']
    simp only [hcomm]

end Boundary

namespace Call

def operation? (c : Call) : Option Operation := c.step.operation?

/-- The handle that the call is given. -/
def handle? : Call → Option Handle
  | encrypt h _ _ _ _ _ => some h
  | release h => some h
  | create _ _ _ | setDefault _ => none

/-- What the call reads: the key, or the input. -/
def source? : Call → Option Place
  | create key offset length => key.place? offset length
  | encrypt _ input inOffset length _ _ => input.place? inOffset length
  | release _ | setDefault _ => none

/-- What the call writes. -/
def target? : Call → Option Place
  | encrypt _ _ _ length output outOffset => output.place? outOffset length
  | create _ _ _ | release _ | setDefault _ => none

end Call

namespace Session

variable [LinkedCipher]

/-- The call `b` is not given the handle that `a` creates, and nothing it reads or writes is
written by `a`. -/
structure Spares (s : Session) (a b : Call) : Prop where
  issued : ∀ h, (s.step a.step).reply = .handle h → h ≠ .null → b.handle? ≠ some h
  written : ∀ x y, a.target? = some x → b.source? = some y ∨ b.target? = some y → ¬ x.Meets y

/-- Two calls through handles, of which one at most creates, and which are given the same handle
only to encrypt. -/
structure Independent (s : Session) (a b : Call) : Prop where
  operates : a.operation? ≠ none
  operates' : b.operation? ≠ none
  one_creates : ¬ (a.operation? = some .create ∧ b.operation? = some .create)
  shared : ∀ h, a.handle? = some h → b.handle? = some h →
    a.operation? = some .encrypt ∧ b.operation? = some .encrypt
  spares : s.Spares a b
  spares' : s.Spares b a

theorem Independent.symm {s : Session} {a b : Call} (h : s.Independent a b) :
    s.Independent b a where
  operates := h.operates'
  operates' := h.operates
  one_creates hboth := h.one_creates hboth.symm
  shared k hb ha := (h.shared k ha hb).symm
  spares := h.spares'
  spares' := h.spares

/-- In either order the two calls have the same replies, and leave the same session. -/
structure Commute (s : Session) (a b : Call) : Prop where
  left : ((s.step b.step).session.step a.step).reply = (s.step a.step).reply
  right : ((s.step a.step).session.step b.step).reply = (s.step b.step).reply
  session_eq : ((s.step a.step).session.step b.step).session =
    ((s.step b.step).session.step a.step).session

variable {s : Session} {a b : Call} {n : Nat}

theorem Commute.symm (h : s.Commute a b) : s.Commute b a := ⟨h.right, h.left, h.session_eq.symm⟩

theorem commute_of_conclude {α β : Type} {x x' : Run CipherError α} {y y' : Run CipherError β}
    {f : α → Reply} {g : β → Reply} (ha : s.step a.step = s.conclude x f)
    (hb : s.step b.step = s.conclude y g)
    (ha' : (s.conclude y g).session.step a.step = (s.conclude y g).session.conclude x' f)
    (hb' : (s.conclude x f).session.step b.step = (s.conclude x f).session.conclude y' g)
    (h : x.Commute x' y y') : s.Commute a b where
  left := by
    rw [ha, hb, ha']
    exact reply_congr h.left _ _ f
  right := by
    rw [ha, hb, hb']
    exact reply_congr h.right _ _ g
  session_eq := by
    rw [ha, hb, ha', hb']
    simp only [conclude, h.process_eq]

theorem step_create {key : Pointer} {offset length : Int32} {r : Run CipherError Handle}
    (hr : Boundary.create key offset length s.process = some r) :
    s.step (Call.create key offset length).step = s.conclude r .handle := by
  simp only [Call.step, step, hr]

theorem reply_encrypt {h : Handle} {input output : Pointer}
    {inOffset length outOffset count : Int32}
    (hcount : (Boundary.encryption s.process h input inOffset length output outOffset).1 =
      .ok count) :
    (s.step (Call.encrypt h input inOffset length output outOffset).step).reply =
      .signed count := by
  have houtcome := (Boundary.encrypt_outcome_memory (ε := CipherError) h input inOffset length
    output outOffset s.process).1
  rw [hcount] at houtcome
  simp only [Call.step, step, perform, conclude, houtcome, Outcome.getD]

theorem reply_create {key : Pointer} {offset length : Int32} {r : Run CipherError Handle}
    {h : Handle} (hr : Boundary.create key offset length s.process = some r)
    (hissued : r.outcome = .ok h) :
    (s.step (Call.create key offset length).step).reply = .handle h := by
  rw [step_create hr, reply_of_ok hissued]

/-- While there are numbers left, every call comes to an end. -/
theorem step_ends (hplain : s.process.Plain) (hnumbered : s.process.handles.Numbered n)
    (hroom : n + 1 < UInt64.size) (c : Call) : (s.step c.step).reply.ends = true := by
  have hperform : ∀ {α : Type} (x : Action CipherError α) (f : α → Reply),
      (∀ v, (f v).ends = true) → (s.perform x f).reply.ends = true := by
    intro α x f hf
    simp only [perform, conclude]
    cases (x s.process).outcome with
    | ok v => exact hf v
    | error e => rfl
    | panicked => rfl
  cases c with
  | create key offset length =>
    obtain ⟨r, h, hr, hissued⟩ := Boundary.exists_create (ε := CipherError) hplain.override_eq
      hnumbered hroom key offset length
    rw [reply_create hr hissued]
    rfl
  | encrypt h input inOffset length output outOffset => exact hperform _ _ fun _ ↦ rfl
  | release h => exact hperform _ _ fun _ ↦ rfl
  | setDefault engine => exact hperform _ _ fun _ ↦ rfl

section Pairs

variable {key : Pointer} {offset length : Int32}

theorem Spares.ne_created {h k : Handle} (hspares : s.Spares (.create key offset length) b)
    (hb : b.handle? = some h) {r : Run CipherError Handle}
    (hr : Boundary.create key offset length s.process = some r) (hissued : r.outcome = .ok k)
    (hk : k ≠ .null) : h ≠ k := by
  rintro rfl
  exact hspares.issued h (reply_create hr hissued) hk hb

theorem commute_create (hplain : s.process.Plain) (hnumbered : s.process.handles.Numbered n)
    (hroom : n + 1 < UInt64.size) (hab : s.Independent (.create key offset length) b) :
    s.Commute (.create key offset length) b := by
  cases b with
  | create _ _ _ => exact absurd ⟨rfl, rfl⟩ hab.one_creates
  | setDefault engine => exact absurd rfl hab.operates'
  | release h =>
    obtain ⟨x, x', hx, hx', hcommute⟩ :=
      Boundary.create_commute_release hplain hnumbered hroom fun r k hr hissued hk ↦
        hab.spares.ne_created rfl hr hissued hk
    exact commute_of_conclude (step_create hx) rfl (step_create hx') rfl hcommute
  | encrypt h input inOffset size output outOffset =>
    obtain ⟨x, x', hx, hx', hcommute⟩ :=
      Boundary.create_commute_encrypt hplain hnumbered hroom
        (fun r k hr hissued hk ↦ hab.spares.ne_created rfl hr hissued hk)
        fun x y hx hy ↦ hab.spares'.written x y hx (.inl hy)
    exact commute_of_conclude (step_create hx) rfl (step_create hx') rfl hcommute

theorem commute_release_encrypt (hplain : s.process.Plain) {h k : Handle} {input output : Pointer}
    {inOffset outOffset : Int32}
    (hab : s.Independent (.release k) (.encrypt h input inOffset length output outOffset)) :
    s.Commute (.release k) (.encrypt h input inOffset length output outOffset) := by
  have hne : h ≠ k := by
    rintro rfl
    cases (hab.shared h rfl rfl).1
  exact commute_of_conclude rfl rfl rfl rfl
    (Boundary.release_commute_encrypt hplain hne)

end Pairs

/-- The cases are the pairs of kinds, and of the two orders of a pair one is enough. -/
theorem commute_of_independent (hplain : s.process.Plain) (hnumbered : s.process.handles.Numbered n)
    (hroom : n + 1 < UInt64.size) (hab : s.Independent a b) : s.Commute a b := by
  cases a with
  | setDefault engine => exact absurd rfl hab.operates
  | create key offset length => exact commute_create hplain hnumbered hroom hab
  | release k =>
    cases b with
    | setDefault engine => exact absurd rfl hab.operates'
    | create key offset length => exact (commute_create hplain hnumbered hroom hab.symm).symm
    | release h =>
      exact commute_of_conclude rfl rfl rfl rfl
        (Boundary.release_commute_release k h s.process)
    | encrypt h input inOffset length output outOffset => exact commute_release_encrypt hplain hab
  | encrypt h input inOffset length output outOffset =>
    cases b with
    | setDefault engine => exact absurd rfl hab.operates'
    | create key offset length => exact (commute_create hplain hnumbered hroom hab.symm).symm
    | release k => exact (commute_release_encrypt hplain hab.symm).symm
    | encrypt k input' inOffset' length' output' outOffset' =>
      exact commute_of_conclude rfl rfl rfl rfl
        (Boundary.encrypt_commute_encrypt hplain hab.spares.written
          fun x y hx hy ↦ hab.spares'.written x y hx (.inl hy))

/-- Calls through handles open contexts on the engines of the library only. -/
theorem plain_step (hplain : s.process.Plain) (c : Call) :
    (s.step c.step).session.process.Plain := by
  cases c with
  | setDefault engine => exact ⟨hplain.override_eq, hplain.builtIn⟩
  | release h =>
    have hprocess := (Boundary.release_process (ε := CipherError) h s.process).2
    simp only [Call.step, step, perform, conclude, hprocess, Process.without]
    split
    · exact hplain
    · refine ⟨hplain.override_eq, fun k c hget ↦ ?_⟩
      rw [Registry.get?_erase] at hget
      split at hget
      · cases hget
      · exact hplain.builtIn k c hget
  | encrypt h input inOffset length output outOffset =>
    obtain ⟨count, w?, -, hencrypt⟩ := Boundary.exists_patch_of_encrypt (ε := CipherError) hplain h
      input inOffset length output outOffset
    have hprocess := (hencrypt s.process rfl (.refl _ _)).2
    simp only [Call.step, step, perform, conclude, hprocess]
    exact ⟨hplain.override_eq, hplain.builtIn⟩
  | create key offset length =>
    have hrun :=
      Boundary.create_run (ε := CipherError) key offset length s.process hplain.override_eq
    simp only [Call.step, step, hrun]
    cases Boundary.keyArgument s.process.memory key offset length with
    | error e => exact hplain
    | ok named =>
      obtain ⟨data, k⟩ := named
      dsimp only
      cases hins : s.process.handles.insert? (s.process.opened k) with
      | none => exact hplain
      | some issued =>
        obtain ⟨h, u⟩ := issued
        refine ⟨hplain.override_eq, fun h' c hget ↦ ?_⟩
        have hlookup : u.get? h' = some c := hget
        rw [Registry.get?_of_insert? hins] at hlookup
        split at hlookup
        · obtain rfl := Option.some.inj hlookup
          exact ⟨_, k, rfl⟩
        · exact hplain.builtIn h' c hlookup

section Reordering

variable {ι : Type}

/-- The replies to calls that carry marks to tell them apart. -/
def answers (s : Session) (calls : List (ι × Call)) : List ((ι × Call) × Reply) :=
  calls.zip ((s.run (calls.map fun x ↦ x.2.step)).map Result.reply)

/-- The session after the calls. -/
def afterCalls (s : Session) (calls : List (ι × Call)) : Session :=
  s.after (calls.map fun x ↦ x.2.step)

/-- One order of the calls arises from the other by exchanging independent neighbours, while there
are numbers left; so far `n` handles have been issued. -/
inductive Reorders : Nat → Session → List (ι × Call) → List (ι × Call) → Prop
  | refl {n : Nat} {s : Session} (xs : List (ι × Call)) : Reorders n s xs xs
  | exchange {n : Nat} {s : Session} {x y : ι × Call} (xs : List (ι × Call)) (hn : n < 2 ^ 64 - 2)
      (hxy : s.Independent x.2 y.2) : Reorders n s (x :: y :: xs) (y :: x :: xs)
  | cons {n : Nat} {s : Session} {xs ys : List (ι × Call)} (x : ι × Call)
      (h : Reorders (n + (s.step x.2.step).issued) (s.step x.2.step).session xs ys) :
      Reorders n s (x :: xs) (x :: ys)
  | trans {n : Nat} {s : Session} {xs ys zs : List (ι × Call)} (h : Reorders n s xs ys)
      (h' : Reorders n s ys zs) : Reorders n s xs zs

theorem answers_cons {x : ι × Call} (hends : (s.step x.2.step).reply.ends = true)
    (xs : List (ι × Call)) :
    s.answers (x :: xs) = (x, (s.step x.2.step).reply) :: (s.step x.2.step).session.answers xs := by
  simp only [answers, List.map_cons, run, hends, if_true, List.zip_cons_cons]

theorem afterCalls_cons {x : ι × Call} (hends : (s.step x.2.step).reply.ends = true)
    (xs : List (ι × Call)) :
    s.afterCalls (x :: xs) = (s.step x.2.step).session.afterCalls xs := by
  simp only [afterCalls, List.map_cons, after, hends, if_true]

/-- After a call that does not come to an end there is no other. -/
theorem answers_cons_unending {x : ι × Call} (hunending : (s.step x.2.step).reply.ends = false)
    (xs : List (ι × Call)) : s.answers (x :: xs) = [] ∧ s.afterCalls (x :: xs) = s := by
  simp [answers, afterCalls, run, after, hunending]

theorem Reorders.answers_perm {xs ys : List (ι × Call)} (h : s.Reorders n xs ys) (hs : s.Reached n)
    (hplain : s.process.Plain) :
    (s.answers xs).Perm (s.answers ys) ∧ s.afterCalls xs = s.afterCalls ys := by
  induction h with
  | refl xs => exact ⟨.refl _, rfl⟩
  | @exchange n s x y xs hn hxy =>
    have hroom : n + 1 < UInt64.size := by
      simp only [UInt64.size]
      omega
    have hcommute := commute_of_independent hplain hs.numbered hroom hxy
    have hends := step_ends hplain hs.numbered hroom
    have hsecond := hcommute.right ▸ hends _
    have hfirst := hcommute.left ▸ hends _
    simp only [answers_cons (hends _), answers_cons hsecond, answers_cons hfirst,
      afterCalls_cons (hends _), afterCalls_cons hsecond, afterCalls_cons hfirst,
      hcommute.left, hcommute.right, hcommute.session_eq, and_true]
    exact .swap _ _ _
  | cons x h ih =>
    obtain ⟨hanswers, hafter⟩ := ih (hs.step x.2.step) (plain_step hplain x.2)
    cases hends : (Session.step _ x.2.step).reply.ends with
    | true =>
      rw [answers_cons hends, answers_cons hends, afterCalls_cons hends, afterCalls_cons hends]
      exact ⟨hanswers.cons _, hafter⟩
    | false =>
      rw [(answers_cons_unending hends _).1, (answers_cons_unending hends _).1,
        (answers_cons_unending hends _).2, (answers_cons_unending hends _).2]
      exact ⟨.refl _, rfl⟩
  | trans h h' ih ih' =>
    obtain ⟨hanswers, hafter⟩ := ih hs hplain
    obtain ⟨hanswers', hafter'⟩ := ih' hs hplain
    exact ⟨hanswers.trans hanswers', hafter.trans hafter'⟩

end Reordering

/-- From any state in which a session has not run out of numbers, has no override and uses the
engines of the library only, two independent calls have the same replies in either order, and leave
the same session.  So the calls of a run get the same replies, and leave the same session, in every
order that arises by exchanging such neighbours. -/
theorem independent_calls_commute (hs : s.Reached n) (hplain : s.process.Plain) :
    (n < 2 ^ 64 - 2 → ∀ a b, s.Independent a b → s.Commute a b) ∧
    ∀ (ι : Type) (xs ys : List (ι × Call)), s.Reorders n xs ys →
      (s.answers xs).Perm (s.answers ys) ∧ s.afterCalls xs = s.afterCalls ys := by
  refine ⟨fun hn a b hab ↦ ?_, fun ι xs ys hxy ↦ hxy.answers_perm hs hplain⟩
  exact commute_of_independent hplain hs.numbered (by simp only [UInt64.size]; omega) hab

end Session

/-- An encryption into the second half of a buffer, and a creation with the first half as the
key. -/
theorem Session.independent_calls_commute_creating :
    let start : Session := { process := { memory := fun _ ↦ List.replicate 32 0x41 } }
    let s := (start.step (.handleCreate (some "key") 0 16)).session
    let a : Call := .encrypt ⟨1⟩ (some "text") 0 16 (some "text") 16
    let b : Call := .create (some "text") 0 16
    let c : Call := .release ⟨1⟩
    let ab : List (Nat × Call) := [(0, a), (1, b), (2, c)]
    let ba : List (Nat × Call) := [(1, b), (0, a), (2, c)]
    s.Reached 1 ∧ s.process.Plain ∧ s.Independent a b ∧ s.Commute a b ∧
      (s.step a.step).reply = .signed 16 ∧ (s.step b.step).reply = .handle ⟨2⟩ ∧
      s.Reorders 1 ab ba ∧ (s.answers ab).Perm (s.answers ba) ∧
      s.afterCalls ab = s.afterCalls ba := by
  intro start s a b c ab ba
  have hissued : (start.step (.handleCreate (some "key") 0 16)).issued = 1 := by decide +kernel
  have hs : s.Reached (0 + _) := (Reached.start _).step (.handleCreate (some "key") 0 16)
  rw [hissued] at hs
  have hplain : s.process.Plain :=
    plain_step (s := start) ⟨rfl, nofun⟩ (.create (some "key") 0 16)
  have hcount : (Boundary.encryption s.process ⟨1⟩ (some "text") 0 16 (some "text") 16).1 =
      .ok 16 := by decide +kernel
  have hencrypts : (s.step a.step).reply = .signed 16 := reply_encrypt hcount
  have hnext : (Boundary.create (some "text") 0 16 s.process : Option (Run CipherError Handle)).map
      Run.outcome = some (.ok ⟨2⟩) := by decide +kernel
  obtain ⟨r, hr, hissued⟩ := Option.map_eq_some_iff.1 hnext
  have hcreates : (s.step b.step).reply = .handle ⟨2⟩ := reply_create hr hissued
  have hab : s.Independent a b := by
    refine ⟨by decide, by decide, by decide, nofun, ⟨?_, ?_⟩, ⟨?_, ?_⟩⟩
    · intro h hreply
      rw [hencrypts] at hreply
      cases hreply
    · rintro x y ⟨⟩ (⟨⟨⟩⟩ | ⟨⟨⟩⟩)
      decide
    · intro h hreply _
      rw [hcreates] at hreply
      obtain rfl := Reply.handle.inj hreply
      decide
    · nofun
  have hreorders : s.Reorders 1 ab ba := .exchange [(2, c)] (by decide) hab
  obtain ⟨hpair, hrun⟩ := independent_calls_commute hs hplain
  obtain ⟨hanswers, hafter⟩ := hrun Nat ab ba hreorders
  exact ⟨hs, hplain, hab, hpair (by decide) a b hab, hencrypts, hcreates, hreorders, hanswers,
    hafter⟩

end AesEcb
