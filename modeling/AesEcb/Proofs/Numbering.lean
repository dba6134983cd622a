import AesEcb.Proofs.Reachability

/-!
# The numbers of the handles

Nothing but a creation binds a handle, and nothing else moves the counter.  So the counter is the
number of handles issued since the session started, and no handle in use lies beyond it, as long as
there are numbers left.
-/

namespace AesEcb

namespace Registry

variable {α : Type} {t u v : Registry α} {a : α} {h : Handle} {n : Nat}

/-- The registry `u` has the counter of `t`, and no other handles than `t`. -/
structure NarrowsTo (t u : Registry α) : Prop where
  nextId_eq : u.nextId = t.nextId
  keys_subset : u.keys ⊆ t.keys

theorem NarrowsTo.refl (t : Registry α) : t.NarrowsTo t := ⟨rfl, List.Subset.refl _⟩

theorem NarrowsTo.trans (h : t.NarrowsTo u) (h' : u.NarrowsTo v) : t.NarrowsTo v where
  nextId_eq := h'.nextId_eq.trans h.nextId_eq
  keys_subset := List.Subset.trans h'.keys_subset h.keys_subset

/-- Unless the numbers have run out, `n` handles have been issued, and none in use lies beyond. -/
def Numbered (t : Registry α) (n : Nat) : Prop :=
  n < UInt64.size → t.nextId.toNat = n ∧ ∀ h ∈ t.keys, h.id.toNat ≤ n

theorem Numbered.narrowsTo (ht : t.Numbered n) (htu : t.NarrowsTo u) : u.Numbered n := by
  intro hn
  obtain ⟨hnext, hused⟩ := ht hn
  refine ⟨?_, fun h hmem ↦ hused h (htu.keys_subset hmem)⟩
  rw [htu.nextId_eq]
  exact hnext

theorem Numbered.insert (ht : t.Numbered n) (hins : t.insert? a = some (h, u)) :
    u.Numbered (n + 1) := by
  intro hn
  obtain ⟨hnext, hused⟩ := ht (Nat.lt_of_succ_lt hn)
  obtain ⟨h', u', hins', hnumber⟩ := insert?_of_le a (hnext.symm ▸ hn) (hnext.symm ▸ hused)
  obtain ⟨rfl, rfl⟩ := Prod.mk.inj (Option.some.inj (hins'.symm.trans hins))
  rw [hnext] at hnumber
  obtain ⟨-, hentries, hid⟩ := insert?_eq_some_iff.1 hins
  refine ⟨by rw [hid, hnumber], fun k hk ↦ ?_⟩
  rw [keys, hentries, List.map_cons, List.mem_cons] at hk
  rcases hk with rfl | hk
  · exact hnumber.le
  · exact (hused k hk).trans (Nat.le_succ n)

end Registry

theorem Process.Called.narrowsTo {p q : Process} {cs : List Callback} (h : p.Called cs q) :
    p.handles.NarrowsTo q.handles where
  nextId_eq := h.nextId_eq
  keys_subset := by
    rw [Registry.keys, h.entries_eq]
    exact List.map_subset _ (List.filter_subset_self _)

namespace Action

variable {ε α β : Type} {x : Action ε α}

/-- The action issues no handle, however it ends. -/
def BindsNone (x : Action ε α) : Prop := ∀ p : Process, p.handles.NarrowsTo (x p).process.handles

namespace BindsNone

theorem of_handles (h : ∀ p, (x p).process.handles = p.handles) : BindsNone x := by
  intro p
  rw [h]
  exact .refl _

theorem of_called (h : ∀ p : Process, ∃ cs, p.Called cs (x p).process) : BindsNone x := by
  intro p
  obtain ⟨cs, hcalled⟩ := h p
  exact hcalled.narrowsTo

theorem finish (o : Outcome ε α) : BindsNone (finish o) := of_handles fun _ ↦ rfl

theorem bind {f : α → Action ε β} (hx : BindsNone x) (hf : ∀ a, BindsNone (f a)) :
    BindsNone (x >>= f) := by
  intro p
  cases hrun : (x p).outcome with
  | ok a =>
    rw [bind_run, Run.andThen_of_ok hrun]
    exact (hx p).trans (hf a _)
  | error e =>
    simp only [bind_run, Run.andThen, hrun]
    exact hx p
  | panicked =>
    simp only [bind_run, Run.andThen, hrun]
    exact hx p

end BindsNone

end Action

section Actions

variable {ε : Type}

theorem Context.encryptInPlace_bindsNone (c : Context) (data : Bytes) :
    Action.BindsNone (c.encryptInPlace none data : Action ε Encryption) := by
  apply Action.BindsNone.of_called
  intro p
  rw [encryptInPlace_run]
  exact ⟨_, runCallbacks_called none _ p⟩

variable [LinkedCipher]

theorem Context.ofProvider_bindsNone (provider : Provider) (key : Bytes) :
    Action.BindsNone (ofProvider provider key) :=
  .of_called fun p ↦ ⟨_, ofProvider_called provider key p⟩

theorem Context.ofConfig_bindsNone (config : Configuration) (key : Bytes) (offset length : Nat) :
    Action.BindsNone (ofConfig config key offset length) :=
  .of_called fun p ↦ ⟨_, ofConfig_called config key offset length p⟩

theorem Factory.request_bindsNone (key : Bytes) (offset length : Nat) :
    Action.BindsNone (request key offset length) :=
  .of_called fun p ↦ request_called key offset length p

end Actions

namespace Boundary

variable {ε : Type} {p : Process} {n : Nat}

/-- A creation binds nothing when it returns the null handle, and else the handle it returns. -/
theorem create_numbered [LinkedCipher] {key : Pointer} {offset length : Int32} {r : Run ε Handle}
    (hr : create key offset length p = some r) (hp : p.handles.Numbered n) :
    ∃ h, r.outcome = .ok h ∧ r.process.handles.Numbered (n + if h = .null then 0 else 1) := by
  have hacquired := hp.narrowsTo (acquire_called key offset length p).narrowsTo
  rcases createBy_cases hr with ⟨c, h, u, -, hins, rfl⟩ | ⟨-, rfl⟩
  · have hfree := Registry.isFree_of_fresh? (Registry.insert?_eq_some_iff.1 hins).1
    refine ⟨h, rfl, ?_⟩
    rw [if_neg hfree.1]
    exact hacquired.insert hins
  · exact ⟨.null, rfl, hacquired⟩

end Boundary

namespace Session

variable {s : Session} {n : Nat} {α : Type}

/-- How many handles a step has issued: one, or none. -/
def Result.issued (r : Result) : Nat := if r.reply.issues then 1 else 0

/-- The result is that of a step which issues no handle. -/
structure Result.BindsNone (r : Result) (s : Session) : Prop where
  issues_eq : r.reply.issues = false
  narrowsTo : s.process.handles.NarrowsTo r.session.process.handles

theorem Result.BindsNone.issued_eq {r : Result} (hr : r.BindsNone s) : r.issued = 0 :=
  if_neg (by rw [hr.issues_eq]; exact Bool.false_ne_true)

theorem perform_bindsNone {x : Action CipherError α} (hx : x.BindsNone) {reply : α → Reply}
    (hreply : ∀ a, (reply a).issues = false) : (s.perform x reply).BindsNone s where
  issues_eq := by
    simp only [perform, conclude]
    cases (x s.process).outcome with
    | ok a => exact hreply a
    | error e => rfl
    | panicked => rfl
  narrowsTo := hx _

theorem openSlot_bindsNone {x : Action CipherError Context} (hx : x.BindsNone) :
    (s.openSlot x).BindsNone s where
  issues_eq := by
    simp only [openSlot, perform, conclude]
    cases (x s.process).outcome with
    | ok c => rfl
    | error e => rfl
    | panicked => rfl
  narrowsTo := by
    rw [process_openSlot]
    exact hx _

theorem useSlot_bindsNone {x : Context → Action CipherError Encryption}
    (hx : ∀ c, (x c).BindsNone) (slot : Nat) (output : String) :
    (s.useSlot slot output x).BindsNone s := by
  rw [useSlot]
  cases s.context? slot with
  | none => exact ⟨rfl, .refl _⟩
  | some c =>
    refine perform_bindsNone ?_ fun _ ↦ rfl
    exact (hx c).bind fun e ↦ Action.BindsNone.bind (.of_handles fun _ ↦ rfl) fun _ ↦ .finish _

variable [LinkedCipher]

theorem step_numbered (x : Step) (hs : s.process.handles.Numbered n) :
    (s.step x).session.process.handles.Numbered (n + (s.step x).issued) := by
  have hnone : ∀ r : Result, r.BindsNone s →
      r.session.process.handles.Numbered (n + r.issued) := by
    intro r hr
    rw [hr.issued_eq]
    exact hs.narrowsTo hr.narrowsTo
  cases x with
  | handleCreate key offset length =>
    cases hcreate : (Boundary.create key offset length s.process :
        Option (Run CipherError Handle)) with
    | none =>
      have hunending : s.step (.handleCreate key offset length) = s.unending := by
        simp only [step, hcreate]
      rw [hunending]
      exact hs
    | some run =>
      have hstep : s.step (.handleCreate key offset length) = s.conclude run .handle := by
        simp only [step, hcreate]
      obtain ⟨h, houtcome, hnumbered⟩ := Boundary.create_numbered hcreate hs
      have hissued : (s.conclude run .handle).issued = if h = .null then 0 else 1 := by
        rw [Result.issued, reply_of_ok houtcome, Reply.issues]
        by_cases hnull : h = .null
        · simp [hnull, Handle.isNull_iff]
        · have hfalse : h.isNull = false := by simpa [← Handle.isNull_iff] using hnull
          simp [hnull, hfalse]
      rw [hstep, hissued]
      exact hnumbered
  | openKey key => exact hnone _ (openSlot_bindsNone (Context.ofConfig_bindsNone _ _ _ _))
  | openRegion key offset length =>
    exact hnone _ (openSlot_bindsNone (Context.ofConfig_bindsNone _ _ _ _))
  | openOn config key offset length =>
    exact hnone _ (openSlot_bindsNone (Context.ofConfig_bindsNone _ _ _ _))
  | openWith provider key =>
    exact hnone _ (openSlot_bindsNone (Context.ofProvider_bindsNone _ _))
  | request key offset length =>
    exact hnone _ (openSlot_bindsNone (Factory.request_bindsNone _ _ _))
  | encryptRegion slot input inOffset length output outOffset =>
    refine hnone _ (useSlot_bindsNone (fun c ↦ ?_) _ _)
    exact Context.encryptRegion_induction (P := Action.BindsNone) _ _ _ _ _ (fun _ ↦ .finish _)
      c.encryptInPlace_bindsNone fun _ _ hx ↦ hx.bind fun _ ↦ .finish _
  | encrypt slot input output =>
    refine hnone _ (useSlot_bindsNone (fun c ↦ ?_) _ _)
    exact Context.encrypt_induction (P := Action.BindsNone) _ _ (fun _ ↦ .finish _)
      c.encryptInPlace_bindsNone fun _ _ hx ↦ hx.bind fun _ ↦ .finish _
  | encryptInPlace slot output =>
    exact hnone _ (useSlot_bindsNone (fun c ↦ c.encryptInPlace_bindsNone _) _ _)
  | release slot =>
    simp only [step]
    cases s.context? slot with
    | none => exact hs
    | some c => exact hs
  | setDefault engine => exact hs
  | setOverride o => exact hs
  | getDefault => exact hs
  | handleEncrypt h input inOffset length output outOffset =>
    refine hnone _ (perform_bindsNone (.of_called fun p ↦ ?_) fun _ ↦ rfl)
    exact ⟨_, Boundary.encrypt_called h input inOffset length output outOffset p⟩
  | handleRelease h =>
    refine hnone _ (perform_bindsNone (.of_called fun p ↦ ?_) fun _ ↦ rfl)
    exact ⟨_, (Callback.release h).run_called none p⟩

/-- The states of a session in which it has issued `n` handles so far. -/
inductive Reached : Nat → Session → Prop
  | start (m : Memory) : Reached 0 { process := { memory := m } }
  | step {n : Nat} {s : Session} (hs : Reached n s) (x : Step) :
    Reached (n + (s.step x).issued) (s.step x).session
  | write {n : Nat} {s : Session} (hs : Reached n s) (m : Memory) : Reached n (s.withMemory m)

/-- As long as there are numbers left, the counter is the number of handles issued. -/
theorem Reached.numbered (hs : s.Reached n) : s.process.handles.Numbered n := by
  induction hs with
  | start m => exact fun _ ↦ ⟨rfl, nofun⟩
  | step hs x ih => exact step_numbered x ih
  | write hs m ih => exact ih

end Session

end AesEcb
