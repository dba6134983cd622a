import AesEcb.Proofs.Candidates
import AesEcb.Proofs.KeyStore
import AesEcb.Proofs.Rollback
import AesEcb.Provider.Scripted

/-!
# Containment

Every call through handles returns, whatever the providers and overrides do.  If it fails, then
the session is as it was before, but for the calls that were made back into the library.
-/

namespace AesEcb

/-- The reply is one that the operation returns. -/
def Operation.Returns : Operation → Reply → Prop
  | create, .handle _ | encrypt, .signed _ | release, .done => True
  | _, _ => False

/-- The reply that stands for failure. -/
def Operation.sentinel : Operation → Reply
  | create => .handle .null
  | encrypt => .signed 0
  | release => .done

namespace Step

/-- The operation that the step carries out, if it is a call through handles. -/
def operation? : Step → Option Operation
  | handleCreate .. => some .create
  | handleEncrypt .. => some .encrypt
  | handleRelease _ => some .release
  | _ => none

/-- The step encrypts with a context in a slot or behind a handle that is not in the list. -/
def EncryptsWithout (released : List Handle) : Step → Prop
  | encryptRegion .. | encrypt .. | encryptInPlace .. => True
  | handleEncrypt h .. => h ∉ released
  | _ => False

end Step

namespace Session

/-- The calls that outside code makes back into the library during a call through handles. -/
def callsBack [LinkedCipher] (s : Session) : Step → List Callback
  | .handleCreate key offset length => Boundary.callsOnCreate s.process key offset length
  | .handleEncrypt h input inOffset length _ outOffset =>
    Boundary.callsOnEncrypt s.process h input inOffset length outOffset
  | _ => []

/-- The call ends in an error or a panic. -/
def Fails [LinkedCipher] (s : Session) : Step → Prop
  | .handleCreate key offset length => Boundary.CreateFails s.process key offset length
  | .handleEncrypt h input inOffset length output outOffset =>
    ∀ n, (Boundary.encryption s.process h input inOffset length output outOffset).1 ≠ .ok n
  | .handleRelease h => h ≠ .null ∧ s.process.handles.get? h = none
  | _ => False

def withMemory (s : Session) (m : Memory) : Session :=
  { s with process := { s.process with memory := m } }

def releasedOwners (s : Session) (released : List Handle) : List Instance :=
  (s.process.handles.entries.filter fun e ↦ e.1 ∈ released).map fun e ↦ e.2.owner

/-- But for the contents of buffers, the call leaves the session `s` as the calls `cs` back into the
library would leave it. -/
structure RolledBack [LinkedCipher] (s : Session) (cs : List Callback) (r : Result) : Prop where
  slots : r.session.slots = s.slots
  called : s.process.Called cs r.session.process
  encryptions : ∀ x, x.EncryptsWithout (releasedHandles cs) → ∀ m,
    ((r.session.withMemory m).step x).seen = ((s.withMemory m).step x).seen
  /-- What was acquired is destroyed, and so are the contexts that were released. -/
  providers : ∀ i, r.trace.count (.crossing (.providerDestroyed i)) =
    r.trace.count (.crossing (.providerReceived i)) +
      (s.releasedOwners (releasedHandles cs)).count i
  keys : ∀ i, r.trace.count (.crossing (.keyDestroyed i)) =
    r.trace.count (.crossing (.keyReceived i)) +
      (s.releasedOwners (releasedHandles cs)).count i

end Session

namespace Action

variable {ε α β : Type}

/-- The action always gives the same value, and keeps the memory. -/
def Steady (x : Action ε α) : Prop :=
  ∃ a, ∀ p, (x p).outcome = .ok a ∧ (x p).process.memory = p.memory

theorem Steady.pure (a : α) : Steady (Pure.pure a : Action ε α) :=
  ⟨a, fun _ ↦ ⟨rfl, rfl⟩⟩

theorem Steady.bind {x : Action ε α} {f : α → Action ε β} (hx : x.Steady)
    (hf : ∀ a, (f a).Steady) : (x >>= f).Steady := by
  obtain ⟨a, hx⟩ := hx
  obtain ⟨b, hf⟩ := hf a
  refine ⟨b, fun p ↦ ?_⟩
  obtain ⟨hok, hmemory⟩ := hx p
  rw [bind_run, Run.andThen_of_ok hok]
  exact ⟨(hf _).1, (hf _).2.trans hmemory⟩

end Action

namespace Context

variable {ε : Type}

theorem encryptInPlace_steady (running : Option Reference) (c : Context) (data : Bytes) :
    (c.encryptInPlace running data : Action ε Encryption).Steady := by
  refine ⟨⟨(c.key.transform data).left, (c.key.transform data).outcome⟩, fun p ↦ ?_⟩
  rw [encryptInPlace_run]
  exact ⟨rfl, (runCallbacks_ok running _ p).2⟩

theorem encrypt_steady (c : Context) (input output : Bytes) :
    (c.encrypt input output : Action ε Encryption).Steady := by
  apply encrypt_induction (P := Action.Steady)
  · exact .pure
  · exact c.encryptInPlace_steady none
  · exact fun _ _ hx ↦ hx.bind fun _ ↦ .pure _

theorem encryptRegion_steady (c : Context) (input : Bytes) (inOffset length : Nat)
    (output : Bytes) (outOffset : Nat) :
    (c.encryptRegion input inOffset length output outOffset : Action ε Encryption).Steady := by
  apply encryptRegion_induction (P := Action.Steady)
  · exact .pure
  · exact c.encryptInPlace_steady none
  · exact fun _ _ hx ↦ hx.bind fun _ ↦ .pure _

end Context

namespace Session

variable {s s' : Session} {m : Memory} {cs : List Callback}

theorem useSlot_seen_congr (hslots : s'.slots = s.slots) (slot : Nat) (output : String)
    {x : Context → Action CipherError Encryption} (hx : ∀ c, (x c).Steady) :
    ((s'.withMemory m).useSlot slot output x).seen =
      ((s.withMemory m).useSlot slot output x).seen := by
  have hcontext : (s'.withMemory m).context? slot = (s.withMemory m).context? slot := by
    simp only [context?, withMemory, hslots]
  cases hc : (s.withMemory m).context? slot with
  | none =>
    rw [hc] at hcontext
    simp only [useSlot, hcontext, hc]
    rfl
  | some c =>
    obtain ⟨e, he⟩ := hx c
    have hrun : ∀ p, x c p = ⟨.ok e, (x c p).trace, (x c p).process⟩ := fun p ↦ by rw [← (he p).1]
    simp only [useSlot_of_ok (hcontext.trans hc) (hrun _), useSlot_of_ok hc (hrun _), Result.seen,
      (he _).2]
    rfl

variable [LinkedCipher]

theorem seen_handleEncrypt (s : Session) (h : Handle) (input : Pointer) (inOffset length : Int32)
    (output : Pointer) (outOffset : Int32) :
    let e := Boundary.encryption s.process h input inOffset length output outOffset
    (s.step (.handleEncrypt h input inOffset length output outOffset)).seen =
      (.signed (e.1.getD 0), e.2) := by
  obtain ⟨houtcome, hmemory⟩ := Boundary.encrypt_outcome_memory (ε := CipherError) h input inOffset
    length output outOffset s.process
  simp only [step, perform, conclude, Result.seen, houtcome, hmemory]

/-- An encryption does what it would do before the calls `cs`, unless they release its handle. -/
theorem encryption_seen (hslots : s'.slots = s.slots) (hcalled : s.process.Called cs s'.process)
    {x : Step} (hx : x.EncryptsWithout (releasedHandles cs)) (m : Memory) :
    ((s'.withMemory m).step x).seen = ((s.withMemory m).step x).seen := by
  cases x with
  | encryptRegion slot input inOffset length output outOffset =>
    exact useSlot_seen_congr hslots slot output fun c ↦ c.encryptRegion_steady _ _ _ _ _
  | encrypt slot input output =>
    exact useSlot_seen_congr hslots slot output fun c ↦ c.encrypt_steady _ _
  | encryptInPlace slot output =>
    exact useSlot_seen_congr hslots slot output fun c ↦ c.encryptInPlace_steady none _
  | handleEncrypt h input inOffset length output outOffset =>
    have hget : s'.process.handles.get? h = s.process.handles.get? h := by
      rw [hcalled.get?_eq, if_neg hx]
    simp only [seen_handleEncrypt, withMemory, Boundary.encryption, hget]
  | _ => exact hx.elim

omit [LinkedCipher] in
theorem count_owners (hslots : s'.slots = s.slots) (hcalled : s.process.Called cs s'.process)
    (i : Instance) :
    s.owners.count i = s'.owners.count i + (s.releasedOwners (releasedHandles cs)).count i := by
  have hperm := List.filter_append_perm (fun e ↦ decide (e.1 ∈ releasedHandles cs))
    s.process.handles.entries
  have hcount := (hperm.map fun e ↦ e.2.owner).count_eq i
  simp only [List.map_append, List.count_append] at hcount
  simp only [owners, contexts, releasedOwners, hslots, hcalled.entries_eq, List.map_append,
    List.count_append, List.map_map, decide_not]
  simp only [Function.comp_def]
  omega

theorem rolledBack {x : Step} (hslots : (s.step x).session.slots = s.slots)
    (hcalled : s.process.Called cs (s.step x).session.process) : s.RolledBack cs (s.step x) := by
  have hsettles := s.step_settles x
  refine ⟨hslots, hcalled, fun y hy m ↦ encryption_seen hslots hcalled hy m, ?_, ?_⟩
  · intro i
    have hproviders := hsettles.providers i
    have howners := count_owners hslots hcalled i
    simp only [books] at hproviders
    omega
  · intro i
    have hkeys := hsettles.keys i
    have howners := count_owners hslots hcalled i
    simp only [books] at hkeys
    omega

theorem contained {α : Type} {x : Step} {run : Run CipherError α} {reply : α → Reply}
    {operation : Operation} {sentinel : α} {good : α → Prop}
    (hstep : s.step x = s.conclude run reply)
    (hrun : run.RollsBack operation sentinel good cs s.process)
    (hreturns : ∀ a, operation.Returns (reply a)) (hsentinel : reply sentinel = operation.sentinel)
    (hgood : ∀ a, good a → reply a ≠ .handle .null ∧ ¬ s.Fails x) :
    operation.Returns (s.step x).reply ∧
      (s.Fails x ∨ (s.step x).reply = .handle .null → (s.step x).trace.failed? = some operation) ∧
      ((s.step x).trace.failed? = some operation →
        (s.step x).reply = operation.sentinel ∧ s.RolledBack cs (s.step x)) := by
  have htrace : (s.step x).trace = run.trace := by
    rw [hstep]
    rfl
  cases hrun with
  | success a ha houtcome hlast =>
    have hreply : (s.step x).reply = reply a := by rw [hstep, reply_of_ok houtcome]
    obtain ⟨hne, hsucceeds⟩ := hgood a ha
    rw [htrace, hreply]
    refine ⟨hreturns a, ?_, fun hfailed ↦ absurd hfailed hlast⟩
    rintro (hfails | hnull)
    · exact absurd hfails hsucceeds
    · exact absurd hnull hne
  | failure houtcome hlast hcalled =>
    have hreply : (s.step x).reply = reply sentinel := by rw [hstep, reply_of_ok houtcome]
    have hback : s.RolledBack cs (s.step x) := by
      apply rolledBack
      · rw [hstep]
        rfl
      · rw [hstep]
        exact hcalled
    rw [htrace, hreply]
    exact ⟨hreturns _, fun _ ↦ hlast, fun _ ↦ ⟨hsentinel, hback⟩⟩

end Session

namespace Boundary

variable [LinkedCipher] {key : Pointer} {offset length : Int32} {p : Process}

/-- Calls back into the library can only make room, so where there is a free handle before a
creation there is one when it comes to need it. -/
theorem full_of_create_eq_none {ε : Type}
    (hnone : (create key offset length p : Option (Run ε Handle)) = none) :
    2 ^ 64 - 1 ≤ p.handles.size ∧ ¬ CreateFails p key offset length := by
  obtain ⟨c, hok, hins⟩ := createBy_eq_none_iff.1 hnone
  have hcalled := acquire_called key offset length p
  refine ⟨?_, not_createFails_of_ok hok⟩
  by_contra hroom
  have hshrunk : (acquireBy Override.ask key offset length p).process.handles.size ≤
      p.handles.size := by
    rw [Registry.size, Registry.size, hcalled.entries_eq]
    exact List.length_filter_le _ _
  obtain ⟨h, u, hissued⟩ := Registry.exists_insert? c (hshrunk.trans_lt (not_le.1 hroom))
  rw [hins] at hissued
  cases hissued

/-- Whatever an override does and hands over, a creation that issues no handle says that it has
failed, and leaves the process as the override has left it. -/
theorem createBy_null_iff {ε : Type} {ask : Override → Bytes → Action Empty (Option Context)}
    {r : Run ε Handle} (hr : createBy ask key offset length p = some r) :
    (r.outcome = .ok .null ↔ r.trace.failed? = some .create) ∧
      (r.outcome = .ok .null → r.process = p ∨ ∃ o data, p.override? = some o ∧
        r.process = (ask o data p).process) := by
  rcases createBy_cases hr with ⟨c, h, u, -, hins, rfl⟩ | ⟨hfailed, rfl⟩
  · obtain ⟨hfresh, -, -⟩ := Registry.insert?_eq_some_iff.1 hins
    have hne := (Registry.isFree_of_fresh? hfresh).1
    have hnot : (Outcome.ok h : Outcome ε Handle) ≠ .ok .null := fun heq ↦ hne (Outcome.ok.inj heq)
    refine ⟨⟨fun heq ↦ absurd heq hnot, fun hlast ↦ ?_⟩, fun heq ↦ absurd heq hnot⟩
    rw [Trace.failed?_append_singleton] at hlast
    cases hlast
  · exact ⟨⟨fun _ ↦ failed?_append_warning hfailed _ _, fun _ ↦ rfl⟩,
      fun _ ↦ acquireBy_process hfailed⟩

end Boundary

/-- A call through handles returns, but that a creation looks for a free handle without end where
there is none: every handle is bound then, and no memory has room for as many.  If a call fails it
says so, returns the value that stands for failure, and leaves nothing behind; a creation that
returns the null handle has failed.  Whatever else an override does and hands over, a creation that
fails leaves the process as the override has left it. -/
theorem Session.call_contained [LinkedCipher] (s : Session) {x : Step} {operation : Operation}
    (hx : x.operation? = some operation) :
    let r := s.step x
    (operation.Returns r.reply ∨
        r.reply = .unending ∧ operation = .create ∧ 2 ^ 64 - 1 ≤ s.process.handles.size) ∧
      (s.Fails x ∨ r.reply = .handle .null → r.trace.failed? = some operation) ∧
      (r.trace.failed? = some operation →
        r.reply = operation.sentinel ∧ s.RolledBack (s.callsBack x) r) ∧
      ∀ key offset length, x = .handleCreate key offset length →
        ∀ (ask : Override → Bytes → Action Empty (Option Context)) (run : Run CipherError Handle),
          Boundary.createBy ask key offset length s.process = some run →
          (run.outcome = .ok .null ↔ run.trace.failed? = some .create) ∧
            (run.outcome = .ok .null → run.process = s.process ∨
              ∃ o data, s.process.override? = some o ∧
                run.process = (ask o data s.process).process) := by
  intro r
  suffices h : _ ∧ _ ∧ _ from
    ⟨h.1, h.2.1, h.2.2, fun _ _ _ _ _ _ hrun ↦ Boundary.createBy_null_iff hrun⟩
  cases x with
  | handleCreate key offset length =>
    obtain rfl := Option.some.inj hx
    cases hcreate : (Boundary.create key offset length s.process :
        Option (Run CipherError Handle)) with
    | none =>
      have hr : r = s.unending := by simp only [r, step, hcreate]
      obtain ⟨hfull, hsucceeds⟩ := Boundary.full_of_create_eq_none hcreate
      rw [hr]
      refine ⟨.inr ⟨rfl, rfl, hfull⟩, ?_, ?_⟩
      · rintro (hfails | hnull)
        · exact absurd hfails hsucceeds
        · cases hnull
      · intro hfailed
        cases hfailed
    | some run =>
      have hstep : r = s.conclude run .handle := by simp only [r, step, hcreate]
      refine (contained hstep (Boundary.create_rollsBack hcreate) (fun _ ↦ trivial) rfl ?_).imp_left
        .inl
      rintro h ⟨hne, hsucceeds⟩
      refine ⟨?_, hsucceeds⟩
      rintro ⟨⟩
      exact hne rfl
  | handleEncrypt h input inOffset length output outOffset =>
    obtain rfl := Option.some.inj hx
    have hstep : r = s.conclude (Boundary.encrypt h input inOffset length output outOffset
      s.process) .signed := rfl
    refine (contained hstep (Boundary.encrypt_rollsBack _ _ _ _ _ _ _) (fun _ ↦ trivial) rfl
      ?_).imp_left .inl
    rintro n hn
    exact ⟨by rintro ⟨⟩, fun hfails ↦ hfails n hn⟩
  | handleRelease h =>
    obtain rfl := Option.some.inj hx
    have hstep : r = s.conclude (Boundary.release none h s.process) fun _ ↦ .done := rfl
    refine (contained hstep (Boundary.release_rollsBack h s.process) (fun _ ↦ trivial) rfl
      ?_).imp_left .inl
    rintro _ hbound
    exact ⟨by rintro ⟨⟩, fun hfails ↦ hbound.elim hfails.1 fun hget ↦ hget hfails.2⟩
  | _ => cases hx

/-- The override opens a context for itself, sets another default, removes itself, releases a
handle, and then has a provider panic. -/
theorem Session.call_contained_reentrant :
    let steady : ProviderScript := { name := "steady" }
    let failing : ProviderScript := { name := "failing", panicAt? := some .onImport }
    let calls : List Callback := [.setDefault .linked, .clearOverride, .release ⟨1⟩]
    let deeds (key : Bytes) : List Deed :=
      .opens steady.provider key :: calls.map .call ++ [.opens failing.provider key]
    let c : Context := { owner := ⟨0, "steady", false⟩, key := steady.importedKey .aes128 }
    let s : Session :=
      { process :=
          { override? := some ⟨fun key _ ↦ { deeds := deeds key, answer := .hands 0 }⟩
            handles := { entries := [(⟨1⟩, c)], nextId := 1, nodup := List.nodup_singleton _ }
            memory := fun _ ↦ List.replicate 16 0x41
            nextSerial := 1 } }
    let x : Step := .handleCreate (some "key") 0 16
    let own : Instance := ⟨1, "steady", false⟩
    x.operation? = some .create ∧ (s.step x).trace.failed? = some .create ∧
      s.callsBack x = calls ∧ (s.step x).reply = .handle .null ∧
      .crossing (.keyReceived own) ∈ (s.step x).trace ∧
      (s.step x).trace.count (.crossing (.providerDestroyed own)) = 1 ∧
      s.RolledBack calls (s.step x) := by
  intro steady failing calls deeds c s x own
  have hlast : (s.step x).trace.failed? = some .create := by decide
  have hcalls : s.callsBack x = calls := by decide
  obtain ⟨-, -, hfailed, -⟩ := Session.call_contained s (x := x) rfl
  obtain ⟨hreply, hback⟩ := hfailed hlast
  exact ⟨rfl, hlast, hcalls, hreply, by decide, by decide, hcalls ▸ hback⟩

end AesEcb
