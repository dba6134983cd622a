import AesEcb.Proofs.Creation
import AesEcb.Proofs.Opening
import AesEcb.Proofs.Ownership

/-!
# Getting contexts and giving them up

Every action of the library is tidy.  An action that opens a context hands just this one on, and
every other keeps nothing: what a failure, a refusal or a panic leaves behind is destroyed.
-/

namespace AesEcb

variable {ε : Type}

namespace Context

theorem encryptInPlace_tidy (c : Context) (data : Bytes) :
    Action.Tidy [] (c.encryptInPlace none data : Action ε Encryption) fun _ ↦ [] := by
  apply Action.Tidy.bind (Action.Tidy.emit (by simp [Event.isNeutral]))
  rintro ⟨⟩
  apply Action.Tidy.bind (Action.Tidy.emit (by simp [Event.isNeutral]))
  rintro ⟨⟩
  apply Action.Tidy.bind (Action.Tidy.runCallbacks _)
  rintro ⟨⟩
  exact Action.Tidy.pure rfl

theorem encrypt_tidy (c : Context) (input output : Bytes) :
    Action.Tidy [] (c.encrypt input output : Action ε Encryption) fun _ ↦ [] := by
  apply encrypt_induction (P := fun x ↦ Action.Tidy [] x fun _ ↦ [])
  · exact fun _ ↦ Action.Tidy.pure rfl
  · exact c.encryptInPlace_tidy
  · exact fun _ _ hx ↦ hx.bind fun _ ↦ Action.Tidy.pure rfl

theorem encryptRegion_tidy (c : Context) (input : Bytes) (inOffset length : Nat) (output : Bytes)
    (outOffset : Nat) :
    Action.Tidy [] (c.encryptRegion input inOffset length output outOffset : Action ε Encryption)
      fun _ ↦ [] := by
  apply encryptRegion_induction (P := fun x ↦ Action.Tidy [] x fun _ ↦ [])
  · exact fun _ ↦ Action.Tidy.pure rfl
  · exact c.encryptInPlace_tidy
  · exact fun _ _ hx ↦ hx.bind fun _ ↦ Action.Tidy.pure rfl

theorem asking_neutral (owner : Instance) (key : Bytes) :
    ∀ e ∈ asking owner key, e.isNeutral = true := by
  rw [asking]
  cases KeySize.ofLength key.length with
  | error e => simp
  | ok size => simp [Event.isNeutral]

end Context

namespace Boundary

theorem warning_neutral {α : Type} (operation : Operation) (o : Outcome BoundaryError α) :
    ∀ e ∈ warning operation o, e.isNeutral = true := by
  cases o with
  | ok a => simp [warning]
  | error e => simp [warning, Event.isNeutral]
  | panicked => simp [warning, Event.isNeutral]

theorem release_tidy (h : Handle) :
    Action.Tidy [] (release none h : Action ε Unit) fun _ ↦ [] := by
  intro p
  rw [Outcome.kept_nothing]
  exact release_settles none p h

theorem encryptWith_settles (c : Context) (running : Reference) (input : Pointer)
    (inOffset length : Int32) (output : Pointer) (outOffset : Int32) (p : Process) :
    let r := encryptWith (c.encryptInPlace (some running)) input inOffset length output outOffset p
    (p.books []).Settles r.trace (r.process.books (p.deferred (some running) r.process)) := by
  intro r
  have hr : r = _ := encryptWith_run c (some running) input inOffset length output outOffset p
  cases harguments : arguments p.memory input inOffset length outOffset with
  | error e =>
    simp only [harguments] at hr
    rw [hr, Process.deferred_of_references_eq rfl]
    exact .refl _
  | ok named =>
    obtain ⟨target, data⟩ := named
    simp only [harguments, Context.encryptInPlace_run] at hr
    rw [hr]
    have hnews : ∀ e ∈ [Event.diagnostic (.encrypting data.length),
        .crossing (.transformAsked c.owner data)], e.isNeutral = true := by
      simp [Event.isNeutral]
    exact (Books.Settles.of_neutral hnews _).trans (runCallbacks_settles (some running) p _)

/-- A key that releases the handle it is used under leaves its context to the end of the call. -/
theorem encrypt_tidy (h : Handle) (input : Pointer) (inOffset length : Int32) (output : Pointer)
    (outOffset : Int32) :
    Action.Tidy [] (encrypt h input inOffset length output outOffset : Action ε Int32)
      fun _ ↦ [] := by
  intro p
  rw [encrypt_run]
  cases hget : p.handles.get? h with
  | none => exact .of_neutral (by simp [Event.isNeutral]) _
  | some c =>
    let running : Reference := ⟨h, c.owner⟩
    let r := encryptWith (c.encryptInPlace (some running)) input inOffset length output outOffset p
    have hused : (p.books []).Settles r.trace
        (r.process.books (p.deferred (some running) r.process)) :=
      encryptWith_settles c running input inOffset length output outOffset p
    have hend := (hused.trans (Process.deferred_settles hget r.process)).trans
      (.of_neutral (warning_neutral .encrypt r.outcome) _)
    exact hend

end Boundary

variable [LinkedCipher]

namespace Context

theorem ofProvider_tidy (provider : Provider) (key : Bytes) :
    Action.Tidy [] (ofProvider provider key) fun c ↦ [c.owner] := by
  intro p
  rw [ofProvider_run]
  let owner := p.nextInstance provider
  let p' := { p with nextSerial := p.nextSerial + 1 }
  have hreceived := Books.Settles.receipt p.owners p.owners owner
  have hasked := Books.Settles.of_neutral (asking_neutral owner key)
    ⟨owner :: p.owners, p.owners, p.nextSerial + 1⟩
  -- Until its key is received the provider is owned without one.
  have hcalled := (Action.Tidy.runCallbacks (ε := CipherError)
    (provider.reactionTo key).callbacks p').frame [owner] []
  rw [Outcome.kept_nothing] at hcalled
  have hbefore := (hreceived.trans hasked).trans hcalled
  cases houtcome : (provider.reactionTo key).outcome with
  | ok k =>
    simp only [houtcome, Outcome.map, settlement]
    exact hbefore.trans (.opening _ _ _ owner k.size)
  | error e =>
    simp only [houtcome, Outcome.map, settlement]
    exact hbefore.trans (.refusal _ _ _ owner)
  | panicked =>
    simp only [houtcome, Outcome.map, settlement]
    exact hbefore.trans (.refusal _ _ _ owner)

theorem ofConfig_tidy (config : Configuration) (key : Bytes) (offset length : Nat) :
    Action.Tidy [] (ofConfig config key offset length) fun c ↦ [c.owner] := by
  apply Action.Tidy.bind (Action.Tidy.finish_nothing _)
  intro size
  apply Action.Tidy.bind (Action.Tidy.finish_nothing _)
  intro bytes
  exact ofProvider_tidy _ _

end Context

/-! What an override owns is given up at the latest when it has answered. -/
section Override

def owners (own : List Context) : List Instance := own.map Context.owner

omit [LinkedCipher] in
theorem teardowns_settles (own : List Context) (given : List Instance) (p : Process) :
    (p.books (owners own ++ given)).Settles (teardowns own) (p.books given) := by
  induction own with
  | nil => exact .refl _
  | cons c own ih => exact (Books.Settles.closing _ _ _ c).trans ih

omit [LinkedCipher] in
theorem owners_perm_eraseIdx {own : List Context} {place : Nat} {c : Context}
    (hc : own[place]? = some c) :
    (c.owner :: owners (own.eraseIdx place)).Perm (owners own) := by
  obtain ⟨hplace, rfl⟩ := List.getElem?_eq_some_iff.1 hc
  exact (List.getElem_cons_eraseIdx_perm hplace).map _

omit [LinkedCipher] in
theorem giveUp_tidy (own : List Context) :
    Action.Tidy (owners own) (Action.emit (teardowns own) : Action ε Unit) fun _ ↦ [] := by
  intro p
  have hend := teardowns_settles own [] p
  rwa [List.append_nil] at hend

/-- A deed that panics leaves the contexts that were owned before it. -/
theorem Deed.run_settles (own : List Context) (d : Deed) (p : Process) :
    let r := (d.run own : Action ε (List Context)) p
    (p.books (owners own)).Settles r.trace (r.process.books (owners (r.outcome.getD own))) := by
  cases d with
  | call c =>
    have hcalled := Process.books_frame (c.run_settles (ε := ε) none p) (owners own)
    simp only [Process.deferred, List.append_nil] at hcalled
    simp only [Deed.run, Action.bind_run, Run.andThen_of_ok (c.run_ok none p).1, Action.pure_run,
      Run.after_mk, List.append_nil]
    exact hcalled
  | opens provider key =>
    have hopened := Process.books_frame (Context.ofProvider_tidy provider key p) (owners own)
    rw [List.append_nil] at hopened
    simp only [Deed.run, Action.bind_run, Action.orNone, Run.mapOutcome]
    cases hrun : (Context.ofProvider provider key p).outcome with
    | ok c =>
      rw [hrun] at hopened
      have hperm : (owners own ++ [c.owner]).Perm (owners (c :: own)) :=
        List.perm_append_singleton _ _
      simp only [Run.andThen_ok, Action.pure_run, Run.after_mk]
      exact hopened.trans (Process.books_perm _ hperm)
    | error e =>
      rw [hrun] at hopened
      simp only [Outcome.kept, List.append_nil] at hopened
      simp only [Run.andThen_ok, Action.pure_run, Run.after_mk, List.append_nil]
      exact hopened
    | panicked =>
      rw [hrun] at hopened
      simp only [Outcome.kept, List.append_nil] at hopened
      simp only [Run.andThen_panicked]
      exact hopened
  | drops place =>
    cases hc : own[place]? with
    | none =>
      simp only [Deed.run, hc]
      exact .refl _
    | some c =>
      have hclosed := Books.Settles.closing (owners (own.eraseIdx place) ++ p.owners)
        (owners (own.eraseIdx place) ++ p.owners) p.nextSerial c
      simp only [Deed.run, hc, Action.bind_run, Action.emit_run, Run.andThen_ok, Action.pure_run,
        Run.after_mk, List.append_nil]
      exact (p.books_perm (owners_perm_eraseIdx hc).symm).trans hclosed

theorem runDeeds_tidy (own : List Context) (ds : List Deed) :
    Action.Tidy (owners own) (runDeeds own ds : Action ε (List Context)) owners := by
  induction ds generalizing own with
  | nil => exact Action.Tidy.pure rfl
  | cons d ds ih =>
    refine Action.Tidy.bind (fun p ↦ ?_) ih
    have hdone := d.run_settles (ε := ε) own p
    simp only [Action.atExit, Run.followedBy]
    cases hrun : ((d.run own : Action ε (List Context)) p).outcome with
    | ok own' =>
      simp only [hrun, Outcome.getD] at hdone
      simpa [Outcome.isOk, Outcome.kept] using hdone
    | error e =>
      simp only [hrun, Outcome.getD] at hdone
      exact hdone.trans (giveUp_tidy (ε := ε) own _)
    | panicked =>
      simp only [hrun, Outcome.getD] at hdone
      exact hdone.trans (giveUp_tidy (ε := ε) own _)

omit [LinkedCipher] in
theorem Answer.run_tidy (own : List Context) (answer : Answer) :
    Action.Tidy (owners own) (answer.run own : Action ε (Option Context)) fun c? ↦
      c?.elim [] fun c ↦ [c.owner] := by
  cases answer with
  | panic => exact (giveUp_tidy own).bind fun _ ↦ Action.Tidy.finish rfl
  | decline => exact (giveUp_tidy own).bind fun _ ↦ Action.Tidy.finish rfl
  | hands place =>
    cases hc : own[place]? with
    | none =>
      have hsame : own.eraseIdx place = own :=
        List.eraseIdx_of_length_le (List.getElem?_eq_none_iff.1 hc)
      simp only [Answer.run, hc, hsame]
      exact (giveUp_tidy own).bind fun _ ↦ Action.Tidy.finish rfl
    | some c =>
      intro p
      have hperm : (owners own).Perm (owners (own.eraseIdx place) ++ [c.owner]) :=
        (owners_perm_eraseIdx hc).symm.trans (List.perm_append_singleton _ _).symm
      simp only [Answer.run, hc, Action.bind_run, Action.emit_run, Run.andThen_ok, Action.pure_run,
        Run.after_mk, List.append_nil]
      exact (p.books_perm hperm).trans (teardowns_settles _ [c.owner] p)

end Override

theorem Override.ask_tidy (o : Override) (key : Bytes) :
    Action.Tidy [] (o.ask key : Action ε (Option Context)) fun c? ↦
      c?.elim [] fun c ↦ [c.owner] := by
  apply Action.Tidy.bind Action.Tidy.state
  intro p
  apply Action.Tidy.bind (runDeeds_tidy [] _)
  intro own
  exact Answer.run_tidy own _

namespace Factory

theorem askOverride_tidy (o : Option Override) (key : Bytes) (offset length : Nat) :
    Action.Tidy [] (askOverride Override.ask o key offset length) fun c? ↦
      c?.elim [] fun c ↦ [c.owner] := by
  cases o with
  | none => exact Action.Tidy.finish rfl
  | some o =>
    apply Action.Tidy.bind (Action.Tidy.finish_nothing _)
    intro bytes
    apply Action.Tidy.bind Action.Tidy.state
    intro p
    apply Action.Tidy.bind (Action.Tidy.emit (by simp [Event.isNeutral]))
    rintro ⟨⟩
    apply Action.Tidy.bind ((o.ask_tidy bytes).mapError _)
    rintro (_ | c)
    · apply Action.Tidy.bind (Action.Tidy.emit (by simp [Event.isNeutral]))
      rintro ⟨⟩
      exact Action.Tidy.finish rfl
    · exact Action.Tidy.finish rfl

theorem request_tidy (key : Bytes) (offset length : Nat) :
    Action.Tidy [] (request key offset length) fun c ↦ [c.owner] := by
  apply Action.Tidy.bind (Action.Tidy.finish_nothing _)
  intro size
  apply Action.Tidy.bind Action.Tidy.state
  intro before
  apply Action.Tidy.bind (askOverride_tidy before.override? key offset length)
  rintro (_ | c)
  · exact Context.ofConfig_tidy _ _ _ _
  · exact Action.Tidy.finish rfl

end Factory

theorem Boundary.acquire_tidy (key : Pointer) (offset length : Int32) :
    Action.Tidy [] (acquireBy Override.ask key offset length) fun c ↦ [c.owner] := by
  apply Action.Tidy.bind (Action.Tidy.finish_nothing _)
  intro r
  apply Action.Tidy.bind (Action.Tidy.finish_nothing _)
  intro size
  apply Action.Tidy.bind Action.Tidy.state
  intro before
  apply Action.Tidy.bind (Action.Tidy.finish_nothing _)
  intro bytes
  exact (Factory.request_tidy bytes r.offset r.length).mapError _

/-- The registry takes the context over for which a handle is issued. -/
theorem Boundary.create_settles {key : Pointer} {offset length : Int32} {p : Process}
    {r : Run ε Handle} (hr : create key offset length p = some r) :
    (p.books []).Settles r.trace (r.process.books []) := by
  have hacquired := acquire_tidy key offset length p
  rcases createBy_cases hr with ⟨c, h, u, hok, hins, rfl⟩ | ⟨hfailed, rfl⟩
  · generalize acquireBy Override.ask key offset length p = acquired at *
    obtain ⟨-, hentries, -⟩ := Registry.insert?_eq_some_iff.1 hins
    have howners : { acquired.process with handles := u }.owners =
        c.owner :: acquired.process.owners := by
      rw [Process.owners, hentries]
      rfl
    have hbooks : { acquired.process with handles := u }.books [] =
        acquired.process.books [c.owner] := by
      rw [Process.books, howners]
      rfl
    rw [hok] at hacquired
    rw [hbooks]
    exact hacquired.trans (.of_neutral (by simp [Event.isNeutral]) _)
  · generalize acquireBy Override.ask key offset length p = acquired at *
    have hkept : acquired.outcome.kept (fun c ↦ [c.owner]) = [] := by
      cases hrun : acquired.outcome with
      | ok c => simp [hrun, Outcome.isOk] at hfailed
      | error e => rfl
      | panicked => rfl
    rw [hkept] at hacquired
    exact hacquired.trans (.of_neutral (warning_neutral .create _) _)

end AesEcb
