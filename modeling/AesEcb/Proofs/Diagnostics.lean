import AesEcb.Proofs.Containment
import AesEcb.Proofs.Mishaps
import AesEcb.Proofs.Warnings

/-!
# Exact diagnostics

A call through handles warns of the first thing that goes wrong, and of nothing else of its own.
What else it shows are the warnings of calls that code from outside makes while it is asked.
-/

namespace AesEcb

/-- The entry of the log that warns of the mishap. -/
def Mishap.entry (operation : Operation) : Mishap → LogEntry
  | failed cause =>
    [("level", .text "WARN"), ("message", .text "call failed"), ("op", .text operation.name),
      ("err", .text cause.message)]
  | panicked =>
    [("level", .text "WARN"), ("message", .text "panic caught at ABI boundary"),
      ("op", .text operation.name)]

theorem Boundary.warningsOf_warning {α : Type} (operation : Operation)
    (o : Outcome BoundaryError α) :
    (warning operation o).warningsOf operation =
      ((o.mishap? id).map (Mishap.entry operation)).toList := by
  cases o with
  | ok a => rfl
  | error e =>
    exact List.filter_cons_of_pos
      (decide_eq_true ((Diagnostic.callFailed operation e).warnsOf_entry_iff.2 rfl))
  | panicked =>
    exact List.filter_cons_of_pos
      (decide_eq_true ((Diagnostic.panicContained operation).warnsOf_entry_iff.2 rfl))

namespace Session

variable [LinkedCipher]

/-- The call, where the code outside of the library is `w`. -/
def stepIn (w : Outside) (s : Session) : Call → Result
  | .create key offset length =>
    match Boundary.createBy w.ask key offset length s.process with
    | some r => s.conclude r .handle
    | none => s.unending
  | .encrypt h input inOffset length output outOffset =>
    s.perform (Boundary.encryptBy w.transform h input inOffset length output outOffset) .signed
  | .release h => s.perform (Boundary.release none h) fun _ ↦ .done
  | .setDefault engine => s.perform (changeDefault engine) fun _ ↦ .done

theorem stepIn_recorded (s : Session) (c : Call) : s.stepIn .recorded c = s.step c.step := by
  cases c with
  | create key offset length => rfl
  | encrypt h input inOffset length output outOffset => rfl
  | release h => rfl
  | setDefault engine => rfl

end Session

section Nested

variable [LinkedCipher] {operation : Operation}

/-- While a cipher is requested, only the override can bring about a warning of anything but a
release. -/
theorem Factory.warningsOf_requestRead (ask : Override → Bytes → Action Empty (Option Context))
    (hne : operation ≠ .release) (data : Bytes) (p : Process) :
    (requestRead ask data p).trace.warningsOf operation =
      Trace.warningsOf (p.override?.elim [] fun o ↦ (ask o data p).trace) operation := by
  have hdefault : ∀ q, (Context.ofProvider (.builtIn p.defaultEngine) data q).trace.warningsOf
      operation = [] := fun q ↦
    Trace.warningsOf_of_opening (Context.ofProvider_opening _ data q) hne
  cases ho : p.override? with
  | none =>
    rw [requestRead_of_none ask ho]
    exact hdefault p
  | some o =>
    have hends := requestRead_concludes ask data ho
    have hquestion : ∀ t : Trace, Trace.warningsOf
        (.crossing (.overrideAsked data p.defaultEngine) :: t) operation = t.warningsOf operation :=
      fun t ↦ Trace.warningsOf_cons_of_none rfl t operation
    generalize requestRead ask data p = run at hends ⊢
    cases hends with
    | offered _ => exact hquestion _
    | declined _ =>
      have hdeclined : Trace.warningsOf [.diagnostic .overrideDeclined] operation = [] :=
        Trace.warningsOf_cons_of_none (e := .diagnostic .overrideDeclined) rfl [] operation
      simp only [Run.after, Trace.warningsOf_append, hdefault, hdeclined, List.append_nil]
      exact hquestion _
    | panicked _ => exact hquestion _

theorem Boundary.warningsOf_acquireBy (w : Outside) (key : Pointer) (offset length : Int32)
    (p : Process) :
    (acquireBy w.ask key offset length p).trace.warningsOf .create =
      (w.nested p (.create key offset length)).warningsOf .create := by
  rw [acquireBy_eq, Outside.nested, Outside.asked?]
  cases keyArgument p.memory key offset length with
  | error e => rfl
  | ok named =>
    have hne : Operation.create ≠ .release := by decide
    refine (Factory.warningsOf_requestRead w.ask hne named.1 p).trans ?_
    cases p.override? with
    | none => rfl
    | some o => rfl

/-- What providers and overrides have on record warns of releases only. -/
theorem Outside.warningsOf_nested_recorded (hne : operation ≠ .release) (p : Process) (c : Call) :
    (recorded.nested p c).warningsOf operation = [] := by
  cases c with
  | create key offset length =>
    rw [nested, asked?]
    cases Boundary.keyArgument p.memory key offset length with
    | error e => rfl
    | ok named =>
      cases p.override? with
      | none => rfl
      | some o => exact Trace.warningsOf_of_opening (o.ask_opening _ p) hne
  | encrypt h input inOffset length output outOffset =>
    rw [nested, transformed?]
    cases p.handles.get? h with
    | none => rfl
    | some c =>
      cases Boundary.arguments p.memory input inOffset length outOffset with
      | error e => rfl
      | ok named =>
        have hcalls := (Boundary.runCallbacks_warnings (ε := Empty) (some ⟨h, c.owner⟩)
          (c.key.transform named.2).callbacks p).warningsOf_eq_nil hne
        simp only [Option.elim_some, recorded, Context.encryptInPlace_run]
        exact (Trace.warningsOf_cons_of_none rfl _ _).trans
          ((Trace.warningsOf_cons_of_none rfl _ _).trans hcalls)
  | release h => rfl
  | setDefault engine => rfl

end Nested

namespace Session

variable [LinkedCipher]

/-- What a call tells of itself: of what goes wrong it warns once, and then it returns the value
that stands for failure, but otherwise a handle, or a count that the key has answered. -/
structure Accounts (w : Outside) (s : Session) (c : Call) (operation : Operation) : Prop where
  warnings : (s.stepIn w c).trace.warningsOf operation =
    (w.nested s.process c).warningsOf operation ++
      ((w.mishap? s.process c).map (Mishap.entry operation)).toList
  sentinel : w.mishap? s.process c ≠ none → (s.stepIn w c).reply = operation.sentinel
  handle_ne : (s.stepIn w c).reply = .handle .null → w.mishap? s.process c ≠ none
  answered : (s.stepIn w c).reply = .signed 0 → w.mishap? s.process c = none →
    w.keyAnswer? s.process c = some (.ok 0)

variable {w : Outside} {s : Session} {h : Handle}

theorem accounts_create {key : Pointer} {offset length : Int32}
    (hkey : key.Holds s.process.memory offset length)
    (hends : (s.stepIn w (.create key offset length)).reply.ends = true) :
    s.Accounts w (.create key offset length) .create := by
  cases hcreate : (Boundary.createBy w.ask key offset length s.process :
      Option (Run CipherError Handle)) with
  | none =>
    simp only [stepIn, hcreate] at hends
    cases hends
  | some run =>
    have hstep : s.stepIn w (.create key offset length) = s.conclude run .handle := by
      simp only [stepIn, hcreate]
    have hmishap := Boundary.acquireBy_mishap? w hkey
    have hnested := Boundary.warningsOf_acquireBy w key offset length s.process
    rcases Boundary.createBy_cases hcreate with ⟨c, h, u, hok, hins, rfl⟩ | ⟨hfailed, rfl⟩
    · obtain ⟨hfresh, -, -⟩ := Registry.insert?_eq_some_iff.1 hins
      have hne := (Registry.isFree_of_fresh? hfresh).1
      have hnone : w.mishap? s.process (.create key offset length) = none := by
        rw [← hmishap, hok]
        rfl
      refine ⟨?_, fun hsome ↦ absurd hnone hsome, ?_, ?_⟩
      · rw [hstep, hnone, ← hnested]
        exact Trace.warningsOf_append _ _ _
      · rw [hstep]
        exact fun hnull ↦ absurd (Reply.handle.inj hnull) hne
      · rw [hstep]
        rintro ⟨⟩
    · refine ⟨?_, fun _ ↦ ?_, fun _ ↦ ?_, ?_⟩
      · rw [hstep, ← hnested, ← hmishap, ← Boundary.warningsOf_warning]
        exact Trace.warningsOf_append _ _ _
      · rw [hstep]
        rfl
      · intro hnone
        obtain ⟨c, hok⟩ := Outcome.exists_of_mishap?_eq_none (hmishap.trans hnone)
        rw [hok] at hfailed
        cases hfailed
      · rw [hstep]
        rintro ⟨⟩

theorem accounts_encrypt {input output : Pointer} {inOffset length outOffset : Int32}
    (hin : input.Holds s.process.memory inOffset length)
    (hout : output.Holds s.process.memory outOffset length) :
    s.Accounts w (.encrypt h input inOffset length output outOffset) .encrypt := by
  have hrun := Boundary.encryptBy_run (ε := CipherError) h input inOffset length output outOffset
    s.process w.transform
  cases hc : s.process.handles.get? h with
  | none =>
    simp only [hc] at hrun
    have hfirst : w.mishap? s.process (.encrypt h input inOffset length output outOffset) =
        some (.failed .invalidHandle) := by
      simp [Outside.mishap?, Outside.mishaps, hc, Mishap.check]
    have hsilent : w.nested s.process (.encrypt h input inOffset length output outOffset) = [] := by
      simp only [Outside.nested, Outside.transformed?, hc, Option.elim_none]
    refine ⟨?_, fun _ ↦ ?_, fun _ ↦ ?_, fun _ hnone ↦ ?_⟩
    · simp only [stepIn, perform, conclude, hrun, hfirst, hsilent]
      exact Boundary.warningsOf_warning .encrypt
        (.error .invalidHandle : Outcome BoundaryError Int32)
    · simp only [stepIn, perform, conclude, hrun]
      rfl
    · rw [hfirst]
      exact Option.some_ne_none _
    · rw [hfirst] at hnone
      cases hnone
  | some c =>
    simp only [hc] at hrun
    obtain ⟨htrace, hfirst, -, hcount⟩ := Boundary.encryptWith_mishap? w hc hin hout
    generalize Boundary.encryptWith _ input inOffset length output outOffset s.process = r at *
    have hdropped : (r.process.dropped none h c).warningsOf .encrypt = [] :=
      (Trace.warnsOnlyOf_of_reentrant (Process.dropped_reentrant _ _ _ _)).warningsOf_eq_nil
        (by decide)
    have hreply : (s.stepIn w (.encrypt h input inOffset length output outOffset)).reply =
        .signed (r.outcome.getD 0) := by
      simp only [stepIn, perform, conclude, hrun]
    refine ⟨?_, fun hsome ↦ ?_, ?_, fun hzero hnone ↦ ?_⟩
    · simp only [stepIn, perform, conclude, hrun, Trace.warningsOf_append, hdropped,
        Boundary.warningsOf_warning, htrace, hfirst, List.append_nil]
    · rw [← hfirst] at hsome
      rw [hreply]
      cases hend : r.outcome with
      | ok n =>
        rw [hend] at hsome
        exact absurd rfl hsome
      | error e => rfl
      | panicked => rfl
    · rw [hreply]
      rintro ⟨⟩
    · obtain ⟨n, hend⟩ := Outcome.exists_of_mishap?_eq_none (hfirst.trans hnone)
      rw [hreply, hend] at hzero
      obtain rfl := Reply.signed.inj hzero
      obtain ⟨count, hanswer, hvalue⟩ := hcount _ hend
      have hvalue' : (0 : Int32).toInt = 0 := rfl
      obtain rfl : count = 0 := by omega
      exact hanswer

theorem accounts_release (w : Outside) (s : Session) (h : Handle) :
    s.Accounts w (.release h) .release := by
  have hrun := Boundary.release_run (ε := CipherError) none h s.process
  have hfirst : w.mishap? s.process (.release h) =
      Mishap.check (h = .null ∨ (s.process.handles.get? h).isSome) .invalidHandle := by
    rw [Outside.mishap?, Outside.mishaps, List.findSome?_singleton, id_eq]
  have hreply : (s.stepIn w (.release h)).reply = .done := by
    simp only [stepIn, perform, conclude,
      show (Boundary.release none h s.process : Run CipherError Unit).outcome = .ok () from
        ((Callback.release h).run_ok none s.process).1]
  refine ⟨?_, fun _ ↦ hreply, ?_, ?_⟩
  · simp only [stepIn, perform, conclude, hfirst, Outside.nested, hrun]
    by_cases hnull : h = .null
    · rw [if_pos hnull, Mishap.check_of (.inl hnull)]
      rfl
    · rw [if_neg hnull]
      cases hget : s.process.handles.get? h with
      | none =>
        rw [Mishap.check_of_not (by simp [hnull])]
        exact Boundary.warningsOf_warning .release (.error .invalidHandle : Outcome _ Unit)
      | some c =>
        rw [Mishap.check_of (.inr rfl)]
        refine Trace.warningsOf_eq_nil_iff.2 ?_
        simp [Context.teardown, Event.warning?]
  · rw [hreply]
    rintro ⟨⟩
  · rw [hreply]
    rintro ⟨⟩

theorem accounts {c : Call} {operation : Operation} (hc : c.step.operation? = some operation)
    (hlawful : c.Lawful s.process.memory) (hends : (s.stepIn w c).reply.ends = true) :
    s.Accounts w c operation := by
  cases c with
  | create key offset length =>
    obtain rfl := Option.some.inj hc
    exact accounts_create hlawful hends
  | encrypt h input inOffset length output outOffset =>
    obtain rfl := Option.some.inj hc
    exact accounts_encrypt hlawful.1 hlawful.2
  | release h =>
    obtain rfl := Option.some.inj hc
    exact accounts_release w s h
  | setDefault engine => cases hc

/-- A failure of a call leaves no doubt what has gone wrong. -/
theorem mishap?_of_fails {c : Call} (hlawful : c.Lawful s.process.memory)
    (hfails : s.Fails c.step) : Outside.recorded.mishap? s.process c ≠ none := by
  cases c with
  | create key offset length =>
    have hcreate : Boundary.CreateFails s.process key offset length := hfails
    rw [Boundary.CreateFails] at hcreate
    rcases Boundary.mishap?_create_cases .recorded hlawful with
      ⟨e, hfirst, -⟩ | ⟨data, k, harg, -⟩
    · rw [hfirst]
      exact Option.some_ne_none _
    · simp only [harg] at hcreate
      obtain ⟨o, ho, hpanics⟩ := hcreate
      have hasked : Outside.recorded.asked? s.process key offset length =
          some (o.ask data s.process) := by
        simp only [Outside.asked?, harg, ho, Option.map_some, Outside.recorded]
      rw [(Outside.mishap?_eq_panicked_iff hlawful).2
        ⟨_, hasked, (o.ask_panicked_iff data s.process).2 hpanics⟩]
      exact Option.some_ne_none _
  | encrypt h input inOffset length output outOffset =>
    cases hc : s.process.handles.get? h with
    | none =>
      simp [Outside.mishap?, Outside.mishaps, hc, Mishap.check]
    | some c =>
      obtain ⟨-, hfirst, -⟩ :=
        Boundary.encryptWith_mishap? .recorded hc hlawful.1 hlawful.2
      have hrun : (Boundary.encryption s.process h input inOffset length output outOffset).1 =
          (Boundary.encryptWith (c.encryptInPlace (some ⟨h, c.owner⟩)) input inOffset length output
            outOffset s.process).outcome := by
        simp only [Boundary.encryption, hc, Boundary.encryptWith_run]
        cases Boundary.arguments s.process.memory input inOffset length outOffset with
        | error e => rfl
        | ok named => rfl
      intro hnone
      obtain ⟨n, hend⟩ := Outcome.exists_of_mishap?_eq_none (hfirst.trans hnone)
      exact hfails n (hrun.trans hend)
  | release h =>
    have hunbound : ¬ (h = .null ∨ (s.process.handles.get? h).isSome = true) := by
      rintro (hnull | hbound)
      · exact hfails.1 hnull
      · rw [hfails.2] at hbound
        cases hbound
    rw [Outside.mishap?, Outside.mishaps, List.findSome?_singleton, id_eq,
      Mishap.check_of_not hunbound]
    exact Option.some_ne_none _
  | setDefault engine => exact hfails.elim

/-- Whatever the code outside of the library does, a call that ends warns once of the first thing
that goes wrong, if anything does; all its other warnings are those of calls that are made
meanwhile.  A panic is reported just if that code panics.  A failure that is reported is one of the
arguments, or is what the key has answered; so no refused import is reported, and that a region or a
buffer has the wrong size only if the key says so.  No failure goes without a warning, and zero
bytes without one are what the key has counted.  What providers and overrides have on record gives
no warning of the call's own kind. -/
theorem diagnostics_exact (s : Session) {c : Call} {operation : Operation}
    (hc : c.step.operation? = some operation) (hlawful : c.Lawful s.process.memory) :
    (∀ w : Outside, (s.stepIn w c).reply.ends = true →
      let r := s.stepIn w c
      let first? := w.mishap? s.process c
      let answer? := w.keyAnswer? s.process c
      r.trace.warningsOf operation = (w.nested s.process c).warningsOf operation ++
        (first?.map (Mishap.entry operation)).toList ∧
      (first? = some .panicked ↔ w.PanicsIn s.process c) ∧
      (∀ cause, first? = some (.failed cause) → cause.IsOfArguments ∨
        (∃ e, cause = .cipher e ∧ answer? = some (.error e)) ∨
        ∃ n, cause = .spanTooLarge n ∧ answer? = some (.ok n)) ∧
      (first? ≠ none → r.reply = operation.sentinel) ∧
      (r.reply = .handle .null → first? ≠ none) ∧
      (r.reply = .signed 0 → first? = none → answer? = some (.ok 0))) ∧
    s.stepIn .recorded c = s.step c.step ∧
    (Outside.recorded.nested s.process c).warningsOf operation = [] ∧
    (s.Fails c.step → Outside.recorded.mishap? s.process c ≠ none) := by
  refine ⟨fun w hends ↦ ?_, s.stepIn_recorded c, ?_, mishap?_of_fails hlawful⟩
  · obtain ⟨hwarnings, hsentinel, hnull, hzero⟩ := accounts hc hlawful hends
    exact ⟨hwarnings, Outside.mishap?_eq_panicked_iff hlawful,
      fun cause ↦ Outside.mishap?_cause hlawful, hsentinel, hnull, hzero⟩
  · cases c with
    | create key offset length =>
      obtain rfl := Option.some.inj hc
      exact Outside.warningsOf_nested_recorded (by decide) _ _
    | encrypt h input inOffset length output outOffset =>
      obtain rfl := Option.some.inj hc
      exact Outside.warningsOf_nested_recorded (by decide) _ _
    | release h => rfl
    | setDefault engine => cases hc

end Session

/-- The key releases a handle that is not in use and then fails, and there is nowhere to write to
either.  Then an override that is asked tries to create a handle itself, without a key, and
panics. -/
theorem Session.diagnostics_exact_nested :
    let failing : ProviderScript :=
      { name := "failing", fail? := some "offline", release? := some ⟨9⟩ }
    let c : Context := { owner := ⟨0, "failing", false⟩, key := failing.importedKey .aes128 }
    let s : Session :=
      { process :=
          { override? := some ⟨fun _ _ ↦ { answer := .decline }⟩
            handles := { entries := [(⟨1⟩, c)], nextId := 1, nodup := List.nodup_singleton _ }
            memory := fun _ ↦ List.replicate 16 0x41
            nextSerial := 1 } }
    let w : Outside :=
      { Outside.recorded with
        ask := fun _ _ q ↦
          match (Boundary.create none 0 16 q : Option (Run Empty Handle)) with
          | some r => ⟨.panicked, r.trace, r.process⟩
          | none => ⟨.panicked, [], q⟩ }
    let x : Call := .encrypt ⟨1⟩ (some "text") 0 16 none 0
    let y : Call := .create (some "key") 0 16
    (s.step x.step).trace.warningsOf .encrypt =
        [[("level", .text "WARN"), ("message", .text "call failed"), ("op", .text "encrypt_block"),
          ("err", .text "provider failing: offline")]] ∧
      (s.step x.step).trace.warningsOf .release =
        [[("level", .text "WARN"), ("message", .text "call failed"), ("op", .text "release"),
          ("err", .text "handle does not refer to a live context")]] ∧
      (s.stepIn w y).trace.warningsOf .create =
        [[("level", .text "WARN"), ("message", .text "call failed"), ("op", .text "create"),
          ("err", .text "null key pointer")],
        [("level", .text "WARN"), ("message", .text "panic caught at ABI boundary"),
          ("op", .text "create")]] := by
  intro failing c s w x y
  obtain ⟨hx, hsame, hquiet, -⟩ := Session.diagnostics_exact s (c := x) rfl (by decide)
  obtain ⟨hwarned, -⟩ := hx .recorded (by decide)
  rw [hquiet, hsame] at hwarned
  obtain ⟨hy, -⟩ := Session.diagnostics_exact s (c := y) rfl (by decide)
  obtain ⟨hnested, -⟩ := hy w (by decide)
  exact ⟨hwarned.trans (by decide), by decide, hnested.trans (by decide)⟩

/-- A provider refuses a key, and still the call for which it was asked succeeds without a warning.
A key answers that a region does not fit, and so the call reports just that. -/
theorem Session.refusal_unreported_answer_reported :
    let refusing : Provider :=
      .foreign "refusing" fun _ ↦ { outcome := .error (.provider "refusing" "offline") }
    let confused : ImportedKey :=
      { size := .aes128
        transform := fun data ↦ { left := data, outcome := .error (.outOfBounds 0 17 16) }
        length_left := fun _ ↦ rfl }
    let s : Session :=
      { process :=
          { override? := some ⟨fun key _ ↦ .offer [] refusing key⟩
            handles :=
              { entries := [(⟨1⟩, ⟨⟨0, "confused", false⟩, confused⟩)]
                nextId := 1
                nodup := List.nodup_singleton _ }
            memory := fun _ ↦ List.replicate 16 0x41
            nextSerial := 1 } }
    let x : Call := .create (some "key") 0 16
    let y : Call := .encrypt ⟨1⟩ (some "text") 0 16 (some "out") 0
    x.Lawful s.process.memory ∧ y.Lawful s.process.memory ∧
      (refusing.importKey (s.process.memory "key")).outcome =
        .error (.provider "refusing" "offline") ∧
      .crossing (.importAsked ⟨1, "refusing", false⟩ (s.process.memory "key")) ∈
        (s.step x.step).trace ∧
      (s.step x.step).trace.warningsOf .create = [] ∧
      .diagnostic (.handleIssued ⟨2⟩) ∈ (s.step x.step).trace ∧
      (s.step y.step).trace.warningsOf .encrypt =
        [[("level", .text "WARN"), ("message", .text "call failed"), ("op", .text "encrypt_block"),
          ("err", .text "region 0..0+17 exceeds buffer of 16 bytes")]] := by
  intro refusing confused s x y
  exact ⟨by decide, by decide, rfl, by decide, by decide, by decide, by decide⟩

end AesEcb
