import AesEcb.Proofs.Rollback
import AesEcb.Session.Log

/-!
# Who warns of what

An entry of the log warns of an operation if it has the level of a warning and carries the name of
the operation.  The body of a call gives no warning of its own: those come from calls made back into
the library, which release, and from the containment at the end.
-/

namespace AesEcb

theorem Operation.name_inj {operation other : Operation} :
    operation.name = other.name ↔ operation = other := by
  cases operation <;> cases other <;> decide

def LogEntry.WarnsOf (operation : Operation) (entry : LogEntry) : Prop :=
  ("level", .text "WARN") ∈ entry ∧ ("op", .text operation.name) ∈ entry

instance (operation : Operation) (entry : LogEntry) :
    Decidable (LogEntry.WarnsOf operation entry) :=
  inferInstanceAs (Decidable (_ ∧ _))

theorem Diagnostic.warnsOf_entry_iff {operation : Operation} (d : Diagnostic) :
    LogEntry.WarnsOf operation d.entry ↔ (Event.diagnostic d).warning? = some operation := by
  cases d with
  | callFailed failed cause =>
    simp [LogEntry.WarnsOf, entry, level, message, fields, Event.warning?, Operation.name_inj,
      eq_comm]
  | panicContained failed =>
    simp [LogEntry.WarnsOf, entry, level, message, fields, Event.warning?, Operation.name_inj,
      eq_comm]
  | _ => simp [LogEntry.WarnsOf, entry, level, message, fields, Event.warning?]

namespace Crossing

theorem eq_of_ofForeign_eq_some {owner : Instance} {entry entry' : LogEntry}
    (h : entry?.ofForeign owner entry = some entry') : entry = entry' := by
  unfold entry?.ofForeign at h
  split at h
  · cases h
  · exact Option.some.inj h

theorem not_warnsOf_entry {operation : Operation} {c : Crossing} {entry : LogEntry}
    (hentry : c.entry? = some entry) : ¬ LogEntry.WarnsOf operation entry := by
  cases c with
  | overrideAsked key engine =>
    obtain rfl := Option.some.inj hentry
    simp [LogEntry.WarnsOf]
  | providerReceived owner => cases hentry
  | keyReceived owner => cases hentry
  | importAsked owner key =>
    obtain rfl := eq_of_ofForeign_eq_some hentry
    simp [LogEntry.WarnsOf]
  | transformAsked owner data =>
    obtain rfl := eq_of_ofForeign_eq_some hentry
    simp [LogEntry.WarnsOf]
  | keyDestroyed owner =>
    obtain rfl := eq_of_ofForeign_eq_some hentry
    simp [LogEntry.WarnsOf]
  | providerDestroyed owner =>
    obtain rfl := eq_of_ofForeign_eq_some hentry
    simp [LogEntry.WarnsOf]

end Crossing

theorem Event.exists_warnsOf_entry_iff {operation : Operation} (e : Event) :
    (∃ entry, e.entry? = some entry ∧ LogEntry.WarnsOf operation entry) ↔
      e.warning? = some operation := by
  cases e with
  | diagnostic d =>
    simp only [Option.some.injEq, exists_eq_left', Event.entry?, d.warnsOf_entry_iff]
  | crossing c =>
    constructor
    · rintro ⟨entry, hentry, hwarns⟩
      exact absurd hwarns (Crossing.not_warnsOf_entry hentry)
    · nofun

namespace Trace

variable {t t' : Trace} {operation other : Operation}

/-- The entries of the log that warn of the operation. -/
def warningsOf (t : Trace) (operation : Operation) : List LogEntry :=
  t.log.filter fun entry ↦ LogEntry.WarnsOf operation entry

theorem warningsOf_append (t t' : Trace) (operation : Operation) :
    warningsOf (t ++ t') operation = t.warningsOf operation ++ t'.warningsOf operation := by
  simp only [warningsOf, log, List.filterMap_append, List.filter_append]

theorem warningsOf_eq_nil_iff :
    t.warningsOf operation = [] ↔ ∀ e ∈ t, e.warning? ≠ some operation := by
  simp only [warningsOf, log, List.filter_eq_nil_iff, List.mem_filterMap, decide_eq_true_eq,
    ne_eq, ← Event.exists_warnsOf_entry_iff]
  constructor
  · rintro h e he ⟨entry, hentry, hwarns⟩
    exact h entry ⟨e, he, hentry⟩ hwarns
  · rintro h entry ⟨e, he, hentry⟩ hwarns
    exact h e he ⟨entry, hentry, hwarns⟩

theorem WarnsOnlyOf.warningsOf_eq_nil (h : t.WarnsOnlyOf other) (hne : operation ≠ other) :
    t.warningsOf operation = [] :=
  warningsOf_eq_nil_iff.2 fun e he hwarning ↦ hne (h e he operation hwarning)

theorem warningsOf_of_opening (h : ∀ e ∈ t, e.isOpening = true) (hne : operation ≠ .release) :
    t.warningsOf operation = [] :=
  (warnsOnlyOf_of_opening h).warningsOf_eq_nil hne

theorem warningsOf_cons_of_none {e : Event} (he : e.warning? = none) (t : Trace)
    (operation : Operation) : warningsOf (e :: t) operation = t.warningsOf operation := by
  have hsilent : warningsOf [e] operation = [] := warningsOf_eq_nil_iff.2 (by simp [he])
  rw [← List.singleton_append, warningsOf_append, hsilent, List.nil_append]

end Trace

end AesEcb
