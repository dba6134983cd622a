import AesEcb.Session.Basic

/-!
# Steps of a session, one by one

A step that acts on the process leaves the slots alone, unless it opens a context.
-/

namespace AesEcb.Session

variable {s : Session} {α : Type} {p : Process} {t : Trace}

theorem reply_of_ok {r : Run CipherError α} {a : α} (h : r.outcome = .ok a) (reply : α → Reply) :
    (s.conclude r reply).reply = reply a := by
  simp only [conclude, h]

theorem reply_congr {r r' : Run CipherError α} (h : r.outcome = r'.outcome) (s s' : Session)
    (reply : α → Reply) : (s.conclude r reply).reply = (s'.conclude r' reply).reply := by
  simp only [conclude, h]

theorem perform_of_ok {x : Action CipherError α} {a : α} (hx : x s.process = ⟨.ok a, t, p⟩)
    (reply : α → Reply) : s.perform x reply = ⟨reply a, t, { s with process := p }⟩ := by
  simp only [perform, conclude, hx]

theorem openSlot_of_ok {x : Action CipherError Context} {c : Context}
    (hx : x s.process = ⟨.ok c, t, p⟩) :
    s.openSlot x =
      ⟨.opened s.slots.length c, t, { process := p, slots := s.slots ++ [some c] }⟩ := by
  simp only [openSlot, perform_of_ok hx]

/-- A step that opens no context changes nothing but the process. -/
theorem openSlot_of_not_ok {x : Action CipherError Context}
    (hx : ∀ c, (x s.process).outcome ≠ .ok c) :
    (s.openSlot x).trace = (x s.process).trace ∧
      (s.openSlot x).session = { s with process := (x s.process).process } := by
  simp only [openSlot, perform, conclude]
  cases hoc : (x s.process).outcome with
  | ok c => exact absurd hoc (hx c)
  | error e => exact ⟨rfl, rfl⟩
  | panicked => exact ⟨rfl, rfl⟩

theorem useSlot_of_ok {slot : Nat} {output : String} {c : Context} {e : Encryption}
    {y : Context → Action CipherError Encryption} (hc : s.context? slot = some c)
    (hy : y c s.process = ⟨.ok e, t, p⟩) :
    s.useSlot slot output y =
      { reply := match e.result with
          | .ok n => .counted n
          | .error cause => .failed cause
          | .panicked => .panicked
        trace := t
        session :=
          { s with process := { p with memory := p.memory.write output e.buffer } } } := by
  simp only [useSlot, hc, perform, conclude, useSlot.writeBack, Action.bind_run, hy, Run.andThen,
    Action.modify_run, Run.after, Action.finish_run, List.append_nil]
  cases e.result with
  | ok n => rfl
  | error cause => rfl
  | panicked => rfl

end AesEcb.Session
