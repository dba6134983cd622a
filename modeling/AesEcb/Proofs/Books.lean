import AesEcb.Context.Basic
import AesEcb.Proofs.Registry
import AesEcb.Process.Basic
import Mathlib.Data.List.Count
import Mathlib.Data.List.Range

/-!
# Keeping books of providers and keys

A trace takes one list of owned providers and keys to another: what is received comes in, what is
destroyed goes out.  Openings and closings of contexts stand in it as whole blocks.
-/

namespace AesEcb

namespace Event

def opens : Event → Bool
  | .diagnostic (.contextOpened _ _) => true
  | _ => false

def closes : Event → Bool
  | .diagnostic (.contextClosed _) => true
  | _ => false

def serial? : Event → Option Nat
  | .crossing (.providerReceived i) => some i.serial
  | _ => none

/-- The event is not a part of an opening or a closing, unless it is the last of a closing. -/
def standsAlone : Event → Bool
  | .diagnostic (.contextOpened _ _) | .diagnostic (.contextClosed _) => false
  | .crossing (.keyReceived _) | .crossing (.keyDestroyed _) => false
  | _ => true

/-- The event is none of those that make up the life of a context. -/
def isNeutral : Event → Bool
  | .diagnostic (.contextOpened _ _) | .diagnostic (.contextClosed _) => false
  | .crossing (.providerReceived _) | .crossing (.providerDestroyed _) => false
  | .crossing (.keyReceived _) | .crossing (.keyDestroyed _) => false
  | _ => true

variable {e e' : Event}

theorem ne_of_standsAlone (he : e.standsAlone = true) (he' : e'.standsAlone = false) : e ≠ e' := by
  rintro rfl
  exact Bool.false_ne_true (he'.symm.trans he)

theorem ne_of_isNeutral (he : e.isNeutral = true) (he' : e'.isNeutral = false) : e ≠ e' := by
  rintro rfl
  exact Bool.false_ne_true (he'.symm.trans he)

theorem standsAlone_of_isNeutral (he : e.isNeutral = true) : e.standsAlone = true := by
  rcases e with d | c
  · cases d with
    | contextOpened _ _ | contextClosed _ => cases he
    | _ => rfl
  · cases c with
    | keyReceived _ | keyDestroyed _ => cases he
    | _ => rfl

end Event

/-- The opening of a context directly follows the receipt of its key, and its closing is directly
followed by the destruction of its key and of its provider, in this order. -/
inductive Trace.Orderly : Trace → Prop
  | nil : Orderly []
  | opening (i : Instance) (size : KeySize) {t : Trace} : Orderly t →
    Orderly (.crossing (.keyReceived i) :: .diagnostic (.contextOpened i.name size) :: t)
  | closing (i : Instance) {t : Trace} : Orderly t →
    Orderly (.diagnostic (.contextClosed i.name) :: .crossing (.keyDestroyed i) ::
      .crossing (.providerDestroyed i) :: t)
  | single {e : Event} {t : Trace} : e.standsAlone = true → Orderly t → Orderly (e :: t)

namespace Trace.Orderly

variable {t t' before after : Trace} {name : String} {size : KeySize} {i : Instance}

theorem append (ht : t.Orderly) (ht' : t'.Orderly) : Trace.Orderly (t ++ t') := by
  induction ht with
  | nil => exact ht'
  | opening i size _ ih => exact .opening i size ih
  | closing i _ ih => exact .closing i ih
  | single he _ ih => exact .single he ih

theorem after_closed (ht : t.Orderly)
    (heq : t = before ++ .diagnostic (.contextClosed name) :: after) :
    ∃ i rest, i.name = name ∧
      after = .crossing (.keyDestroyed i) :: .crossing (.providerDestroyed i) :: rest := by
  -- The event stands in the first block, where only a closing has one, or in what follows.
  induction ht generalizing before with
  | nil => simp at heq
  | opening i size _ ih =>
    rcases before with _ | ⟨_, _ | ⟨_, before⟩⟩
    · cases heq
    · cases heq
    · simp only [List.cons_append, List.cons.injEq] at heq
      exact ih heq.2.2
  | closing i _ ih =>
    rcases before with _ | ⟨_, _ | ⟨_, _ | ⟨_, before⟩⟩⟩
    · cases heq
      exact ⟨i, _, rfl, rfl⟩
    · cases heq
    · cases heq
    · simp only [List.cons_append, List.cons.injEq] at heq
      exact ih heq.2.2.2
  | single he _ ih =>
    rcases before with _ | ⟨_, before⟩
    · cases heq
      cases he
    · exact ih (List.cons.inj heq).2

theorem before_opened (ht : t.Orderly)
    (heq : t = before ++ .diagnostic (.contextOpened name size) :: after) :
    ∃ i rest, i.name = name ∧ before = rest ++ [.crossing (.keyReceived i)] := by
  induction ht generalizing before with
  | nil => simp at heq
  | opening i size _ ih =>
    rcases before with _ | ⟨_, _ | ⟨_, before⟩⟩
    · cases heq
    · cases heq
      exact ⟨i, [], rfl, rfl⟩
    · simp only [List.cons_append, List.cons.injEq] at heq
      obtain ⟨j, rest, hj, rfl⟩ := ih heq.2.2
      exact ⟨j, _ :: _ :: rest, hj, rfl⟩
  | closing i _ ih =>
    rcases before with _ | ⟨_, _ | ⟨_, _ | ⟨_, before⟩⟩⟩
    · cases heq
    · cases heq
    · cases heq
    · simp only [List.cons_append, List.cons.injEq] at heq
      obtain ⟨j, rest, hj, rfl⟩ := ih heq.2.2.2
      exact ⟨j, _ :: _ :: _ :: rest, hj, rfl⟩
  | single he _ ih =>
    rcases before with _ | ⟨_, before⟩
    · cases heq
      cases he
    · obtain ⟨j, rest, hj, rfl⟩ := ih (List.cons.inj heq).2
      exact ⟨j, _ :: rest, hj, rfl⟩

theorem exists_closing (ht : t.Orderly) (hi : .crossing (.keyDestroyed i) ∈ t) :
    ∃ before after, t = before ++ [.diagnostic (.contextClosed i.name),
      .crossing (.keyDestroyed i), .crossing (.providerDestroyed i)] ++ after := by
  have hlater : ∀ {t' : Trace} (block : Trace), (∃ before after, t' = before ++
      [.diagnostic (.contextClosed i.name), .crossing (.keyDestroyed i),
        .crossing (.providerDestroyed i)] ++ after) →
      ∃ before after, block ++ t' = before ++ [.diagnostic (.contextClosed i.name),
        .crossing (.keyDestroyed i), .crossing (.providerDestroyed i)] ++ after := by
    rintro t' block ⟨before, after, rfl⟩
    exact ⟨block ++ before, after, by simp⟩
  induction ht with
  | nil => simp at hi
  | opening j size _ ih => exact hlater [_, _] (ih (by simpa using hi))
  | closing j _ ih =>
    by_cases hj : i = j
    · subst hj
      exact ⟨[], _, rfl⟩
    · exact hlater [_, _, _] (ih (by simpa [hj] using hi))
  | single he _ ih =>
    refine hlater [_] (ih ?_)
    rcases List.mem_cons.1 hi with rfl | hi
    · cases he
    · exact hi

/-- Besides the providers of closed contexts, those are destroyed that got no key. -/
theorem count_keyDestroyed_le (ht : t.Orderly) (i : Instance) :
    t.count (.crossing (.keyDestroyed i)) ≤ t.count (.crossing (.providerDestroyed i)) := by
  induction ht with
  | nil => exact le_rfl
  | opening j size _ ih => simpa using ih
  | closing j _ ih =>
    by_cases hj : j = i
    · simpa [hj] using ih
    · simpa [hj, List.count_cons] using ih
  | single he _ ih =>
    rw [List.count_cons_of_ne (Event.ne_of_standsAlone he rfl)]
    exact ih.trans List.count_le_count_cons

end Trace.Orderly

/-- The providers and keys that are owned, and the serial number of the next provider. -/
structure Books where
  providers : List Instance
  keys : List Instance
  serial : Nat

/-- The trace accounts for all that differs between `b` and `b'`. -/
structure Books.Settles (b : Books) (t : Trace) (b' : Books) : Prop where
  providers : ∀ i, b.providers.count i + t.count (.crossing (.providerReceived i)) =
    b'.providers.count i + t.count (.crossing (.providerDestroyed i))
  keys : ∀ i, b.keys.count i + t.count (.crossing (.keyReceived i)) =
    b'.keys.count i + t.count (.crossing (.keyDestroyed i))
  contexts : b.keys.length + t.countP Event.opens = b'.keys.length + t.countP Event.closes
  serials : ∃ n, b'.serial = b.serial + n ∧ t.filterMap Event.serial? = List.range' b.serial n
  orderly : t.Orderly

namespace Books.Settles

variable {b b' b'' : Books} {t t' : Trace} {providers keys : List Instance} {serial : Nat}

theorem refl (b : Books) : b.Settles [] b where
  providers _ := rfl
  keys _ := rfl
  contexts := rfl
  serials := ⟨0, rfl, rfl⟩
  orderly := .nil

theorem trans (h : b.Settles t b') (h' : b'.Settles t' b'') : b.Settles (t ++ t') b'' := by
  refine ⟨?_, ?_, ?_, ?_, h.orderly.append h'.orderly⟩
  · intro i
    have := h.providers i
    have := h'.providers i
    rw [List.count_append, List.count_append]
    omega
  · intro i
    have := h.keys i
    have := h'.keys i
    rw [List.count_append, List.count_append]
    omega
  · have := h.contexts
    have := h'.contexts
    rw [List.countP_append, List.countP_append]
    omega
  · obtain ⟨n, hn, ht⟩ := h.serials
    obtain ⟨n', hn', ht'⟩ := h'.serials
    refine ⟨n + n', by omega, ?_⟩
    rw [List.filterMap_append, ht, ht', hn, List.range'_append_1]

/-- What is owned all along changes nothing. -/
theorem frame (h : b.Settles t b') (held held' : List Instance) :
    Settles ⟨held ++ b.providers, held' ++ b.keys, b.serial⟩ t
      ⟨held ++ b'.providers, held' ++ b'.keys, b'.serial⟩ := by
  refine ⟨?_, ?_, ?_, h.serials, h.orderly⟩
  · intro i
    have := h.providers i
    rw [List.count_append, List.count_append]
    omega
  · intro i
    have := h.keys i
    rw [List.count_append, List.count_append]
    omega
  · have := h.contexts
    rw [List.length_append, List.length_append]
    omega

/-- Books do not tell in which order things are owned. -/
theorem of_perm (h : b.Settles t b') (hproviders : b'.providers.Perm providers)
    (hkeys : b'.keys.Perm keys) : b.Settles t ⟨providers, keys, b'.serial⟩ := by
  refine ⟨?_, ?_, ?_, h.serials, h.orderly⟩
  · intro i
    rw [h.providers i, hproviders.count_eq]
  · intro i
    rw [h.keys i, hkeys.count_eq]
  · rw [h.contexts, hkeys.length_eq]

theorem of_neutral (ht : ∀ e ∈ t, e.isNeutral = true) (b : Books) : b.Settles t b := by
  induction t with
  | nil => exact refl b
  | cons e t ih =>
    have hsingle : b.Settles [e] b := by
      have he := ht e List.mem_cons_self
      refine ⟨?_, ?_, ?_, ⟨0, rfl, ?_⟩,
        .single (Event.standsAlone_of_isNeutral he) .nil⟩
      · intro i
        rw [List.count_cons_of_ne (Event.ne_of_isNeutral he rfl),
          List.count_cons_of_ne (Event.ne_of_isNeutral he rfl)]
        rfl
      · intro i
        rw [List.count_cons_of_ne (Event.ne_of_isNeutral he rfl),
          List.count_cons_of_ne (Event.ne_of_isNeutral he rfl)]
        rfl
      · cases e with
        | diagnostic d => cases d <;> first | rfl | cases he
        | crossing c => rfl
      · cases e with
        | diagnostic d => rfl
        | crossing c => cases c <;> first | rfl | cases he
    exact hsingle.trans (ih fun e' he' ↦ ht e' (List.mem_cons_of_mem _ he'))

theorem receipt (providers keys : List Instance) (i : Instance) :
    Settles ⟨providers, keys, i.serial⟩ [.crossing (.providerReceived i)]
      ⟨i :: providers, keys, i.serial + 1⟩ := by
  refine ⟨?_, ?_, rfl, ⟨1, rfl, rfl⟩, .single rfl .nil⟩
  · intro j
    simp [List.count_cons]
  · intro j
    simp

/-- A provider is given up that has imported no key. -/
theorem refusal (providers keys : List Instance) (serial : Nat) (i : Instance) :
    Settles ⟨i :: providers, keys, serial⟩ [.crossing (.providerDestroyed i)]
      ⟨providers, keys, serial⟩ := by
  refine ⟨?_, ?_, rfl, ⟨0, rfl, rfl⟩, .single rfl .nil⟩
  · intro j
    simp [List.count_cons]
  · intro j
    simp

theorem opening (providers keys : List Instance) (serial : Nat) (i : Instance) (size : KeySize) :
    Settles ⟨providers, keys, serial⟩
      [.crossing (.keyReceived i), .diagnostic (.contextOpened i.name size)]
      ⟨providers, i :: keys, serial⟩ := by
  refine ⟨?_, ?_, rfl, ⟨0, rfl, rfl⟩, .opening i size .nil⟩
  · intro j
    simp
  · intro j
    simp [List.count_cons]

theorem closing (providers keys : List Instance) (serial : Nat) (c : Context) :
    Settles ⟨c.owner :: providers, c.owner :: keys, serial⟩ c.teardown
      ⟨providers, keys, serial⟩ := by
  refine ⟨?_, ?_, rfl, ⟨0, rfl, rfl⟩, .closing c.owner .nil⟩
  · intro j
    simp [Context.teardown, List.count_cons]
  · intro j
    simp [Context.teardown, List.count_cons]

end Books.Settles

end AesEcb
