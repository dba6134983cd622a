import AesEcb.Proofs.Candidates

/-!
# Histories of a registry

The history of a run lists what was asked of a registry, with the answers.  It says what every
handle is bound to afterwards, and as long as it names fewer than 2⁶⁴ values, those that were
there at the start counted, no handle is issued twice in it.
-/

namespace AesEcb.Registry

inductive Access (α : Type) where
  | insert (a : α)
  | get (h : Handle)
  | remove (h : Handle)

def Access.isInsert {α : Type} : Access α → Bool
  | insert _ => true
  | _ => false

/-- An access with its answer. -/
inductive Record (α : Type) where
  | issued (h : Handle) (a : α)
  /-- Every handle was bound. -/
  | full (a : α)
  | found (h : Handle) (value : Option α)
  | taken (h : Handle) (value : Option α)

namespace Record

variable {α : Type}

/-- The handle is taken out of the registry. -/
def isRemoval : Record α → Bool
  | taken _ (some _) => true
  | _ => false

def issued? : Record α → Option Handle
  | issued h _ => some h
  | _ => none

/-- What the record settles about the value of `h`, if anything. -/
def settles? (h : Handle) : Record α → Option (Option α)
  | issued k a => if k = h then some (some a) else none
  | taken k (some _) => if k = h then some none else none
  | _ => none

end Record

variable {α : Type}

/-- The value of `h` by the last record that settles it, or else the one it had at first. -/
def binding (initial : Handle → Option α) (records : List (Record α)) (h : Handle) : Option α :=
  (records.reverse.findSome? (Record.settles? h)).getD (initial h)

def issuedHandles (records : List (Record α)) : List Handle := records.filterMap Record.issued?

def access (t : Registry α) : Access α → Record α × Registry α
  | .insert a =>
    match t.insert? a with
    | none => (.full a, t)
    | some (h, u) => (.issued h a, u)
  | .get h => (.found h (t.get? h), t)
  | .remove h => (.taken h (t.remove h).1, (t.remove h).2)

def history (t : Registry α) : List (Access α) → List (Record α)
  | [] => []
  | x :: xs => (t.access x).1 :: (t.access x).2.history xs

def after (t : Registry α) : List (Access α) → Registry α
  | [] => t
  | x :: xs => (t.access x).2.after xs

/-- Every insertion finds a handle besides zero that is not bound. -/
def HasRoom (t : Registry α) : List (Access α) → Prop
  | [] => True
  | x :: xs => (x.isInsert → t.size < 2 ^ 64 - 1) ∧ (t.access x).2.HasRoom xs

instance decidableHasRoom (t : Registry α) : (xs : List (Access α)) → Decidable (t.HasRoom xs)
  | [] => .isTrue trivial
  | x :: xs =>
    have := decidableHasRoom (t.access x).2 xs
    inferInstanceAs (Decidable (_ ∧ _))

variable {t u : Registry α} {a : α} {h k : Handle} {xs ys : List (Access α)} {x : Access α}
  {initial : Handle → Option α} {records : List (Record α)}

theorem history_append (t : Registry α) (xs ys : List (Access α)) :
    t.history (xs ++ ys) = t.history xs ++ (t.after xs).history ys := by
  induction xs generalizing t with
  | nil => rfl
  | cons x xs ih => rw [List.cons_append, history, history, ih, after, List.cons_append]

theorem after_append (t : Registry α) (xs ys : List (Access α)) :
    t.after (xs ++ ys) = (t.after xs).after ys := by
  induction xs generalizing t with
  | nil => rfl
  | cons x xs ih => rw [List.cons_append, after, after, ih]

theorem hasRoom_append : t.HasRoom (xs ++ ys) ↔ t.HasRoom xs ∧ (t.after xs).HasRoom ys := by
  induction xs generalizing t with
  | nil =>
    rw [List.nil_append, HasRoom, true_and]
    rfl
  | cons x xs ih => rw [List.cons_append, HasRoom, HasRoom, ih, after, and_assoc]

theorem binding_append_singleton (r : Record α) :
    binding initial (records ++ [r]) h = (r.settles? h).getD (binding initial records h) := by
  rw [binding, List.reverse_append, List.reverse_singleton, List.singleton_append,
    List.findSome?_cons]
  cases r.settles? h with
  | none => rfl
  | some value => rfl

/-- What an access does to a registry that has room for it. -/
theorem access_cases (x : Access α) (hroom : x.isInsert → t.size < 2 ^ 64 - 1) :
    (∃ a h u, x = .insert a ∧ t.insert? a = some (h, u) ∧ t.access x = (.issued h a, u)) ∨
      (∃ h, x = .get h ∧ t.access x = (.found h (t.get? h), t)) ∨
      ∃ h, x = .remove h ∧ t.access x = (.taken h (t.get? h), t.erase h) := by
  cases x with
  | insert a =>
    obtain ⟨h, u, hins⟩ := exists_insert? a (hroom rfl)
    exact .inl ⟨a, h, u, rfl, hins, by simp only [access, hins]⟩
  | get h => exact .inr (.inl ⟨h, rfl, rfl⟩)
  | remove h => exact .inr (.inr ⟨h, rfl, rfl⟩)

theorem size_access (x : Access α) (hroom : x.isInsert → t.size < 2 ^ 64 - 1) :
    (t.access x).2.size + (if (t.access x).1.isRemoval then 1 else 0) =
      t.size + if x.isInsert then 1 else 0 := by
  rcases access_cases x hroom with ⟨a, h, u, rfl, hins, hx⟩ | ⟨h, rfl, hx⟩ | ⟨h, rfl, hx⟩
  · obtain ⟨-, hentries, -⟩ := insert?_eq_some_iff.1 hins
    rw [hx, size, hentries]
    rfl
  · rw [hx]
    rfl
  · have hsize := t.size_erase h
    rw [hx]
    cases hget : t.get? h with
    | none =>
      rw [hget] at hsize
      exact hsize
    | some a =>
      rw [hget] at hsize
      exact hsize

theorem get?_access (x : Access α) (hroom : x.isInsert → t.size < 2 ^ 64 - 1) (k : Handle) :
    (t.access x).2.get? k = ((t.access x).1.settles? k).getD (t.get? k) := by
  rcases access_cases x hroom with ⟨a, h, u, rfl, hins, hx⟩ | ⟨h, rfl, hx⟩ | ⟨h, rfl, hx⟩
  · rw [hx, get?_of_insert? hins, Record.settles?]
    by_cases hk : k = h
    · rw [if_pos hk, if_pos hk.symm]
      rfl
    · rw [if_neg hk, if_neg (Ne.symm hk)]
      rfl
  · rw [hx]
    rfl
  · rw [hx, get?_erase]
    cases hget : t.get? h with
    | none =>
      by_cases hk : k = h
      · rw [if_pos hk, hk, hget]
        rfl
      · rw [if_neg hk]
        rfl
    | some a =>
      by_cases hk : k = h
      · rw [if_pos hk, Record.settles?, if_pos hk.symm]
        rfl
      · rw [if_neg hk, Record.settles?, if_neg (Ne.symm hk)]
        rfl

theorem null_notMem_keys_access (hnull : .null ∉ t.keys) (x : Access α)
    (hroom : x.isInsert → t.size < 2 ^ 64 - 1) : .null ∉ (t.access x).2.keys := by
  rcases access_cases x hroom with ⟨a, h, u, rfl, hins, hx⟩ | ⟨h, rfl, hx⟩ | ⟨h, rfl, hx⟩
  · obtain ⟨hfresh, -, -⟩ := insert?_eq_some_iff.1 hins
    have hne : Handle.null ≠ h := (isFree_of_fresh? hfresh).1.symm
    rwa [hx, mem_keys_iff, get?_of_insert? hins, if_neg hne, ← mem_keys_iff]
  · rwa [hx]
  · rw [hx, mem_keys_iff, get?_erase]
    split
    · exact Bool.false_ne_true
    · rwa [← mem_keys_iff]

theorem after_append_singleton (t : Registry α) (xs : List (Access α)) (x : Access α) :
    t.after (xs ++ [x]) = ((t.after xs).access x).2 :=
  t.after_append xs [x]

theorem history_append_singleton (t : Registry α) (xs : List (Access α)) (x : Access α) :
    t.history (xs ++ [x]) = t.history xs ++ [((t.after xs).access x).1] :=
  t.history_append xs [x]

theorem HasRoom.append_singleton (hroom : t.HasRoom (xs ++ [x])) :
    t.HasRoom xs ∧ (x.isInsert → (t.after xs).size < 2 ^ 64 - 1) := by
  obtain ⟨hxs, hx, -⟩ := hasRoom_append.1 hroom
  exact ⟨hxs, hx⟩

theorem null_notMem_keys_after (hnull : .null ∉ t.keys) (hroom : t.HasRoom xs) :
    .null ∉ (t.after xs).keys := by
  induction xs using List.reverseRecOn with
  | nil => exact hnull
  | append_singleton xs x ih =>
    obtain ⟨hxs, hx⟩ := hroom.append_singleton
    rw [after_append_singleton]
    exact null_notMem_keys_access (ih hxs) x hx

theorem get?_after (hroom : t.HasRoom xs) (h : Handle) :
    (t.after xs).get? h = binding t.get? (t.history xs) h := by
  induction xs using List.reverseRecOn with
  | nil => rfl
  | append_singleton xs x ih =>
    obtain ⟨hxs, hx⟩ := hroom.append_singleton
    rw [after_append_singleton, history_append_singleton, binding_append_singleton,
      get?_access x hx, ih hxs]

theorem size_after (hroom : t.HasRoom xs) :
    (t.after xs).size + (t.history xs).countP Record.isRemoval =
      t.size + xs.countP Access.isInsert := by
  induction xs using List.reverseRecOn with
  | nil => rfl
  | append_singleton xs x ih =>
    obtain ⟨hxs, hx⟩ := hroom.append_singleton
    have hrun := ih hxs
    have hstep := size_access x hx
    rw [after_append_singleton, history_append_singleton, List.countP_append, List.countP_append,
      List.countP_singleton, List.countP_singleton]
    omega

/-- The counter of `u` stands `n` handles after that of `t`, and each of these is zero, or was
bound in `t`, or has been issued since. -/
structure Advanced (t u : Registry α) (issued : List Handle) (n : Nat) : Prop where
  le_size : n ≤ UInt64.size
  nextId_eq : u.nextId = t.nextId + UInt64.ofNat n
  passed : ∀ k < n, t.candidate k ∈ Handle.null :: (t.keys ++ issued)
  behind : ∀ h ∈ issued, ∃ k < n, t.candidate k = h
  live : ∀ h ∈ u.keys, h ∈ t.keys ++ issued
  nodup : issued.Nodup

namespace Advanced

variable {v : Registry α} {issued : List Handle} {n : Nat}

theorem start (t : Registry α) : t.Advanced t [] 0 where
  le_size := Nat.zero_le _
  nextId_eq := (UInt64.add_zero _).symm
  passed := nofun
  behind := nofun
  live h hmem := by rwa [List.append_nil]
  nodup := List.nodup_nil

theorem erase (hadv : t.Advanced u issued n) (h : Handle) : t.Advanced (u.erase h) issued n where
  le_size := hadv.le_size
  nextId_eq := hadv.nextId_eq
  passed := hadv.passed
  behind := hadv.behind
  live k hmem := by
    apply hadv.live
    rw [mem_keys_iff, get?_erase] at hmem
    rw [mem_keys_iff]
    split at hmem
    · cases hmem
    · exact hmem
  nodup := hadv.nodup

/-- Fewer handles than there are can be in the way of the counter, so it does not come round to
a handle that has been issued. -/
theorem insert (hadv : t.Advanced u issued n) (hroom : issued.length + 1 + t.size < UInt64.size)
    (hins : u.insert? a = some (h, v)) : ∃ m, t.Advanced v (issued ++ [h]) m := by
  obtain ⟨hfresh, hentries, hnext⟩ := insert?_eq_some_iff.1 hins
  obtain ⟨k, -, hk, hfree, hskipped⟩ := fresh?_eq_some_iff.1 hfresh
  rw [candidate_of_nextId hadv.nextId_eq] at hk
  have hpassed : ∀ j < n + k, t.candidate j ∈ Handle.null :: (t.keys ++ issued) := by
    intro j hj
    rcases Nat.lt_or_ge j n with hjn | hnj
    · exact hadv.passed j hjn
    · have hbusy := hskipped (j - n) (by omega)
      rw [not_isFree_iff, candidate_of_nextId hadv.nextId_eq, Nat.add_sub_cancel' hnj,
        List.mem_cons] at hbusy
      rcases hbusy with hzero | hlive
      · exact List.mem_cons.2 (.inl hzero)
      · exact List.mem_cons_of_mem _ (hadv.live _ hlive)
  have hlt : n + k < UInt64.size := by
    by_contra hge
    have hle := le_length_of_candidates_mem le_rfl fun j hj ↦
      hpassed j (hj.trans_le (Nat.le_of_not_lt hge))
    simp only [List.length_cons, List.length_append, keys, List.length_map] at hle
    simp only [size] at hroom
    omega
  have hnew : h ∉ issued := by
    intro hmem
    obtain ⟨j, hj, hjh⟩ := hadv.behind h hmem
    have := candidate_inj (by omega) hlt (hjh.trans hk.symm)
    omega
  refine ⟨n + k + 1, hlt, ?_, ?_, ?_, ?_, ?_⟩
  · rw [hnext, ← hk, candidate, UInt64.ofNat_add (n + k)]
    grind
  · intro j hj
    rcases Nat.lt_succ_iff_lt_or_eq.1 hj with hj | rfl
    · have := hpassed j hj
      simp only [List.mem_cons, List.mem_append] at this ⊢
      tauto
    · simp [hk]
  · intro h' hmem
    rcases List.mem_append.1 hmem with hmem | hmem
    · obtain ⟨j, hj, hjh⟩ := hadv.behind h' hmem
      exact ⟨j, by omega, hjh⟩
    · obtain rfl := List.mem_singleton.1 hmem
      exact ⟨n + k, Nat.lt_succ_self _, hk⟩
  · intro h' hmem
    rw [keys, hentries, List.map_cons, List.mem_cons] at hmem
    rcases hmem with rfl | hmem
    · simp
    · rw [← List.append_assoc]
      exact List.mem_append_left _ (hadv.live h' hmem)
  · rw [List.nodup_append_comm]
    exact List.nodup_cons.2 ⟨hnew, hadv.nodup⟩

end Advanced

theorem issuedHandles_append (records records' : List (Record α)) :
    issuedHandles (records ++ records') = issuedHandles records ++ issuedHandles records' :=
  List.filterMap_append

theorem length_issuedHandles (hroom : t.HasRoom xs) :
    (issuedHandles (t.history xs)).length = xs.countP Access.isInsert := by
  induction xs using List.reverseRecOn with
  | nil => rfl
  | append_singleton xs x ih =>
    obtain ⟨hxs, hx⟩ := hroom.append_singleton
    rw [history_append_singleton, issuedHandles_append, List.length_append, ih hxs,
      List.countP_append]
    rcases access_cases x hx with ⟨a, h, u, rfl, -, hx⟩ | ⟨h, rfl, hx⟩ | ⟨h, rfl, hx⟩
    · rw [hx]
      rfl
    · rw [hx]
      rfl
    · rw [hx]
      rfl

theorem exists_advanced (hroom : t.HasRoom xs)
    (hfew : xs.countP Access.isInsert + t.size < UInt64.size) :
    ∃ n, t.Advanced (t.after xs) (issuedHandles (t.history xs)) n := by
  induction xs using List.reverseRecOn with
  | nil => exact ⟨0, .start t⟩
  | append_singleton xs x ih =>
    obtain ⟨hxs, hx⟩ := hroom.append_singleton
    rw [List.countP_append, List.countP_singleton] at hfew
    obtain ⟨n, hadv⟩ := ih hxs (by omega)
    have hlength := length_issuedHandles hxs
    rw [after_append_singleton, history_append_singleton, issuedHandles_append]
    rcases access_cases x hx with ⟨a, h, u, rfl, hins, hx⟩ | ⟨h, rfl, hx⟩ | ⟨h, rfl, hx⟩
    · rw [hx]
      refine hadv.insert ?_ hins
      rw [hlength]
      rw [Access.isInsert, if_pos rfl] at hfew
      omega
    · rw [hx]
      exact ⟨n, (List.append_nil _).symm ▸ hadv⟩
    · rw [hx]
      exact ⟨n, (List.append_nil _).symm ▸ hadv.erase h⟩

/-- Once taken out, a handle that is not issued again is bound to nothing. -/
theorem binding_of_taken {before rest : List (Record α)} (hnew : h ∉ issuedHandles rest) :
    binding initial (before ++ .taken h (some a) :: rest) h = none := by
  induction rest using List.reverseRecOn with
  | nil => rw [binding_append_singleton, Record.settles?, if_pos rfl, Option.getD_some]
  | append_singleton rest r ih =>
    rw [issuedHandles_append, List.mem_append, not_or] at hnew
    rw [← List.cons_append, ← List.append_assoc, binding_append_singleton, ih hnew.1]
    cases r with
    | issued k b =>
      have hk : k ≠ h := by
        rintro rfl
        exact hnew.2 (by simp [issuedHandles, Record.issued?])
      rw [Record.settles?, if_neg hk]
      rfl
    | full b => rfl
    | found k value => rfl
    | taken k value =>
      cases value with
      | none => rfl
      | some b =>
        rw [Record.settles?]
        split
        · rfl
        · rfl

/-- What a run leaves, and what the next access to it returns. -/
structure Safe (t : Registry α) (xs : List (Access α)) : Prop where
  null_notMem : .null ∉ (t.after xs).keys
  get : ∀ h, (t.after xs).access (.get h) =
    (.found h (binding t.get? (t.history xs) h), t.after xs)
  remove : ∀ h, ∃ u, (t.after xs).access (.remove h) =
      (.taken h (binding t.get? (t.history xs) h), u) ∧
    ∀ k, u.get? k = if k = h then none else (t.after xs).get? k
  insert : (t.after xs).size < 2 ^ 64 - 1 → ∀ a, ∃ h u,
    (t.after xs).access (.insert a) = (.issued h a, u) ∧ h ≠ .null ∧ h ∉ (t.after xs).keys ∧
      ∀ k, u.get? k = if k = h then some a else (t.after xs).get? k
  size_eq : (t.after xs).size + (t.history xs).countP Record.isRemoval =
    t.size + xs.countP Access.isInsert
  issued_once : xs.countP Access.isInsert + t.size ≤ 2 ^ 64 - 1 →
    (issuedHandles (t.history xs)).Nodup
  /-- A handle that was issued and then taken out is bound to nothing ever after. -/
  retired : xs.countP Access.isInsert + t.size ≤ 2 ^ 64 - 1 →
    ∀ before h a rest, t.history xs = before ++ .taken h (some a) :: rest →
      h ∈ issuedHandles before → (t.after xs).get? h = none

theorem safe_of_hasRoom (hnull : .null ∉ t.keys) (hroom : t.HasRoom xs) : t.Safe xs := by
  have hnodup : xs.countP Access.isInsert + t.size ≤ 2 ^ 64 - 1 →
      (issuedHandles (t.history xs)).Nodup := by
    intro hfew
    obtain ⟨n, hadv⟩ := exists_advanced hroom (by simp only [UInt64.size]; omega)
    exact hadv.nodup
  refine ⟨null_notMem_keys_after hnull hroom, ?_, ?_, ?_, size_after hroom, hnodup, ?_⟩
  · intro h
    rw [access, get?_after hroom]
  · intro h
    rw [← get?_after hroom]
    exact ⟨_, rfl, get?_erase _ h⟩
  · intro hsize a
    obtain ⟨h, u, hins⟩ := exists_insert? a hsize
    have hfree := isFree_of_fresh? (insert?_eq_some_iff.1 hins).1
    exact ⟨h, u, by simp only [access, hins], hfree.1, hfree.2, fun k ↦ get?_of_insert? hins⟩
  · intro hfew before h a rest hrecords hissued
    have honce := hnodup hfew
    rw [hrecords, issuedHandles_append, List.nodup_append] at honce
    have hnew : h ∉ issuedHandles rest := by
      intro hmem
      refine honce.2.2 h hissued h ?_ rfl
      exact hmem
    rw [get?_after hroom, hrecords, binding_of_taken hnew]

/-- Handles are safe from any registry that does not bind zero, wherever its counter stands, at
every moment of a run whose insertions find room. -/
theorem safe_throughout (hnull : .null ∉ t.keys) (hroom : t.HasRoom xs) :
    ∀ ys, ys <+: xs → t.Safe ys := by
  rintro ys ⟨zs, rfl⟩
  exact safe_of_hasRoom hnull (hasRoom_append.1 hroom).1

/-- The counter stands before a handle in use, behind which it wraps around; the handle issued
then is taken out again, and the next insertion passes it by. -/
theorem safe_throughout_wrapping :
    let t : Registry Nat :=
      { entries := [(⟨0xffffffffffffffff⟩, 7)]
        nextId := 0xfffffffffffffffe
        nodup := List.nodup_singleton _ }
    let xs : List (Access Nat) :=
      [.insert 8, .get ⟨1⟩, .remove ⟨1⟩, .insert 9, .get ⟨1⟩, .remove ⟨0xffffffffffffffff⟩]
    .null ∉ t.keys ∧ t.HasRoom xs ∧ issuedHandles (t.history xs) = [⟨1⟩, ⟨2⟩] ∧
      ∀ ys, ys <+: xs → t.Safe ys := by
  intro t xs
  have hnull : .null ∉ t.keys := by decide
  have hroom : t.HasRoom xs := by decide
  exact ⟨hnull, hroom, by decide, safe_throughout hnull hroom⟩

end AesEcb.Registry
