import AesEcb.Proofs.Creation
import AesEcb.Proofs.KeyExpansion
import AesEcb.Proofs.KeyStore
import AesEcb.Proofs.Registry
import AesEcb.Proofs.Steps

/-!
# The library refines the key store

Every call keeps a relation between the process and the store: the same counter, and to every
recorded key a context that encrypts by the standard under it.  So a client that goes through
handles sees, over a whole session, just what the store shows.
-/

namespace AesEcb

namespace Boundary

theorem keyArgument_of_holds {m : Memory} {name : String} {offset length : Int32}
    (hkey : Pointer.Holds (some name) m offset length) (hoffset : 0 ≤ offset)
    (hlength : length = 16 ∨ length = 24 ∨ length = 32) :
    ∃ k, keyArgument m (some name) offset length = .ok ((m name).sub offset length, k) ∧
      keyOf? ((m name).sub offset length) = some k := by
  have hnonneg : 0 ≤ length := by
    rcases hlength with rfl | rfl | rfl <;> decide
  obtain ⟨r, hr, hfits, rfl⟩ := hkey.exists_region hoffset hnonneg
  obtain ⟨s, hs⟩ := (KeySize.exists_length_iff hnonneg).2 hlength
  have hlen : s.length = ((m name).sub offset length).length :=
    hs.trans (Region.length_extract hfits).symm
  obtain ⟨k, hk⟩ := Key.exists_ofBytes hlen
  refine ⟨k, keyArgument_eq_ok_iff.2 ⟨_, name, hr, rfl, hfits, rfl, hk⟩, ?_⟩
  rw [← Key.ofBytes_eq_ok_iff.1 hk, keyOf?_toBytes]

theorem keyArgument_error {m : Memory} {key : Pointer} {offset length : Int32}
    (hbad : ¬ ∃ name, key = some name ∧ 0 ≤ offset ∧ (length = 16 ∨ length = 24 ∨ length = 32)) :
    ∃ e, keyArgument m key offset length = .error e := by
  cases harg : keyArgument m key offset length with
  | error e => exact ⟨e, rfl⟩
  | ok named =>
    exfalso
    obtain ⟨data, k⟩ := named
    obtain ⟨r, name, hr, hname, hfits, rfl, hk⟩ := keyArgument_eq_ok_iff.1 harg
    obtain ⟨hoffset, hlength, rfl⟩ := Region.ofSigned_eq_ok_iff.1 hr
    have hsize := Key.size_length_of_ofBytes hk
    rw [Region.length_extract hfits] at hsize
    exact hbad ⟨name, hname, hoffset, (KeySize.exists_length_iff hlength).1 ⟨k.size, hsize⟩⟩

end Boundary

theorem Memory.write_eq_update (m : Memory) (name : String) (data : Bytes) :
    m.write name data = Function.update m name data := by
  funext other
  simp only [write, Function.update_apply]

/-- The context encrypts by the standard, under the key with the given bytes. -/
def Context.Represents (c : Context) (key : Bytes) : Prop :=
  ∃ k, keyOf? key = some k ∧ c.key = .ofBlockCipher k.size (Standard.encryptBlock k)

/-- The process is in a state that the store of keys accounts for. -/
structure Process.Simulates (p : Process) (t : KeyStore) : Prop where
  no_override : p.override? = none
  counter_eq : p.handles.nextId.toNat = t.counter
  used : ∀ h ∈ p.handles.keys, h ≠ .null ∧ h.id.toNat ≤ t.counter
  bindings : ∀ h, Option.Rel Context.Represents (p.handles.get? h) (t.keys.lookup h.id.toNat)

namespace Process.Simulates

variable {p : Process} {t : KeyStore} {h : Handle}

theorem exists_key (hp : p.Simulates t) {c : Context} (hget : p.handles.get? h = some c) :
    ∃ key, t.keys.lookup h.id.toNat = some key ∧ c.Represents key := by
  have hrel := hp.bindings h
  rw [hget] at hrel
  cases hlookup : t.keys.lookup h.id.toNat with
  | none =>
    rw [hlookup] at hrel
    cases hrel
  | some key =>
    rw [hlookup] at hrel
    cases hrel with
    | some hc => exact ⟨key, rfl, hc⟩

theorem exists_context (hp : p.Simulates t) {key : Bytes}
    (hlookup : t.keys.lookup h.id.toNat = some key) :
    ∃ c, p.handles.get? h = some c ∧ c.Represents key := by
  have hrel := hp.bindings h
  rw [hlookup] at hrel
  cases hget : p.handles.get? h with
  | none =>
    rw [hget] at hrel
    cases hrel
  | some c =>
    rw [hget] at hrel
    cases hrel with
    | some hc => exact ⟨c, rfl, hc⟩

/-- A new context under the next number, and its key recorded, go together. -/
theorem insert (hp : p.Simulates t) {c : Context} {u : Registry Context} {key : Bytes}
    (hins : p.handles.insert? c = some (h, u)) (hnumber : h.id.toNat = t.counter + 1)
    (hc : c.Represents key) (serial : Nat) :
    Process.Simulates { p with handles := u, nextSerial := serial }
      ⟨t.keys.insert (t.counter + 1) key, t.counter + 1⟩ := by
  obtain ⟨-, -, hnext⟩ := Registry.insert?_eq_some_iff.1 hins
  refine ⟨hp.no_override, ?_, ?_, ?_⟩
  · show u.nextId.toNat = t.counter + 1
    rw [hnext, hnumber]
  · intro k hk
    rw [Registry.mem_keys_iff, Registry.get?_of_insert? hins] at hk
    by_cases hkh : k = h
    · subst hkh
      refine ⟨?_, hnumber.le⟩
      rintro rfl
      exact absurd hnumber (by simp [Handle.null])
    · rw [if_neg hkh, ← Registry.mem_keys_iff] at hk
      obtain ⟨hnull, hle⟩ := hp.used k hk
      exact ⟨hnull, hle.trans (Nat.le_succ _)⟩
  · intro k
    rw [Registry.get?_of_insert? hins]
    by_cases hkh : k = h
    · subst hkh
      rw [if_pos rfl, hnumber, Finmap.lookup_insert]
      exact .some hc
    · have hne : k.id.toNat ≠ t.counter + 1 := by
        rw [← hnumber, ne_eq, Handle.toNat_inj]
        exact hkh
      rw [if_neg hkh, Finmap.lookup_insert_of_ne _ hne]
      exact hp.bindings k

end Process.Simulates

namespace Boundary

variable {ε : Type} {p : Process} {t : KeyStore}

theorem create_simulates [LinkedCipher] (hlib : LinkedCipher.MeetsStandard) (hp : p.Simulates t)
    (hroom : t.counter + 1 < UInt64.size) {key : Pointer} {offset length : Int32}
    (hkey : key.Holds p.memory offset length) :
    let a := t.create p.memory key offset length
    ∃ r : Run ε Handle, create key offset length p = some r ∧
      r.outcome = .ok a.1 ∧ r.process.memory = p.memory ∧ r.process.Simulates a.2 := by
  intro a
  have hrun := create_run (ε := ε) key offset length p hp.no_override
  by_cases hgood : ∃ name, key = some name ∧ 0 ≤ offset ∧
      (length = 16 ∨ length = 24 ∨ length = 32)
  · obtain ⟨name, rfl, hoffset, hlength⟩ := hgood
    obtain ⟨k, harg, hk⟩ := keyArgument_of_holds hkey hoffset hlength
    have hused : ∀ h ∈ p.handles.keys, h.id.toNat ≤ p.handles.nextId.toNat := by
      intro h hmem
      rw [hp.counter_eq]
      exact (hp.used h hmem).2
    rw [← hp.counter_eq] at hroom
    obtain ⟨h, u, hins, hnumber⟩ := Registry.insert?_of_le (p.opened k) hroom hused
    rw [hp.counter_eq] at hnumber
    have hid : UInt64.ofNat (t.counter + 1) = h.id := by rw [← hnumber, UInt64.ofNat_toNat]
    have ha : a = _ := KeyStore.create_accepted hoffset hlength
    simp only [harg, hins] at hrun
    refine ⟨_, hrun, ?_⟩
    rw [ha, hid]
    exact ⟨rfl, rfl, hp.insert hins hnumber ⟨k, hk, Engine.importedKey_eq hlib _ k⟩ _⟩
  · obtain ⟨e, harg⟩ := keyArgument_error (m := p.memory) hgood
    have ha : a = (.null, t) := KeyStore.create_refused hgood
    simp only [harg] at hrun
    refine ⟨_, hrun, ?_⟩
    rw [ha]
    exact ⟨rfl, rfl, hp⟩

theorem release_simulates (hp : p.Simulates t) (h : Handle) :
    let r := (release none h : Action ε Unit) p
    r.outcome = .ok () ∧ r.process.memory = p.memory ∧ r.process.Simulates (t.release h) := by
  intro r
  have hfree : p.handles.get? .null = none :=
    Registry.get?_eq_none_iff.2 fun hmem ↦ (hp.used _ hmem).1 rfl
  obtain ⟨houtcome, hmemory, hover, hnext, hlookup⟩ :
    r.outcome = _ ∧ r.process.memory = _ ∧ r.process.override? = _ ∧
      r.process.handles.nextId = _ ∧ ∀ k, r.process.handles.get? k = _ := release_lookup hfree h
  refine ⟨houtcome, hmemory, hover.trans hp.no_override, ?_, ?_, ?_⟩
  · rw [hnext]
    exact hp.counter_eq
  · intro k hk
    rw [Registry.mem_keys_iff, hlookup] at hk
    refine hp.used k (Registry.mem_keys_iff.2 ?_)
    by_cases hkh : k = h
    · simp [hkh] at hk
    · rwa [if_neg hkh] at hk
  · intro k
    rw [hlookup]
    by_cases hk : k = h
    · rw [if_pos hk, hk, KeyStore.release, Finmap.lookup_erase]
      exact .none
    · have hne : k.id.toNat ≠ h.id.toNat := fun heq ↦ hk (Handle.toNat_inj.1 heq)
      rw [if_neg hk, KeyStore.release, Finmap.lookup_erase_ne hne]
      exact hp.bindings k

theorem encryption_accepted (hp : p.Simulates t) {h : Handle} {source target : String}
    {inOffset length outOffset : Int32} {key : Bytes}
    (hin : Pointer.Holds (some source) p.memory inOffset length)
    (hout : Pointer.Holds (some target) p.memory outOffset length)
    (hcall : t.Accepts h inOffset length outOffset key) :
    encryption p h (some source) inOffset length (some target) outOffset =
      (.ok length, p.memory.write target ((p.memory target).put outOffset
        (KeyStore.cipherText key ((p.memory source).sub inOffset length)))) := by
  have hlength : 0 ≤ length := Int32.le_of_lt hcall.length_pos
  obtain ⟨r, hr, hfits, rfl⟩ := hin.exists_region hcall.inOffset_nonneg hlength
  obtain ⟨r', hr', hfits', rfl⟩ := hout.exists_region hcall.outOffset_nonneg hlength
  have hargs : arguments p.memory (some source) inOffset length outOffset =
      .ok (⟨outOffset.toInt.toNat, length.toInt.toNat⟩, (p.memory source).sub inOffset length) :=
    arguments_eq_ok_iff.2 ⟨_, source, hr, hr', rfl, hfits, rfl⟩
  have hdata : ((p.memory source).sub inOffset length).length = length.toInt.toNat :=
    Region.length_extract hfits
  have haligned : checkAligned ((p.memory source).sub inOffset length).length = .ok () := by
    rw [hdata]
    exact (checkAligned_toNat_iff hlength).2 ⟨hcall.length_pos, hcall.length_dvd⟩
  have hwhole := (checkAligned_eq_ok_iff.1 haligned).2
  obtain ⟨c, hget, k, hk, hc⟩ := hp.exists_context hcall.live
  have hcipher : KeyStore.cipherText key ((p.memory source).sub inOffset length) =
      ecb (Standard.encryptBlock k) ((p.memory source).sub inOffset length) := by
    rw [KeyStore.cipherText, hk, ecb_eq_codebook hwhole]
  simp only [encryption, hget, hargs, hc]
  rw [deliver_ofBlockCipher haligned hfits', hdata, signedCount_toNat hlength, hcipher,
    Bytes.put, length_ecb hwhole, hdata]
  rfl

theorem encryption_refused (hp : p.Simulates t) {h : Handle} {input output : Pointer}
    {inOffset length outOffset : Int32}
    (hbad : ∀ key source target, input = some source → output = some target →
      ¬ t.Accepts h inOffset length outOffset key) :
    ∃ e, encryption p h input inOffset length output outOffset = (.error e, p.memory) := by
  rw [encryption]
  cases hget : p.handles.get? h with
  | none => exact ⟨_, rfl⟩
  | some c =>
    obtain ⟨key, hlookup, k, hk, hc⟩ := hp.exists_key hget
    cases hargs : arguments p.memory input inOffset length outOffset with
    | error e => exact ⟨e, rfl⟩
    | ok named =>
      obtain ⟨target, data⟩ := named
      obtain ⟨source, name, hs, ht, hname, hfits, rfl⟩ := arguments_eq_ok_iff.1 hargs
      dsimp only
      rw [hc]
      cases haligned : checkAligned (source.extract (p.memory name)).length with
      | error e =>
        rw [ImportedKey.transform_ofBlockCipher_error haligned]
        exact ⟨_, rfl⟩
      | ok =>
        rw [ImportedKey.transform_ofBlockCipher haligned]
        cases output with
        | none => exact ⟨_, rfl⟩
        | some other =>
          exfalso
          obtain ⟨hin, hlength, rfl⟩ := Region.ofSigned_eq_ok_iff.1 hs
          obtain ⟨hout, -, -⟩ := Region.ofSigned_eq_ok_iff.1 ht
          rw [Region.length_extract hfits] at haligned
          obtain ⟨hpos, hdvd⟩ := (checkAligned_toNat_iff hlength).1 haligned
          exact hbad key name other hname rfl ⟨hlookup, hin, hout, hpos, hdvd⟩

theorem encryption_simulates (hp : p.Simulates t) (h : Handle) {input output : Pointer}
    {inOffset length outOffset : Int32} (hin : input.Holds p.memory inOffset length)
    (hout : output.Holds p.memory outOffset length) :
    let e := encryption p h input inOffset length output outOffset
    (e.1.getD 0, e.2) = t.encrypt p.memory h input inOffset length output outOffset := by
  intro e
  rcases t.accepts_or_refuses h input output inOffset length outOffset with
    ⟨key, source, target, rfl, rfl, hcall⟩ | hbad
  · have he : e = _ := encryption_accepted hp hin hout hcall
    rw [KeyStore.encrypt_accepted hcall, he, Memory.write_eq_update]
    rfl
  · obtain ⟨error, he⟩ := encryption_refused hp hbad
    have he' : e = _ := he
    rw [KeyStore.encrypt_refused hbad, he']
    rfl

theorem encrypt_simulates (hp : p.Simulates t) (h : Handle) {input output : Pointer}
    {inOffset length outOffset : Int32} (hin : input.Holds p.memory inOffset length)
    (hout : output.Holds p.memory outOffset length) :
    let r := (encrypt h input inOffset length output outOffset : Action ε Int32) p
    let a := t.encrypt p.memory h input inOffset length output outOffset
    r.outcome = .ok a.1 ∧ r.process.memory = a.2 ∧ r.process.Simulates t := by
  intro r a
  obtain ⟨houtcome, hmemory⟩ : r.outcome = _ ∧ r.process.memory = _ :=
    encrypt_outcome_memory h input inOffset length output outOffset p
  have ha : (_, _) = a := encryption_simulates hp h hin hout
  have hprocess : r.process = _ :=
    encrypt_process_of_quiet h input inOffset length output outOffset p ?_
  · refine ⟨by rw [houtcome, ← ha], by rw [hmemory, ← ha], ?_⟩
    rw [hprocess]
    exact ⟨hp.no_override, hp.counter_eq, hp.used, hp.bindings⟩
  · intro c hget data
    obtain ⟨key, -, k, -, hc⟩ := hp.exists_key hget
    rw [hc]
    exact ImportedKey.callbacks_ofBlockCipher

end Boundary

namespace Session

variable [LinkedCipher] {s : Session} {t : KeyStore}

theorem step_simulates (hlib : LinkedCipher.MeetsStandard) (hs : s.process.Simulates t)
    (hroom : t.counter + 1 < UInt64.size) (c : Call) (hc : c.Lawful s.process.memory) :
    let r := s.step c.step
    let a := t.step s.process.memory c
    r.reply = a.1 ∧ r.session.process.memory = a.2.2 ∧ r.session.process.Simulates a.2.1 := by
  intro r a
  cases c with
  | create key offset length =>
    obtain ⟨run, hrun, houtcome, hmemory, hsim⟩ :=
      Boundary.create_simulates (ε := CipherError) hlib hs hroom hc
    have hr : r = s.conclude run .handle := by simp only [r, Call.step, step, hrun]
    rw [hr]
    exact ⟨reply_of_ok houtcome _, hmemory, hsim⟩
  | encrypt h input inOffset length output outOffset =>
    obtain ⟨houtcome, hmemory, hsim⟩ :=
      Boundary.encrypt_simulates (ε := CipherError) hs h hc.1 hc.2
    exact ⟨reply_of_ok houtcome _, hmemory, hsim⟩
  | release h =>
    obtain ⟨houtcome, hmemory, hsim⟩ := Boundary.release_simulates (ε := CipherError) hs h
    exact ⟨reply_of_ok houtcome _, hmemory, hsim⟩
  | setDefault engine => exact ⟨rfl, rfl, hs.no_override, hs.counter_eq, hs.used, hs.bindings⟩

theorem length_run_le (s : Session) (xs : List Step) : (s.run xs).length ≤ xs.length := by
  induction xs generalizing s with
  | nil => exact le_rfl
  | cons x xs ih =>
    simp only [run]
    split
    · exact Nat.succ_le_succ (ih _)
    · exact Nat.zero_le _

omit [LinkedCipher] in
theorem ends_keyStore_step (t : KeyStore) (m : Memory) (c : Call) :
    (t.step m c).1.ends = true := by
  cases c with
  | create key offset length => rfl
  | encrypt h input inOffset length output outOffset => rfl
  | release h => rfl
  | setDefault engine => rfl

/-- A session of a lawful client returns what the store of keys returns, and leaves the same
memory after every call, from any state that the store accounts for. -/
theorem run_simulates (hlib : LinkedCipher.MeetsStandard) (hs : s.process.Simulates t)
    (calls : List Call) (hcalls : ∀ c ∈ calls, c.Lawful s.process.memory)
    (hroom : t.counter + (s.run (calls.map Call.step)).countP (·.reply.issues) + 1 <
      UInt64.size) :
    (s.run (calls.map Call.step)).map Result.seen = t.run s.process.memory calls := by
  induction calls generalizing s t with
  | nil => rfl
  | cons c cs ih =>
    have hlawful := hcalls c List.mem_cons_self
    obtain ⟨hreply, hmemory, hsim⟩ := step_simulates hlib hs (by omega) c hlawful
    have hends : (s.step c.step).reply.ends = true := by
      rw [hreply]
      exact ends_keyStore_step t _ c
    simp only [List.map_cons, run, if_pos hends, List.countP_cons] at hroom ⊢
    have hcounter := KeyStore.counter_step (m := s.process.memory) c (by omega : t.counter + 1 < _)
    rw [← hreply] at hcounter
    have hrest := ih hsim ?_ ?_
    · rw [hrest, hmemory, Result.seen, hreply, hmemory]
      rfl
    · intro c' hc'
      refine (hcalls c' (List.mem_cons_of_mem _ hc')).of_length_eq ?_
      intro name
      rw [hmemory]
      exact KeyStore.length_step c hlawful name
    · omega

omit [LinkedCipher] in
theorem fresh_simulates (m : Memory) : Process.Simulates { memory := m } {} where
  no_override := rfl
  counter_eq := rfl
  used h hmem := nomatch hmem
  bindings h := by
    rw [show ({} : KeyStore).keys = ∅ from rfl, Finmap.lookup_empty]
    exact .none

end Session

/-- A client that goes through handles, and whose buffers are as long as its calls say, sees of the
library what it would see of a store of keys: the same handles and counts, and the same memory
after every call. -/
theorem Session.run_eq_keyStore_run [LinkedCipher] (hlib : LinkedCipher.MeetsStandard) (m : Memory)
    (calls : List Call) (hcalls : ∀ c ∈ calls, c.Lawful m)
    (hroom : (Session.run { process := { memory := m } } (calls.map Call.step)).countP
      (·.reply.issues) < 2 ^ 64 - 1) :
    (Session.run { process := { memory := m } } (calls.map Call.step)).map Result.seen =
      KeyStore.run {} m calls := by
  refine run_simulates hlib (fresh_simulates m) calls hcalls ?_
  simp only [Nat.zero_add, UInt64.size]
  omega

/-- A key is created and used on overlapping regions of one buffer, and its handle is used once
more after its release. -/
theorem Session.run_eq_keyStore_run_overlapping :
    let m : Memory := fun name ↦ List.replicate (if name = "key" then 16 else 32) 0x5a
    let calls : List Call :=
      [.create (some "key") 0 16, .setDefault .linked,
        .encrypt ⟨1⟩ (some "text") 0 16 (some "text") 8, .release ⟨1⟩,
        .encrypt ⟨1⟩ (some "text") 0 16 (some "text") 8]
    LinkedCipher.MeetsStandard ∧ (∀ c ∈ calls, c.Lawful m) ∧
      (Session.run { process := { memory := m } } (calls.map Call.step)).countP
        (·.reply.issues) < 2 ^ 64 - 1 ∧
      (Session.run { process := { memory := m } } (calls.map Call.step)).map Result.seen =
        KeyStore.run {} m calls := by
  intro m calls
  have hcalls : ∀ c ∈ calls, c.Lawful m := by decide
  have hroom : (Session.run { process := { memory := m } } (calls.map Call.step)).countP
      (·.reply.issues) < 2 ^ 64 - 1 := by
    exact (List.countP_le_length.trans (length_run_le _ _)).trans_lt (by decide)
  exact ⟨LinkedCipher.equations_meetsStandard, hcalls, hroom,
    Session.run_eq_keyStore_run LinkedCipher.equations_meetsStandard m calls hcalls hroom⟩

end AesEcb
