import AesEcb.Proofs.Acquisition
import AesEcb.Proofs.Likeness

/-!
# Actions that look at no bytes

Opening contexts, using them and giving them up takes like processes to like processes, as long as
the providers and overrides are blind to the keys they are given.
-/

namespace AesEcb

variable {ε : Type}

structure Encryption.Alike (e e' : Encryption) : Prop where
  buffer : e.buffer.SameLength e'.buffer
  result_eq : e.result = e'.result

section Calls

theorem Boundary.contained_alike {α β : Type} {R : α → β → Prop} {r : Run BoundaryError α}
    {r' : Run BoundaryError β} (operation : Operation) {failure : α} {failure' : β}
    (h : r.Alike R r') (hfailure : R failure failure') :
    (r.contained operation failure : Run ε α).Alike R (r'.contained operation failure') := by
  obtain ⟨houtcome, htrace, hprocess⟩ := h
  rw [contained_eq, contained_eq]
  generalize r.outcome = o, r'.outcome = o' at houtcome
  cases houtcome with
  | ok hab => exact ⟨.ok hab, by simp only [Trace.blanked_append, htrace, warning], hprocess⟩
  | error e => exact ⟨.ok hfailure, by simp only [Trace.blanked_append, htrace, warning], hprocess⟩
  | panicked => exact ⟨.ok hfailure, by simp only [Trace.blanked_append, htrace, warning], hprocess⟩

theorem Boundary.contain_alike {α β : Type} {R : α → β → Prop} {body : Action BoundaryError α}
    {body' : Action BoundaryError β} (operation : Operation) {failure : α} {failure' : β}
    (hbody : Action.Alike R body body') (hfailure : R failure failure') :
    Action.Alike R (contain operation failure body : Action ε α)
      (contain operation failure' body') :=
  fun p p' hp ↦ contained_alike operation (hbody p p' hp) hfailure

theorem Boundary.release_alike (running : Option Reference) (h : Handle) :
    Action.Alike Eq (release running h : Action ε Unit) (release running h) := by
  intro p p' hp
  rw [release_run, release_run]
  by_cases hnull : h = .null
  · rw [if_pos hnull, if_pos hnull]
    exact ⟨.ok rfl, rfl, hp⟩
  · rw [if_neg hnull, if_neg hnull]
    have hget := hp.handles.get? h
    generalize p.handles.get? h = c?, p'.handles.get? h = c?' at hget
    cases hget with
    | none => exact ⟨.ok rfl, rfl, hp⟩
    | some hc =>
      refine ⟨.ok rfl, ?_, { hp with handles := hp.handles.erase h }⟩
      simp only [hc.teardown_eq, hc.owner_eq]

theorem Callback.run_alike (running : Option Reference) (c : Callback) :
    Action.Alike Eq (c.run running : Action ε Unit) (c.run running) := by
  cases c with
  | release h => exact Boundary.release_alike running h
  | setDefault engine =>
    apply Action.Alike.bind (.diagnose _)
    rintro _ _ -
    exact .modify fun p p' hp ↦ { hp with engine_eq := rfl }
  | clearOverride =>
    exact .modify fun p p' hp ↦ { hp with override_eq := rfl, blind := nofun }

theorem runCallbacks_alike (running : Option Reference) (cs : List Callback) :
    Action.Alike Eq (runCallbacks running cs : Action ε Unit) (runCallbacks running cs) := by
  induction cs with
  | nil => exact .pure rfl
  | cons c cs ih => exact (c.run_alike running).bind fun _ _ _ ↦ ih

theorem Reaction.run_alike {α β : Type} {R : α → β → Prop} {r : Reaction α} {r' : Reaction β}
    (running : Option Reference) (h : r.Alike R r') :
    Action.Alike R (r.run running) (r'.run running) := by
  rw [run, run, h.callbacks_eq]
  exact (runCallbacks_alike running _).bind fun _ _ _ ↦ .finish h.outcome

end Calls

section Encrypting

variable {c c' : Context} {data data' input input' output output' : Bytes}

theorem Region.slice_alike (r : Region) (h : data.SameLength data') :
    (Outcome.ofExcept (r.slice data)).Alike Bytes.SameLength (.ofExcept (r.slice data')) := by
  rw [slice, slice, h]
  cases r.check data'.length with
  | error e => exact .error e
  | ok =>
    refine .ok ?_
    rw [Bytes.SameLength, extract, extract, List.length_take, List.length_take, List.length_drop,
      List.length_drop, h]

theorem Region.length_replace_congr (r : Region) (h : data.SameLength data')
    (hnew : input.SameLength input') :
    (r.replace data input).SameLength (r.replace data' input') := by
  simp only [Bytes.SameLength] at h hnew
  simp only [Bytes.SameLength, replace, List.length_append, List.length_take, List.length_drop, h,
    hnew]

theorem Encryption.afterCheck_alike {α β : Type} {R : α → β → Prop} {x : Except CipherError α}
    {x' : Except CipherError β} {next : α → Action ε Encryption} {next' : β → Action ε Encryption}
    (hx : (Outcome.ofExcept x).Alike R (.ofExcept x')) (hbuffer : data.SameLength data')
    (hnext : ∀ a b, R a b → Action.Alike Encryption.Alike (next a) (next' b)) :
    Action.Alike Encryption.Alike (afterCheck x data next) (afterCheck x' data' next') := by
  rcases hx.ofExcept_cases with ⟨e, rfl, rfl⟩ | ⟨a, b, rfl, rfl, hab⟩
  · exact .pure ⟨hbuffer, rfl⟩
  · exact hnext a b hab

namespace Context

theorem encryptInPlace_alike (running : Option Reference) (hc : c.Alike c')
    (h : data.SameLength data') :
    Action.Alike Encryption.Alike (c.encryptInPlace running data : Action ε Encryption)
      (c'.encryptInPlace running data') := by
  have hasked : (Crossing.transformAsked c'.owner data).blanked =
      (Crossing.transformAsked c'.owner data').blanked :=
    congrArg (Crossing.transformAsked c'.owner) (Bytes.blanked_eq_iff.2 h)
  rw [encryptInPlace, encryptInPlace, hc.owner_eq, h]
  apply Action.Alike.bind (.diagnose _)
  rintro _ _ -
  apply Action.Alike.bind (.cross hasked)
  rintro _ _ -
  dsimp only
  rw [hc.key.callbacks_eq data data' h]
  apply Action.Alike.bind (runCallbacks_alike running _)
  rintro _ _ -
  refine .pure ⟨?_, hc.key.outcome_eq data data' h⟩
  rw [Bytes.SameLength, c.key.length_left, c'.key.length_left, h]

theorem encrypt_alike (hc : c.Alike c') (hin : input.SameLength input')
    (hout : output.SameLength output') :
    Action.Alike Encryption.Alike (c.encrypt input output : Action ε Encryption)
      (c'.encrypt input' output') := by
  rw [encrypt, encrypt, hin, hout]
  split
  · exact .pure ⟨hout, rfl⟩
  · apply Encryption.afterCheck_alike (Outcome.Alike.refl _) hout
    rintro _ _ -
    apply (encryptInPlace_alike none hc hin).bind
    rintro e e' ⟨hbuffer, hresult⟩
    refine .pure ⟨?_, hresult⟩
    rw [hresult]
    cases e'.result.isOk with
    | true => exact hbuffer
    | false => exact hout

theorem encryptRegion_alike (hc : c.Alike c') (hin : input.SameLength input')
    (hout : output.SameLength output') (inOffset length outOffset : Nat) :
    Action.Alike Encryption.Alike
      (c.encryptRegion input inOffset length output outOffset : Action ε Encryption)
      (c'.encryptRegion input' inOffset length output' outOffset) := by
  apply Encryption.afterCheck_alike (Region.slice_alike _ hin) hout
  intro source source' hsource
  apply Encryption.afterCheck_alike (Region.slice_alike _ hout) hout
  intro old old' hold
  apply (encrypt_alike hc hsource hold).bind
  rintro e e' ⟨hbuffer, hresult⟩
  exact .pure ⟨Region.length_replace_congr _ hout hbuffer, hresult⟩

end Context

end Encrypting

section Opening

variable {key key' : Bytes}

theorem ImportedKey.ofBlockCipher_alike {size size' : KeySize} (hsize : size = size')
    (f f' : Block → Block) : (ofBlockCipher size f).Alike (ofBlockCipher size' f') where
  size_eq := hsize
  callbacks_eq data data' h := callbacks_ofBlockCipher.trans callbacks_ofBlockCipher.symm
  outcome_eq data data' h := by
    cases hcheck : checkAligned data.length with
    | ok =>
      rw [transform_ofBlockCipher hcheck, transform_ofBlockCipher (by rwa [← h]), h]
    | error e =>
      rw [transform_ofBlockCipher_error hcheck, transform_ofBlockCipher_error (by rwa [← h])]

theorem Outcome.ofExcept_map {ε α β : Type} (f : α → β) (x : Except ε α) :
    ofExcept (x.map f) = (ofExcept x).map f := by
  cases x with
  | ok a => rfl
  | error e => rfl

theorem Key.ofBytes_alike (h : key.SameLength key') :
    (Outcome.ofExcept (ofBytes key)).Alike (fun k k' ↦ k.size = k'.size)
      (.ofExcept (ofBytes key')) := by
  rw [ofBytes, ofBytes, h]
  cases KeySize.ofLength? key'.length with
  | none => exact .error _
  | some s => exact .ok rfl

theorem Provider.receive_alike (provider : Provider) :
    Action.Alike Eq (provider.receive : Action ε Instance) provider.receive := by
  intro p p' hp
  have howner : p.nextInstance provider = p'.nextInstance provider := by
    rw [Process.nextInstance, Process.nextInstance, hp.serial_eq]
  refine ⟨.ok howner, ?_, { hp with serial_eq := congrArg (· + 1) hp.serial_eq }⟩
  exact congrArg (fun i ↦ Trace.blanked [.crossing (.providerReceived i)]) howner

variable [LinkedCipher]

theorem Engine.importedKey_alike (engine : Engine) {k k' : Key} (h : k.size = k'.size) :
    (engine.importedKey k).Alike (engine.importedKey k') := by
  cases engine with
  | software => exact ImportedKey.ofBlockCipher_alike h _ _
  | linked => exact ImportedKey.ofBlockCipher_alike h _ _

theorem Provider.importKey_alike {provider : Provider} (hblind : provider.Blind)
    (h : key.SameLength key') :
    (provider.importKey key).Alike ImportedKey.Alike (provider.importKey key') := by
  cases provider with
  | builtIn engine =>
    refine ⟨rfl, ?_⟩
    simp only [importKey, Engine.importKey_eq, Outcome.ofExcept_map]
    exact (Key.ofBytes_alike h).map fun _ _ hsize ↦ engine.importedKey_alike hsize
  | foreign label onImport => exact hblind key key' h

namespace Context

theorem importKey_alike (owner : Instance) {provider : Provider} (hblind : provider.Blind)
    (h : key.SameLength key') :
    Action.Alike Alike (importKey owner provider key) (importKey owner provider key') := by
  have hasked : (Crossing.importAsked owner key).blanked =
      (Crossing.importAsked owner key').blanked :=
    congrArg (Crossing.importAsked owner) (Bytes.blanked_eq_iff.2 h)
  rw [importKey, importKey, h]
  apply Action.Alike.bind (.finish (Outcome.Alike.refl _))
  rintro _ _ -
  apply Action.Alike.bind (.cross hasked)
  rintro _ _ -
  apply Action.Alike.bind (Reaction.run_alike none (Provider.importKey_alike hblind h))
  intro handle handle' hhandle
  apply Action.Alike.bind (.cross rfl)
  rintro _ _ -
  rw [hhandle.size_eq]
  apply Action.Alike.bind (.diagnose _)
  rintro _ _ -
  exact .pure ⟨rfl, hhandle⟩

theorem ofProvider_alike {provider : Provider} (hblind : provider.Blind)
    (h : key.SameLength key') :
    Action.Alike Alike (ofProvider provider key) (ofProvider provider key') := by
  apply provider.receive_alike.bind
  rintro owner _ rfl
  apply (importKey_alike owner hblind h).atExit
  intro o o' p p' ho hp
  cases ho with
  | ok hc => rfl
  | error e => rfl
  | panicked => rfl

theorem ofConfig_alike (config : Configuration) (h : key.SameLength key') (offset length : Nat) :
    Action.Alike Alike (ofConfig config key offset length)
      (ofConfig config key' offset length) := by
  apply Action.Alike.bind (.finish (Outcome.Alike.refl _))
  rintro _ _ -
  apply Action.Alike.bind (.finish (Region.slice_alike _ h))
  intro data data' hdata
  exact ofProvider_alike trivial hdata

end Context

section Overrides

variable {own own' : List Context}

omit [LinkedCipher] in
theorem teardowns_congr (h : List.Forall₂ Context.Alike own own') :
    teardowns own = teardowns own' := by
  induction h with
  | nil => rfl
  | cons hc _ ih => exact congrArg₂ (· ++ ·) hc.teardown_eq ih

omit [LinkedCipher] in
theorem Context.Alike.getElem? (h : List.Forall₂ Alike own own') (place : Nat) :
    Option.Rel Alike own[place]? own'[place]? := by
  induction h generalizing place with
  | nil => exact .none
  | cons hc _ ih =>
    cases place with
    | zero => exact .some hc
    | succ place => exact ih place

omit [LinkedCipher] in
theorem Context.Alike.eraseIdx (h : List.Forall₂ Alike own own') (place : Nat) :
    List.Forall₂ Alike (own.eraseIdx place) (own'.eraseIdx place) := by
  induction h generalizing place with
  | nil => exact .nil
  | cons hc hrest ih =>
    cases place with
    | zero => exact hrest
    | succ place => exact .cons hc (ih place)

theorem Deed.run_alike {d d' : Deed} (hd : d.Alike d') (h : List.Forall₂ Context.Alike own own') :
    Action.Alike (List.Forall₂ Context.Alike) (d.run own : Action ε (List Context))
      (d'.run own') := by
  cases hd with
  | call c =>
    apply (c.run_alike none).bind
    rintro _ _ -
    exact .pure h
  | opens hblind hlength =>
    apply (Context.ofProvider_alike hblind hlength).orNone.bind
    rintro _ _ (hc | _)
    · exact .pure (.cons hc h)
    · exact .pure h
  | drops place =>
    have hplace := Context.Alike.getElem? h place
    simp only [run]
    generalize own[place]? = c?, own'[place]? = c?' at hplace
    cases hplace with
    | none => exact .pure h
    | some hc =>
      apply Action.Alike.bind (.emit (congrArg Trace.blanked hc.teardown_eq))
      rintro _ _ -
      exact .pure (Context.Alike.eraseIdx h place)

theorem runDeeds_alike {ds ds' : List Deed} (hds : List.Forall₂ Deed.Alike ds ds')
    (h : List.Forall₂ Context.Alike own own') :
    Action.Alike (List.Forall₂ Context.Alike) (runDeeds own ds : Action ε (List Context))
      (runDeeds own' ds') := by
  induction hds generalizing own own' with
  | nil => exact .pure h
  | cons hd _ ih =>
    refine Action.Alike.bind ((Deed.run_alike hd h).atExit ?_) fun _ _ hown ↦ ih hown
    intro o o' p p' ho _
    cases ho with
    | ok _ => rfl
    | error _ => exact congrArg Trace.blanked (teardowns_congr h)
    | panicked => exact congrArg Trace.blanked (teardowns_congr h)

omit [LinkedCipher] in
theorem Answer.run_alike (a : Answer) (h : List.Forall₂ Context.Alike own own') :
    Action.Alike (Option.Rel Context.Alike) (a.run own : Action ε (Option Context))
      (a.run own') := by
  have hgiven : ∀ {left left' : List Context}, List.Forall₂ Context.Alike left left' →
      (teardowns left).blanked = (teardowns left').blanked :=
    fun hleft ↦ congrArg Trace.blanked (teardowns_congr hleft)
  cases a with
  | panic => exact Action.Alike.bind (.emit (hgiven h)) fun _ _ _ ↦ .finish .panicked
  | decline => exact Action.Alike.bind (.emit (hgiven h)) fun _ _ _ ↦ .pure .none
  | hands place =>
    exact Action.Alike.bind (.emit (hgiven (Context.Alike.eraseIdx h place))) fun _ _ _ ↦
      .pure (Context.Alike.getElem? h place)

theorem Override.ask_alike {o : Override} (hblind : o.Blind) (h : key.SameLength key') :
    Action.Alike (Option.Rel Context.Alike) (o.ask key : Action ε (Option Context))
      (o.ask key') := by
  apply Action.Alike.bind .state
  intro p p' hp
  obtain ⟨hdeeds, hanswer⟩ := hblind key key' p'.defaultEngine h
  dsimp only
  rw [hp.engine_eq, hanswer]
  exact (runDeeds_alike hdeeds .nil).bind fun own own' hown ↦ Answer.run_alike _ hown

end Overrides

namespace Factory

theorem askOverride_alike {o : Option Override} (hblind : ∀ o', o = some o' → o'.Blind)
    (h : key.SameLength key') (offset length : Nat) :
    Action.Alike (Option.Rel Context.Alike) (askOverride Override.ask o key offset length)
      (askOverride Override.ask o key' offset length) := by
  cases o with
  | none => exact .pure .none
  | some o =>
    apply Action.Alike.bind (.finish (Region.slice_alike _ h))
    intro data data' hdata
    apply Action.Alike.bind .state
    intro p p' hp
    have hasked : (Crossing.overrideAsked data p'.defaultEngine).blanked =
        (Crossing.overrideAsked data' p'.defaultEngine).blanked :=
      congrArg (Crossing.overrideAsked · p'.defaultEngine) (Bytes.blanked_eq_iff.2 hdata)
    rw [hp.engine_eq]
    apply Action.Alike.bind (.cross hasked)
    rintro _ _ -
    apply ((Override.ask_alike (hblind o rfl) hdata).mapError _).bind
    rintro _ _ (hc | _)
    · exact .pure (.some hc)
    · apply Action.Alike.bind (.diagnose _)
      rintro _ _ -
      exact .pure .none

theorem request_alike (h : key.SameLength key') (offset length : Nat) :
    Action.Alike Context.Alike (request key offset length) (request key' offset length) := by
  apply Action.Alike.bind (.finish (Outcome.Alike.refl _))
  rintro _ _ -
  apply Action.Alike.bind .state
  intro p p' hp
  rw [hp.override_eq, hp.engine_eq]
  apply (askOverride_alike (fun o ho ↦ hp.blind o (hp.override_eq.trans ho)) h offset length).bind
  rintro _ _ (hc | _)
  · exact .pure hc
  · exact Context.ofConfig_alike _ h offset length

end Factory

end Opening

section Handles

namespace Boundary

variable {m m' : Memory} {data data' : Bytes}

theorem view_alike (hm : ∀ name, (m name).SameLength (m' name)) (what : Pointed)
    (pointer : Pointer) (r : Region) :
    (Outcome.ofExcept (view what pointer r m)).Alike Bytes.SameLength
      (.ofExcept (view what pointer r m')) := by
  cases pointer with
  | none => exact .error _
  | some name =>
    rw [view, view]
    cases span r with
    | error e => exact .error e
    | ok stop =>
      refine .ok ?_
      rw [Bytes.SameLength, List.length_take, List.length_take, hm name]

theorem load_alike (what : Pointed) (pointer : Pointer) (r : Region) :
    Action.Alike Bytes.SameLength (load what pointer r) (load what pointer r) := by
  apply Action.Alike.bind .state
  intro p p' hp
  apply Action.Alike.bind (.finish (view_alike hp.lengths what pointer r))
  intro bytes bytes' hbytes
  exact .finish ((Region.slice_alike r hbytes).mapError_ofExcept _)

theorem store_alike (what : Pointed) (pointer : Pointer) (r : Region) (h : data.SameLength data') :
    Action.Alike Eq (store what pointer r data) (store what pointer r data') := by
  apply Action.Alike.bind .state
  intro p p' hp
  apply Action.Alike.bind (.finish (view_alike hp.lengths what pointer r))
  intro bytes bytes' hbytes
  rw [hbytes]
  apply Action.Alike.bind (.finish (Outcome.Alike.refl _))
  rintro _ _ -
  apply Action.Alike.modify
  intro q q' hq
  cases pointer with
  | none => exact hq
  | some name =>
    exact { hq with
      lengths := hq.length_write name (r.length_replace_congr (hq.lengths name) h) }

theorem encryptWith_alike {transform transform' : Bytes → Action Empty Encryption}
    (htransform : ∀ data data', Bytes.SameLength data data' →
      Action.Alike Encryption.Alike (transform data) (transform' data'))
    (input : Pointer) (inOffset length : Int32) (output : Pointer) (outOffset : Int32) :
    Action.Alike Eq (encryptWith transform input inOffset length output outOffset)
      (encryptWith transform' input inOffset length output outOffset) := by
  apply Action.Alike.bind (.finish (Outcome.Alike.refl _))
  rintro source _ rfl
  apply Action.Alike.bind (.finish (Outcome.Alike.refl _))
  rintro target _ rfl
  apply (load_alike .input input source).bind
  intro data data' hdata
  apply ((htransform data data' hdata).mapError _).bind
  rintro e e' ⟨hbuffer, hresult⟩
  rw [hresult]
  apply Action.Alike.bind ((Action.Alike.finish (Outcome.Alike.refl _)).mapError _)
  rintro count _ rfl
  apply (store_alike .output output target hbuffer).bind
  rintro _ _ -
  exact .finish (Outcome.Alike.refl _)

theorem encrypt_alike (h : Handle) (input : Pointer) (inOffset length : Int32) (output : Pointer)
    (outOffset : Int32) :
    Action.Alike Eq (encrypt h input inOffset length output outOffset : Action ε Int32)
      (encrypt h input inOffset length output outOffset) := by
  refine contain_alike .encrypt (Action.Alike.bind .state ?_) rfl
  intro p p' hp
  have hget := hp.handles.get? h
  generalize p.handles.get? h = c?, p'.handles.get? h = c?' at hget
  cases hget with
  | none => exact .finish (.error _)
  | some hc =>
    dsimp only
    rw [hc.owner_eq]
    refine (encryptWith_alike (fun data data' hdata ↦ Context.encryptInPlace_alike _ hc hdata)
      input inOffset length output outOffset).atExit ?_
    intro o o' q q' _ hq
    rw [hq.dropped_eq hc]

section Creation

variable [LinkedCipher] (key : Pointer) (offset length : Int32)

theorem acquire_alike :
    Action.Alike Context.Alike (acquireBy Override.ask key offset length)
      (acquireBy Override.ask key offset length) := by
  refine Action.Alike.bind (.finish (Outcome.Alike.refl _)) ?_
  rintro r _ rfl
  apply Action.Alike.bind (.finish (Outcome.Alike.refl _))
  rintro _ _ -
  apply Action.Alike.bind .state
  intro p p' hp
  apply Action.Alike.bind (.finish (view_alike hp.lengths .key key r))
  intro bytes bytes' hbytes
  exact (Factory.request_alike hbytes r.offset r.length).mapError _

/-- Whether there is a free handle does not depend on what the contexts are. -/
theorem create_alike {p p' : Process} (hp : p.Alike p') :
    Option.Rel (Run.Alike Eq) (create key offset length p : Option (Run ε Handle))
      (create key offset length p') := by
  obtain ⟨houtcome, htrace, hprocess⟩ := acquire_alike key offset length p p' hp
  rw [create, createBy, create, createBy]
  generalize acquireBy Override.ask key offset length p = acquired,
    acquireBy Override.ask key offset length p' = acquired' at houtcome htrace hprocess
  obtain ⟨outcome, t, q⟩ := acquired
  obtain ⟨outcome', t', q'⟩ := acquired'
  dsimp only at houtcome htrace hprocess
  cases houtcome with
  | error e => exact .some (contained_alike .create ⟨.error e, htrace, hprocess⟩ rfl)
  | panicked => exact .some (contained_alike .create ⟨.panicked, htrace, hprocess⟩ rfl)
  | ok hc =>
    have hins := hprocess.handles.insert? hc
    simp only [Run.andThen?, issue?]
    generalize q.handles.insert? _ = issued, q'.handles.insert? _ = issued' at hins
    cases hins with
    | none => exact .none
    | some h =>
      obtain ⟨hhandle, hregistry⟩ := h
      refine .some (contained_alike .create ⟨.ok hhandle, ?_, ?_⟩ rfl)
      · simp only [Run.after, Trace.blanked_append, htrace, hhandle]
      · exact { hprocess with handles := hregistry }

end Creation

end Boundary

end Handles

end AesEcb
