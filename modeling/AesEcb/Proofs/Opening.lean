import AesEcb.Factory
import AesEcb.Proofs.Calls
import AesEcb.Proofs.Engines

/-!
# Opening a context, step by step

A provider is received, asked to import the key, and either the key is received or the provider
is destroyed.  It is not even asked for a key of a length that no cipher has.
-/

namespace AesEcb

def Process.nextInstance (p : Process) (provider : Provider) : Instance where
  serial := p.nextSerial
  name := provider.name
  builtIn := provider.isBuiltIn

/-- What the provider does with the key, if it is asked to import it. -/
def Provider.reactionTo [LinkedCipher] (provider : Provider) (key : Bytes) :
    Reaction ImportedKey :=
  match KeySize.ofLength key.length with
  | .error e => { outcome := .error e }
  | .ok _ => provider.importKey key

namespace Context

def asking (owner : Instance) (key : Bytes) : Trace :=
  match KeySize.ofLength key.length with
  | .error _ => []
  | .ok _ => [.crossing (.importAsked owner key)]

def settlement (owner : Instance) : Outcome CipherError ImportedKey → Trace
  | .ok k => [.crossing (.keyReceived owner), .diagnostic (.contextOpened owner.name k.size)]
  | _ => [.crossing (.providerDestroyed owner)]

theorem ofProvider_run [LinkedCipher] (provider : Provider) (key : Bytes) (p : Process) :
    ofProvider provider key p =
      let owner := p.nextInstance provider
      let reaction := provider.reactionTo key
      let called := (runCallbacks none reaction.callbacks : Action CipherError Unit)
        { p with nextSerial := p.nextSerial + 1 }
      ⟨reaction.outcome.map (Context.mk owner),
        [.crossing (.providerReceived owner)] ++ asking owner key ++ called.trace ++
          settlement owner reaction.outcome,
        called.process⟩ := by
  simp only [ofProvider, Provider.receive, Action.bind_run, Action.state_run, Run.andThen_ok,
    Run.after_nil, Action.modify_run, Action.cross, Action.emit_run, Action.pure_run,
    Run.after_mk, List.append_nil, Action.atExit, importKey, Run.ofExcept_andThen,
    Provider.reactionTo, asking]
  cases KeySize.ofLength key.length with
  | error e => rfl
  | ok size =>
    have hok := (runCallbacks_ok (ε := CipherError) none (provider.importKey key).callbacks
      { p with nextSerial := p.nextSerial + 1 }).1
    simp only [Reaction.run, Action.bind_run, Run.andThen_of_ok hok, Action.finish_run]
    cases (provider.importKey key).outcome with
    | ok k => simp [Outcome.map, settlement, Action.diagnose, Run.followedBy, Outcome.isOk,
        Process.nextInstance]
    | error e => simp [Outcome.map, settlement, Run.andThen, Run.after, Run.followedBy,
        Outcome.isOk, Process.nextInstance]
    | panicked => simp [Outcome.map, settlement, Run.andThen, Run.after, Run.followedBy,
        Outcome.isOk, Process.nextInstance]

theorem ofProvider_builtIn_outcome [LinkedCipher] (engine : Engine) {key : Bytes} {k : Key}
    (hk : Key.ofBytes key = .ok k) (p : Process) :
    (ofProvider (.builtIn engine) key p).outcome =
      .ok ⟨p.nextInstance (.builtIn engine), engine.importedKey k⟩ := by
  have hsize := Key.ofLength_of_ofBytes hk
  rw [ofProvider_run]
  simp only [Provider.reactionTo, hsize, Provider.importKey_builtIn_of_ok engine hk, Outcome.map]

end Context

end AesEcb
