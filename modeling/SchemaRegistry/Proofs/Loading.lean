import SchemaRegistry.Load
import SchemaRegistry.Proofs.Resolution

/-!
# Loads from inputs

Reading sets and running the compiler add events and command lines, and only the imports touch the
store and the registry. So every load leads from a fitting registry to a fitting one, at whatever
input it stops (`leads_loadInputs`). The resolution that may be asked for at the end is all that
distinguishes the two kinds of load (`loadRegistry_eq`).
-/

namespace SchemaRegistry

namespace Action

variable {ε δ α β : Type}

/-- However it ends, the action leads from any progress to one that it extends. -/
def Leads (a : Action ε α) : Prop := ∀ p : Progress, p.Leads (a.outcome p).2

theorem leads_pure (x : α) : Leads (pure x : Action ε α) := fun p => .refl p

theorem leads_ofExcept (e : Except ε α) : Leads (ofExcept e) := by
  intro p
  rw [outcome_ofExcept]
  exact .refl p

theorem leads_modify {f : Progress → Progress} (h : ∀ p : Progress, p.Leads (f p)) :
    Leads (modify f : Action ε Unit) := by
  intro p
  rw [outcome_modify]
  exact h p

/-- Actions one after another lead as far as both, or as far as the first if it fails. -/
theorem Leads.bind {a : Action ε α} {f : α → Action ε β} (ha : Leads a) (hf : ∀ x, Leads (f x)) :
    Leads (a >>= f) := by
  intro p
  rw [outcome_bind]
  have h := ha p
  cases hout : a.outcome p with
  | mk result q =>
    rw [hout] at h
    cases result with
    | ok x => exact h.trans (hf x q)
    | error e => exact h

theorem Leads.adaptExcept {a : Action ε α} (ha : Leads a) (f : ε → δ) :
    Leads (EStateM.adaptExcept f a) := by
  intro p
  rw [outcome_adaptExcept]
  exact ha p

/-- A run of actions leads to where it stops. -/
theorem leads_forM {γ : Type} {f : γ → Action ε Unit} (hf : ∀ x, Leads (f x)) (xs : List γ) :
    Leads (xs.forM f) := by
  induction xs with
  | nil => exact leads_pure ()
  | cons x xs ih => exact (hf x).bind fun _ => ih

end Action

namespace Load

open SchemaRegistry.Action

theorem leads_note {ε : Type} (e : Event) : Leads (modify (·.note e) : Action ε Unit) :=
  leads_modify fun _ => .of_same rfl rfl

theorem leads_command {ε : Type} (line : List String) :
    Leads (modify fun p => { p with commands := p.commands.push line } : Action ε Unit) :=
  leads_modify fun _ => .of_same rfl rfl

theorem leads_readSetWith (read : String → Except SystemError (List UInt8)) (path : String) :
    Leads (readSetWith read path) :=
  (leads_ofExcept _).bind fun _ => (leads_note _).bind fun _ => leads_pure _

/-- The compiler changes neither store nor registry. -/
theorem leads_runCompiler (host : Host) (line : List String) : Leads (runCompiler host line) := by
  refine (leads_command line).bind fun _ => ?_
  cases host.compiler with
  | unstartable cause => exact leads_ofExcept (.error _)
  | failing stderr => exact leads_ofExcept (.error _)
  | writing output => exact leads_readSetWith _ _

/-- A compilation does not change them either, whether the compiler is run or not. -/
theorem leads_compileSet (host : Host) (sources includeDirs : List String) :
    Leads (compileSet host sources includeDirs) := by
  refine (leads_note _).bind fun _ => ?_
  split
  · exact leads_ofExcept (.error _)
  · exact leads_runCompiler host _

theorem leads_importFiles (files : List FileDecl) : Leads (Import.importFiles files) :=
  (Import.importFiles_follows files).leads

theorem leads_loadSet (host : Host) (path : String) : Leads (loadSet host path) :=
  ((leads_readSetWith host.read path).adaptExcept _).bind fun files =>
    (leads_importFiles files).adaptExcept _

theorem leads_loadSources (host : Host) (sources includeDirs : List String) :
    Leads (loadSources host sources includeDirs) :=
  ((leads_compileSet host sources includeDirs).adaptExcept _).bind fun files =>
    (leads_importFiles files).adaptExcept _

/-- The load without the resolution at its end. -/
def loadInputs (host : Host) (inputs includeDirs : List String) : Action LoadFailure Unit := do
  (inputs.filter fun i => !isSource i).forM (loadSet host)
  if inputs.filter isSource ≠ [] then loadSources host (inputs.filter isSource) includeDirs

/-- **A load leads to a registry that fits**, at whatever input it stops. -/
theorem leads_loadInputs (host : Host) (inputs includeDirs : List String) :
    Leads (loadInputs host inputs includeDirs) := by
  refine (leads_forM (leads_loadSet host) _).bind fun _ => ?_
  split
  · exact leads_loadSources host _ includeDirs
  · exact leads_pure ()

/-- A load is that of its inputs, and then a pass if one is asked for. -/
theorem loadRegistry_eq (host : Host) (inputs includeDirs : List String) (resolve : Bool) :
    loadRegistry host inputs includeDirs resolve = (do
      loadInputs host inputs includeDirs
      if resolve then modify Progress.resolve) := by
  unfold loadRegistry loadInputs
  simp only [bind_assoc]
  -- With sources among the inputs and without.
  split <;> simp

end Load

end SchemaRegistry
