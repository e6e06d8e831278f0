import SchemaRegistry.Proofs.Concatenation
import SchemaRegistry.Proofs.Piecewise

/-!
# Schemas in several files

It does not matter how descriptor sets are spread over the files of a load, nor where its sources
stand among them: `load_split`.
-/

namespace SchemaRegistry

namespace Action

/-! ## Command lines -/

variable {ε δ α β : Type}

/-- However it ends, the action runs no command. -/
def Quiet (a : Action ε α) : Prop := ∀ p : Progress, (a.outcome p).2.commands = p.commands

namespace Quiet

theorem pure (x : α) : Quiet (pure x : Action ε α) := fun _ => rfl

/-- Quiet actions in a row are quiet. -/
theorem bind {a : Action ε α} {f : α → Action ε β} (ha : Quiet a) (hf : ∀ x, Quiet (f x)) :
    Quiet (a >>= f) := by
  intro p
  rw [outcome_bind, ← ha p]
  cases a.outcome p with
  | mk result q =>
    cases result with
    | ok x => exact hf x q
    | error e => rfl

theorem adaptExcept {a : Action ε α} (h : Quiet a) (f : ε → δ) :
    Quiet (EStateM.adaptExcept f a) := by
  intro p
  rw [outcome_adaptExcept]
  exact h p

theorem forM {γ : Type} {f : γ → Action ε Unit} (h : ∀ x, Quiet (f x)) (xs : List γ) :
    Quiet (xs.forM f) := by
  induction xs with
  | nil => exact pure ()
  | cons x xs ih => exact (h x).bind fun _ => ih

end Quiet

end Action

namespace Progress

theorem noteAll_commands (p : Progress) (es : List Event) :
    (p.noteAll es).commands = p.commands := by
  induction es generalizing p with
  | nil => rfl
  | cons e es ih => exact ih (p.note e)

/-- An import runs no commands. -/
theorem perform_commands (p : Progress) (v : Visit) : (v.perform p).commands = p.commands := by
  cases v with
  | field d => exact noteAll_commands p d.events
  | enum path d => rfl
  | message path d => rfl
  | file d => rfl

theorem resolve_commands (p : Progress) : p.resolve.commands = p.commands := by
  unfold resolve
  generalize p.registry = r
  induction r.messages.toList generalizing p with
  | nil => rfl
  | cons ref refs ih =>
    rw [List.foldl_cons, ih]
    unfold Registry.resolveAt
    split
    · rfl
    · exact noteAll_commands _ _

end Progress

namespace Load

open SchemaRegistry.Action (Same Quiet)

theorem quiet_importFiles (files : List FileDecl) : Quiet (Import.importFiles files) := by
  intro p
  rw [Import.importFiles_follows]
  dsimp only
  induction Walk.reached (files.flatMap FileDecl.walk) generalizing p with
  | nil => rfl
  | cons v vs ih => rw [List.foldl_cons, ih, Progress.perform_commands]

/-- Nor does reading an encoded set. -/
theorem quiet_readSetWith (read : String → Except SystemError (List UInt8)) (path : String) :
    Quiet (readSetWith read path) := by
  intro p
  unfold readSetWith
  rw [Action.outcome_bind, Action.outcome_ofExcept]
  cases decodeSet path (read path) <;> rfl

theorem quiet_loadSet (host : Host) (path : String) : Quiet (loadSet host path) :=
  ((quiet_readSetWith host.read path).adaptExcept _).bind fun files =>
    (quiet_importFiles files).adaptExcept _

/-- The command line is run, whatever becomes of it. -/
theorem commands_runCompiler (host : Host) (line : List String) (p : Progress) :
    ((runCompiler host line).outcome p).2.commands = p.commands.push line := by
  unfold runCompiler
  rw [Action.outcome_bind, Action.outcome_modify]
  dsimp only
  cases host.compiler with
  | unstartable cause => rfl
  | failing stderr => rfl
  | writing output => exact quiet_readSetWith _ _ _

/-- A line is free of NUL characters if and only if each of its words is. -/
theorem not_any_hasNul {line : List String} :
    ¬ line.any Path.hasNul = true ↔ ∀ word ∈ line, Path.hasNul word = false := by
  simp

/-- One command line is run, unless there is a NUL character in it. -/
theorem commands_compileSet (host : Host) (sources includeDirs : List String) (p : Progress) :
    let line := command host sources includeDirs
    ((compileSet host sources includeDirs).outcome p).2.commands
      = if line.any Path.hasNul then p.commands else p.commands.push line := by
  intro line
  unfold compileSet
  rw [Action.outcome_bind, Action.outcome_modify]
  dsimp only
  split
  · rfl
  · exact commands_runCompiler host line _

/-- Sources are compiled with one command, and only if there are any. -/
theorem commands_loadSources (host : Host) (sources includeDirs : List String) (p : Progress) :
    let line := command host sources includeDirs
    ((loadSources host sources includeDirs).outcome p).2.commands
      = if line.any Path.hasNul then p.commands else p.commands.push line := by
  intro line
  have h := commands_compileSet host sources includeDirs p
  unfold loadSources
  rw [Action.outcome_bind, Action.outcome_adaptExcept]
  cases hout : (compileSet host sources includeDirs).outcome p with
  | mk result q =>
    rw [hout] at h
    cases result with
    | error e => exact h
    | ok files => exact ((quiet_importFiles files).adaptExcept _ q).trans h

/-- The compiler is run once if there are sources, all files before them have been imported and no
word of the command line has a NUL character in it. -/
theorem commands_loadInputs (host : Host) (inputs includeDirs : List String) (p : Progress) :
    let sets := (inputs.filter fun i => !isSource i).forM (loadSet host)
    let line := command host (inputs.filter isSource) includeDirs
    ((loadInputs host inputs includeDirs).outcome p).2.commands
      = if inputs.filter isSource ≠ [] ∧ (sets.outcome p).1 = .ok ()
            ∧ ∀ word ∈ line, Path.hasNul word = false then
          p.commands.push line
        else p.commands := by
  intro sets line
  -- Until the sources are compiled no command has been run.
  have hquiet : (sets.outcome p).2.commands = p.commands :=
    Quiet.forM (quiet_loadSet host) _ p
  unfold loadInputs
  rw [Action.outcome_bind, ← hquiet, show _ = sets from rfl]
  cases hsets : sets.outcome p with
  | mk result q =>
    cases result with
    | error e => exact (if_neg fun h => nomatch h.2.1).symm
    | ok u =>
      dsimp only
      by_cases hsources : inputs.filter isSource ≠ []
      · rw [if_pos hsources, commands_loadSources, ← ite_not]
        exact if_congr (not_any_hasNul.trans ⟨fun h => ⟨hsources, rfl, h⟩, fun h => h.2.2⟩) rfl rfl
      · rw [if_neg hsources]
        exact (if_neg fun h => hsources h.1).symm

/-- A load runs the commands of its inputs and no others. -/
theorem commands_loadRegistry (host : Host) (inputs includeDirs : List String) (resolve : Bool)
    (p : Progress) :
    ((loadRegistry host inputs includeDirs resolve).outcome p).2.commands
      = ((loadInputs host inputs includeDirs).outcome p).2.commands := by
  rw [loadRegistry_eq, Action.outcome_bind]
  cases (loadInputs host inputs includeDirs).outcome p with
  | mk result q =>
    cases result with
    | error e => rfl
    | ok u =>
      cases resolve with
      | false => rfl
      | true => exact Progress.resolve_commands q

end Load

/-! ## Loads of one split and another -/

namespace Load

/-- Resolving does not fail. -/
theorem loadSets_result (sets : List (Except LoadError (List FileDecl))) (resolve : Bool)
    (p : Progress) : ((loadSets sets resolve).outcome p).1 = ((importSets sets).outcome p).1 := by
  unfold loadSets
  rw [Action.outcome_bind]
  cases (importSets sets).outcome p with
  | mk result q =>
    cases result with
    | error e => rfl
    | ok u => cases resolve <;> rfl

/-- The sources may as well stand behind the sets. -/
theorem loadRegistry_sorted (host : Host) (inputs includeDirs : List String) (resolve : Bool) :
    loadRegistry host inputs includeDirs resolve
      = loadRegistry host ((inputs.filter fun i => !isSource i) ++ inputs.filter isSource)
          includeDirs resolve := by
  -- A load looks at the sets and the sources apart, and sorting changes neither.
  have hsets : ((inputs.filter fun i => !isSource i) ++ inputs.filter isSource).filter
      (fun i => !isSource i) = inputs.filter fun i => !isSource i := by
    simp [List.filter_append, List.filter_filter]
  have hsources : ((inputs.filter fun i => !isSource i) ++ inputs.filter isSource).filter isSource
      = inputs.filter isSource := by
    simp [List.filter_append, List.filter_filter]
  unfold loadRegistry
  rw [hsets, hsources]

/-- A set that cannot be read ends the load when those before it have been imported. -/
theorem importSets_error {front : List (Except LoadError (List FileDecl))} {p : Progress}
    (h : ((importSets front).outcome p).1 = .ok ()) (e : LoadError) :
    ((importSets (front ++ [.error e])).outcome p).1 = .error (.load e) := by
  rw [importSets_append, Action.outcome_bind]
  cases hout : (importSets front).outcome p with
  | mk result q =>
    rw [hout] at h
    cases h
    rfl

/-- Files with a descriptor set each. -/
def HoldSets (host : Host) (parts : List (String × List UInt8)) : Prop :=
  ∀ part ∈ parts, host.Holds part.1 part.2 ∧ ∃ files, Wire.decodeFileSet part.2 = .ok files

/-- Files that hold sets come to what they were decoded to, whatever inputs are behind them. -/
theorem HoldSets.decoded {host : Host} {parts : List (String × List UInt8)}
    (h : HoldSets host parts) : ∃ sets : List (List FileDecl),
      (parts.map Prod.snd).map Wire.decodeFileSet = sets.map .ok
        ∧ ∀ inputs includeDirs, inputSets host (parts.map Prod.fst ++ inputs) includeDirs
          = sets.map .ok ++ inputSets host inputs includeDirs := by
  induction parts with
  | nil => exact ⟨[], rfl, fun inputs includeDirs => rfl⟩
  | cons part parts ih =>
    obtain ⟨⟨hholds, files, hfiles⟩, hparts⟩ := List.forall_mem_cons.mp h
    obtain ⟨sets, hbytes, hinputs⟩ := ih hparts
    refine ⟨files :: sets, ?_, fun inputs includeDirs => ?_⟩
    · rw [List.map_cons, List.map_cons, hbytes, hfiles, List.map_cons]
    -- The first file adds its set in front of those of the others.
    · have hset : ∀ i ∈ [part.1], isSource i = false := List.forall_mem_singleton.mpr hholds.set
      rw [List.map_cons, List.cons_append, ← List.singleton_append, inputSets_append hset, hinputs,
        List.map_singleton, decodeSet_of_holds hholds, hfiles]
      rfl

/-- The ending is that of a schema source. -/
theorem isSource_iff (path : String) :
    isSource path = true ↔ ∃ stem ending, path.toList = stem ++ ending
      ∧ ending.map Char.toLower = ".proto".toList := by
  unfold isSource
  rw [List.isSuffixOf_iff_suffix]
  constructor
  · rintro ⟨lower, hlower⟩
    obtain ⟨stem, ending, hpath, -, hending⟩ := List.map_eq_append_iff.mp hlower.symm
    exact ⟨stem, ending, hpath, hending⟩
  · rintro ⟨stem, ending, hpath, hending⟩
    exact ⟨stem.map Char.toLower, by rw [hpath, List.map_append, hending]; rfl⟩

section Joined

variable {host one : Host} {parts : List (String × List UInt8)} {whole : String}
  {includeDirs : List String} {resolve : Bool}

/-- Sets in a file each, and all of them in one file. -/
theorem sameEnd_joined (hparts : HoldSets host parts)
    (hwhole : one.Holds whole (parts.map Prod.snd).flatten) :
    SameEnd ((loadRegistry host (parts.map Prod.fst) includeDirs resolve).outcome .empty)
      ((loadRegistry one [whole] includeDirs resolve).outcome .empty) := by
  obtain ⟨sets, hbytes, hinputs⟩ := hparts.decoded
  have hdecode : Wire.decodeFileSet (parts.map Prod.snd).flatten = .ok sets.flatten := by
    have h := Wire.decodeFileSet_flatten hbytes []
    rw [List.append_nil, Wire.decodeFileSet_nil] at h
    exact h.trans (congrArg Except.ok (List.append_nil _))
  have hsplit : inputSets host (parts.map Prod.fst) includeDirs = sets.map .ok := by
    have h := hinputs [] includeDirs
    rwa [List.append_nil, inputSets_nil, List.append_nil] at h
  have hjoined : inputSets one [whole] includeDirs = [sets.flatten].map .ok := by
    rw [inputSets_single hwhole, hdecode]
    rfl
  -- It is the same to import the sets one by one, or all their files as one set.
  have hsame : loadSets (sets.map .ok) resolve = loadSets ([sets.flatten].map .ok) resolve := by
    unfold loadSets
    rw [importSets_ok, importSets_ok, List.flatten_singleton]
  have hleft := sameEnd_loadSets host (parts.map Prod.fst) includeDirs resolve
  have hright := sameEnd_loadSets one [whole] includeDirs resolve
  rw [hsplit, hsame] at hleft
  rw [hjoined] at hright
  exact hleft.trans hright.symm

variable {last : String} {bytes : List UInt8} {cause : Wire.WireError}

/-- A corrupt file behind files that load. -/
theorem fault_behind (hparts : HoldSets host parts) (hlast : host.Holds last bytes)
    (hcause : Wire.decodeFileSet bytes = .error cause)
    (hok : ((loadRegistry host (parts.map Prod.fst) includeDirs resolve).outcome .empty).1
      = .ok ()) :
    ((loadRegistry host (parts.map Prod.fst ++ [last]) includeDirs resolve).outcome .empty).1
      = .error (.load (.undecodable last cause)) := by
  obtain ⟨sets, -, hinputs⟩ := hparts.decoded
  -- Up to the last file the load succeeds, so that the fault of that one is what ends it.
  have hfront : ((importSets (sets.map .ok)).outcome .empty).1 = .ok () := by
    have h := hinputs [] includeDirs
    rw [List.append_nil, inputSets_nil, List.append_nil] at h
    rw [← h, ← loadSets_result _ resolve, ← (sameEnd_loadSets host _ includeDirs resolve).result]
    exact hok
  have hsplit : inputSets host (parts.map Prod.fst ++ [last]) includeDirs
      = sets.map .ok ++ [.error (.undecodable last cause)] := by
    rw [hinputs, inputSets_single hlast, hcause]
    rfl
  rw [(sameEnd_loadSets host _ includeDirs resolve).result, hsplit, loadSets_result]
  exact importSets_error hfront _

/-- The same bytes behind those of the files, in one file. -/
theorem fault_joined (hparts : HoldSets host parts)
    (hcause : Wire.decodeFileSet bytes = .error cause)
    (hwhole : one.Holds whole ((parts.map Prod.snd).flatten ++ bytes)) :
    ((loadRegistry one [whole] includeDirs resolve).outcome .empty).1
      = .error (.load (.undecodable whole cause)) := by
  obtain ⟨sets, hbytes, -⟩ := hparts.decoded
  have hdecode : Wire.decodeFileSet ((parts.map Prod.snd).flatten ++ bytes) = .error cause := by
    rw [Wire.decodeFileSet_flatten hbytes, hcause]
    rfl
  rw [(sameEnd_loadSets one _ includeDirs resolve).result, inputSets_single hwhole, hdecode,
    loadSets_result]
  rfl

end Joined

/--
**How a schema is split over the inputs does not matter.**

Let `parts` be files with a descriptor set each. A load of them in this order ends like the load of
a single file with all their bytes one after another: with the same registry or with the same error.
If one more file is corrupt, and the files before it load, then the loads with it end with the same
fault in decoding.

Where the sources stand among the inputs is of no matter either. The load of any inputs ends as if
all sets were imported in order, and at last the one set compiled from all sources. The compiler is
run once if there are sources, all sets before have been read and imported, and no word of its
command line has a NUL character in it; otherwise it is not run at all. A source is told by the
ending of its path, in any mixture of cases.
-/
theorem load_split (host one : Host) (includeDirs : List String) (resolve : Bool) :
    let load := fun (host : Host) (inputs : List String) =>
      (loadRegistry host inputs includeDirs resolve).outcome .empty
    (∀ parts whole, HoldSets host parts → one.Holds whole (parts.map Prod.snd).flatten →
        SameEnd (load host (parts.map Prod.fst)) (load one [whole]))
      ∧ (∀ parts last bytes whole cause, HoldSets host parts → host.Holds last bytes →
        Wire.decodeFileSet bytes = .error cause →
        (load host (parts.map Prod.fst)).1 = .ok () →
        one.Holds whole ((parts.map Prod.snd).flatten ++ bytes) →
          (load host (parts.map Prod.fst ++ [last])).1 = .error (.load (.undecodable last cause))
            ∧ (load one [whole]).1 = .error (.load (.undecodable whole cause)))
      ∧ (∀ inputs,
        let setFiles := inputs.filter fun i => !isSource i
        let sources := inputs.filter isSource
        let line := command host sources includeDirs
        load host inputs = load host (setFiles ++ sources)
          ∧ SameEnd (load host inputs)
            ((loadSets (inputSets host inputs includeDirs) resolve).outcome .empty)
          ∧ (load host inputs).2.commands.toList =
            if sources ≠ [] ∧ ((importSets (setFiles.map fun i =>
                  decodeSet i (host.read i))).outcome .empty).1 = .ok ()
                ∧ ∀ word ∈ line, Path.hasNul word = false then
              [line]
            else [])
      ∧ ∀ path, isSource path = true ↔ ∃ stem ending, path.toList = stem ++ ending
        ∧ ending.map Char.toLower = ".proto".toList := by
  intro load
  refine ⟨fun parts whole => sameEnd_joined,
    fun parts last bytes whole cause hparts hlast hcause hok hwhole =>
      ⟨fault_behind hparts hlast hcause hok, fault_joined hparts hcause hwhole⟩,
    fun inputs => ?_, isSource_iff⟩
  intro setFiles sources line
  refine ⟨?_, sameEnd_loadSets host inputs includeDirs resolve, ?_⟩
  -- The order of the inputs, what they stand for, and the command.
  · show (loadRegistry host inputs includeDirs resolve).outcome .empty = _
    rw [loadRegistry_sorted]
  · rw [commands_loadRegistry, commands_loadInputs,
      (same_loadSets host setFiles .empty .empty (.refl _)).1]
    split <;> rfl

/-- The set with a message `M` whose field refers to a message `.N`. -/
def referringBytes : List UInt8 :=
  [0x0a, 16, 0x22, 14, 0x0a, 1, 0x4d, 0x12, 9, 0x0a, 1, 0x66, 0x28, 11, 0x32, 2, 0x2e, 0x4e]

/-- The set with the message that is referred to. -/
def referredBytes : List UInt8 := [0x0a, 5, 0x22, 3, 0x0a, 1, 0x4e]

/-- A host with the two sets in a file each and in one file, and with a corrupt file alone and
behind both. -/
def splitHost : Host where
  workingDirectory := "/work"
  read
    | "M.bin" => .ok referringBytes
    | "N.bin" => .ok referredBytes
    | "MN.bin" => .ok (referringBytes ++ referredBytes)
    | "bad.bin" => .ok [0x0a]
    | "all.bin" => .ok (referringBytes ++ referredBytes ++ [0x0a])
    | _ => .error .notFound
  writeFault := fun _ => none
  compiler := .missing
  scratchDirectory := "/tmp"

theorem load_split_splitHost :
    let load := fun inputs => (loadRegistry splitHost inputs [] true).outcome .empty
    SameEnd (load ["M.bin", "N.bin"]) (load ["MN.bin"])
      ∧ (load ["M.bin", "N.bin", "bad.bin"]).1 = .error (.load (.undecodable "bad.bin" .corrupt))
      ∧ (load ["all.bin"]).1 = .error (.load (.undecodable "all.bin" .corrupt)) := by
  intro load
  -- A reply that is no error is one of files.
  have hset {bytes : List UInt8} (h : (Wire.decodeFileSet bytes).isOk = true) :
      ∃ files, Wire.decodeFileSet bytes = .ok files := by
    cases hbytes : Wire.decodeFileSet bytes with
    | error e => rw [hbytes] at h; cases h
    | ok files => exact ⟨files, rfl⟩
  -- Both parts hold one set each.
  have hparts : HoldSets splitHost [("M.bin", referringBytes), ("N.bin", referredBytes)] := by
    intro part hpart
    rcases List.mem_pair.mp hpart with rfl | rfl
    · exact ⟨⟨by decide, by decide, rfl⟩, hset (by decide +kernel)⟩
    · exact ⟨⟨by decide, by decide, rfl⟩, hset (by decide +kernel)⟩
  obtain ⟨hsplit, hfault, -⟩ := load_split splitHost splitHost [] true
  refine ⟨hsplit _ "MN.bin" hparts ⟨by decide, by decide, rfl⟩, ?_⟩
  exact hfault _ "bad.bin" [0x0a] "all.bin" .corrupt hparts ⟨by decide, by decide, rfl⟩
    (by decide +kernel) (by decide +kernel) ⟨by decide, by decide, rfl⟩

end Load

end SchemaRegistry
