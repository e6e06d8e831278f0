import SchemaRegistry.Program
import SchemaRegistry.Proofs.Dangling
import SchemaRegistry.Proofs.Inputs
import SchemaRegistry.Proofs.Unseen

/-!
# Strict runs

A strict run ends with status 1 if some field in the inputs refers to a type that none of them
declares, and with 0 if there is no such field. `strict_run` says so for all inputs that load, in
terms of the declared trees alone, together with what is written: one line for each of these fields,
and the summary in either case.
-/

namespace SchemaRegistry

/-! ## Loads that succeed -/

/-- What is reported of a load that succeeds is what its inputs declare. -/
theorem Load.reports_of_ok {host : Host} {inputs includeDirs : List String} {resolve : Bool}
    (hok : ((loadRegistry host inputs includeDirs resolve).outcome .empty).1 = .ok ()) :
    let p := ((loadRegistry host inputs includeDirs resolve).outcome .empty).2
    ∃ files, Declares host inputs includeDirs files
      ∧ p.registry.dangling p.store = .ok (FileDecl.dangling files)
      ∧ ∃ summary, Summary.render p.registry p.store = .ok summary := by
  have hbrings := loadInputs_brings host inputs includeDirs .empty
  have hfits := (leads_loadInputs host inputs includeDirs .empty).fits (Registry.fits_empty _)
  rw [loadRegistry_eq, Action.outcome_bind] at hok ⊢
  cases hout : (loadInputs host inputs includeDirs).outcome .empty with
  | mk result q =>
    rw [hout] at hok hbrings hfits
    cases result with
    | error e => cases hok
    | ok u =>
      obtain ⟨sets, hsets, hverdict, halike⟩ := hbrings rfl
      rw [← Progress.after_importFiles hverdict] at halike
      obtain ⟨summary, hsummary⟩ := (Progress.tells_importFiles hverdict).exists_render
        (Progress.fits_after _)
      have hdangling := Progress.dangling_importFiles hverdict
      dsimp only at hdangling
      rw [← halike.registry, ← halike.store_eq] at hdangling hsummary
      refine ⟨sets.flatten, ⟨sets, hsets, rfl⟩, ?_⟩
      -- Nothing of this changes if the load is resolved at its end.
      cases resolve with
      | false => exact ⟨hdangling, summary, hsummary⟩
      | true =>
        exact ⟨(Progress.dangling_resolve hfits).trans hdangling, summary,
          (Progress.render_resolve hfits).trans hsummary⟩

/-! ## Runs -/

namespace Program

open CommandLine (Settings)

/-- If the summary is to go into a file, the file can be written. -/
def Writable (host : Host) (out : Option String) : Prop :=
  ∀ path, out = some path → path ≠ "" →
    Path.hasNul (Path.tidy path) = false ∧ host.writeFault (Path.tidy path) = none

/-- The summary is on the standard output, or it is in the file asked for and the standard output
has a note about that. -/
structure Emits (out : Option String) (size : Nat) (summary stdout : String)
    (written : Option (String × String)) : Prop where
  toStdout : out = none ∨ out = some "" → stdout = summary ∧ written = none
  toFile : ∀ path, out = some path → path ≠ "" → written = some (Path.tidy path, summary)
    ∧ stdout = s!"Wrote summary of {size} type(s) to " ++ path ++ "\n"

/-- If the output can be written, everything is emitted. -/
theorem emit_of_writable {host : Host} {out : Option String} (h : Writable host out) (size : Nat)
    (summary : String) :
    ∃ e, emit host out size summary = .ok e ∧ Emits out size summary e.stdout e.written := by
  cases out with
  | none => exact ⟨_, rfl, fun _ => ⟨rfl, rfl⟩, nofun⟩
  | some path =>
    -- An empty path counts as none.
    by_cases hpath : path = ""
    · subst hpath
      exact ⟨_, rfl, fun _ => ⟨rfl, rfl⟩, fun path heq hne => absurd (Option.some.inj heq).symm hne⟩
    · obtain ⟨hnul, hfault⟩ := h path rfl hpath
      refine ⟨⟨s!"Wrote summary of {size} type(s) to " ++ path ++ "\n",
        some (Path.tidy path, summary)⟩, ?_, fun hout => ?_, fun path' heq _ => ?_⟩
      -- The output goes to the file, as neither its path nor the system stands in the way.
      · unfold emit
        split
        · rename_i heq; cases heq
        · rename_i heq; exact absurd (Option.some.inj heq) hpath
        · rename_i heq
          cases heq
          dsimp only
          rw [hnul, if_neg Bool.false_ne_true, hfault]
      · rcases hout with hout | hout
        · cases hout
        · exact absurd (Option.some.inj hout) hpath
      · cases heq
        exact ⟨rfl, rfl⟩

/-- The load that a run makes. -/
def load (host : Host) (settings : Settings) : Except LoadFailure Unit × Progress :=
  (Load.loadRegistry host settings.inputs settings.includeDirs settings.resolve).outcome .empty

/-- A load that succeeds is reported on. -/
theorem run_of_ok {host : Host} {settings : Settings} (h : (load host settings).1 = .ok ()) :
    run host settings = report host settings (load host settings).2 := by
  have hload : load host settings = (.ok (), (load host settings).2) := Prod.ext h rfl
  generalize (load host settings).2 = p at hload
  unfold load at hload
  unfold run
  dsimp only
  rw [hload]

/-- A failure that is reported ends the run with a fatal message and nothing on standard output. -/
theorem run_of_error {host : Host} {settings : Settings} {failure : LoadFailure} {message : String}
    (h : (load host settings).1 = .error failure) (hv : verdict failure = .ok message) :
    run host settings = ⟨.ok 1, "", logText settings.verbose (load host settings).2.events.toList
      ++ "FATAL: " ++ message ++ "\n", none, (load host settings).2.commands.toList⟩ := by
  have hload : load host settings = (.error failure, (load host settings).2) := Prod.ext h rfl
  generalize (load host settings).2 = p at hload ⊢
  unfold load at hload
  unfold run
  dsimp only
  rw [hload]
  dsimp only
  rw [hv]

/-- The line that reports a field of the message declared under `path`. -/
def unresolvedLine (path : String) (d : MessageDecl) (fd : FieldDecl) : String :=
  "Unresolved: " ++ qualify path d.getName ++ "." ++ fd.getName ++ " -> " ++ fd.getTypeName ++ "\n"

/-- The lines about all dangling references in the files. -/
def unresolvedLines (files : List FileDecl) : List String :=
  (files.flatMap FileDecl.flatten).flatMap fun sd =>
    (sd.2.fields.filter fun fd =>
      fd.Dangles (FileDecl.messageNames files) (FileDecl.enumNames files)).map
        (unresolvedLine sd.1.path sd.2)

/-- The lines on unresolved fields are those of the declarations. -/
theorem map_danglingLine (files : List FileDecl) :
    (FileDecl.dangling files).map danglingLine = unresolvedLines files := by
  unfold FileDecl.dangling unresolvedLines MessageDecl.dangling
  rw [List.map_flatMap]
  refine List.flatMap_congr fun sd _ => ?_
  rw [List.map_map]
  rfl

/--
**A strict run tells whether the inputs are complete.**

Let the inputs load, and the output be writable if one is named. Then a strict run ends with status
1 if a field of any message in any of the sets is a reference to a message or an enum of a name that
no set declares, and with 0 if there is no such field. There is one line for each such field, those
of inner messages first and in the order of the fields; and the summary is given out in either case.
It makes no difference whether the references are resolved. A load that fails with an error of its
own, or at the default of a group, gives status 1 in any run, and then nothing is given out.
-/
theorem strict_run (host : Host) (settings : Settings) :
    let loaded := load host settings
    let result := run host settings
    (settings.strict = true → loaded.1 = .ok () → Writable host settings.out →
      ∃ files summary, Load.Declares host settings.inputs settings.includeDirs files
        ∧ (result.status = .ok 1 ↔ FileDecl.HasDangling files)
        ∧ (result.status = .ok 0 ↔ ¬ FileDecl.HasDangling files)
        ∧ result.stderr = logText settings.verbose loaded.2.events.toList
            ++ String.join (unresolvedLines files)
        ∧ Summary.render loaded.2.registry loaded.2.store = .ok summary
        ∧ Emits settings.out loaded.2.registry.size summary result.stdout result.written)
      ∧ ∀ failure, loaded.1 = .error failure →
        (∃ e, failure = .load e ∧ e ≠ .nulInPath ∧ ∀ cause, e ≠ .compilerBlocked cause)
            ∨ failure = .declaration .groupDefault →
          result.status = .ok 1 ∧ result.stdout = "" ∧ result.written = none := by
  intro loaded result
  refine ⟨fun hstrict hok hwritable => ?_, fun failure hfail hreported => ?_⟩
  · obtain ⟨files, hdeclares, hdangling, summary, hsummary⟩ :
        ∃ files, Load.Declares host settings.inputs settings.includeDirs files
          ∧ loaded.2.registry.dangling loaded.2.store = .ok (FileDecl.dangling files)
          ∧ ∃ summary, Summary.render loaded.2.registry loaded.2.store = .ok summary :=
      Load.reports_of_ok hok
    obtain ⟨⟨stdout, written⟩, hemit, hemits⟩ :=
      emit_of_writable hwritable loaded.2.registry.size summary
    have hfindings : strictFindings settings loaded.2 = .ok (FileDecl.dangling files) := by
      unfold strictFindings
      rw [if_pos hstrict]
      exact hdangling
    -- None of the ways to fail is left, so the report is this one.
    have hresult : result = ⟨.ok (if FileDecl.dangling files = [] then 0 else 1), stdout,
        logText settings.verbose loaded.2.events.toList ++ String.join (unresolvedLines files),
        written, loaded.2.commands.toList⟩ := by
      rw [show result = report host settings loaded.2 from run_of_ok hok, report, hsummary,
        ← map_danglingLine]
      dsimp only
      rw [hemit]
      dsimp only
      rw [hfindings]
    rw [hresult]
    refine ⟨files, summary, hdeclares, ?_, ?_, rfl, hsummary, hemits⟩
    · rw [← FileDecl.dangling_ne_nil_iff]
      by_cases hnil : FileDecl.dangling files = [] <;> simp [hnil]
    · rw [← FileDecl.dangling_ne_nil_iff]
      by_cases hnil : FileDecl.dangling files = [] <;> simp [hnil]
  · have hmessage : ∃ message, verdict failure = .ok message := by
      rcases hreported with ⟨e, rfl, hnul, hblocked⟩ | rfl
      · cases e with
        | nulInPath => exact absurd rfl hnul
        | compilerBlocked cause => exact absurd rfl (hblocked cause)
        | _ => exact ⟨_, rfl⟩
      · exact ⟨_, rfl⟩
    obtain ⟨message, hmessage⟩ := hmessage
    unfold result
    rw [run_of_error hfail hmessage]
    exact ⟨rfl, rfl, rfl⟩

/-- The binary form of a set in which the field `f` of a message `M` refers to a message `.N`. -/
def danglingBytes : List UInt8 :=
  [0x0a, 16, 0x22, 14, 0x0a, 1, 0x4d, 0x12, 9, 0x0a, 1, 0x66, 0x28, 11, 0x32, 2, 0x2e, 0x4e]

/-- The set that the bytes hold. -/
def danglingSample : FileDecl :=
  { FileDecl.empty with
    messages := [{ MessageDecl.empty with
      name := some "M"
      fields := [{ FieldDecl.empty with
        name := some "f", type := some 11, typeName := some ".N" }] }] }

/-- A host on which every file has these bytes and can be written. -/
def danglingHost : Host where
  workingDirectory := "/work"
  read := fun _ => .ok danglingBytes
  writeFault := fun _ => none
  compiler := .missing
  scratchDirectory := "/tmp"

theorem decode_danglingBytes :
    Load.decodeSet "a.bin" (danglingHost.read "a.bin") = .ok [danglingSample] := by
  have hdecode : (Wire.decodeFileSet danglingBytes).toOption = some [danglingSample] := by
    decide +kernel
  unfold Load.decodeSet danglingHost
  rw [if_neg (by decide)]
  dsimp only
  cases h : Wire.decodeFileSet danglingBytes with
  | error e => rw [h] at hdecode; cases hdecode
  | ok files => rw [h] at hdecode; rw [Option.some.inj hdecode]

/-- A strict run whose summary goes into a file. -/
def danglingSettings : Settings :=
  { Settings.initial with inputs := ["a.bin"], strict := true, out := some "out.txt" }

theorem strict_run_danglingSettings :
    danglingSettings.strict = true
      ∧ (run danglingHost danglingSettings).status = .ok 1
      ∧ ∃ log, (run danglingHost danglingSettings).stderr = log ++ "Unresolved: .M.f -> .N\n" := by
  have hstrict : danglingSettings.strict = true := rfl
  have hsome : (load danglingHost danglingSettings).1.toOption = some () := by decide +kernel
  have hok : (load danglingHost danglingSettings).1 = .ok () := by
    -- The witness cannot compare loads, only what they come to.
    cases h : (load danglingHost danglingSettings).1 with
    | error e => rw [h] at hsome; cases hsome
    | ok u => rfl
  have hwritable : Writable danglingHost danglingSettings.out := by
    intro path hpath _
    cases hpath
    exact ⟨by decide, rfl⟩
  obtain ⟨hreport, _⟩ := strict_run danglingHost danglingSettings
  obtain ⟨files, summary, ⟨sets, hsets, rfl⟩, hone, _, hstderr, _⟩ :=
    hreport hstrict hok hwritable
  -- The host holds one file with a dangling field.
  have hinputs : Load.inputSets danglingHost danglingSettings.inputs
      danglingSettings.includeDirs = [.ok [danglingSample]] := by
    rw [← decode_danglingBytes]
    rfl
  obtain ⟨files, rfl, hfiles⟩ := List.map_eq_singleton_iff.mp (hsets.symm.trans hinputs)
  cases hfiles
  have hlines : String.join (unresolvedLines [danglingSample]) = "Unresolved: .M.f -> .N\n" := by
    decide
  refine ⟨hstrict, hone.mpr ?_, _, hstderr.trans (congrArg _ hlines)⟩
  rw [← FileDecl.dangling_ne_nil_iff]
  decide

end Program

end SchemaRegistry
