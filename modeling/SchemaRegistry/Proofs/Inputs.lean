import SchemaRegistry.Proofs.Loading
import SchemaRegistry.Proofs.Timing

/-!
# What the inputs of a load declare

The inputs stand for descriptor sets: those read from the files that are no sources, in order, and
last the one that the compiler makes of all sources (`inputSets`). A load that succeeds has read
them all, and leads where one import of all their files does: `loadInputs_brings`.
-/

namespace SchemaRegistry

namespace Progress.Alike

variable {β : Type} {g : Message → β} {p q q' : Progress}

theorem trans (h : Alike g p q) (h' : Alike g q q') : Alike g p q' :=
  ⟨h.registry.trans h'.registry, h.messages.trans h'.messages, h.enums.trans h'.enums⟩

/-- Loads alike in every part of their messages have one and the same store. -/
theorem store_eq (h : Alike id p q) : p.store = q.store := by
  have hmessages := h.messages
  rw [Array.map_id, Array.map_id] at hmessages
  exact congrArg₂ Store.mk hmessages h.enums

end Progress.Alike

namespace Load

open Progress (Alike)

/-- What the compiler makes of the sources. -/
def compiled (host : Host) (sources includeDirs : List String) :
    Except LoadError (List FileDecl) :=
  if (command host sources includeDirs).any Path.hasNul then .error .nulInPath
  else
    match host.compiler with
    | .unstartable cause => .error (notStarted cause)
    | .failing stderr => .error (.compilerFailed stderr)
    | .writing output => decodeSet (outputPath host) output

/-- The sets that the inputs stand for, in the order in which they are read. -/
def inputSets (host : Host) (inputs includeDirs : List String) :
    List (Except LoadError (List FileDecl)) :=
  (inputs.filter fun i => !isSource i).map (fun i => decodeSet i (host.read i))
    ++ if inputs.filter isSource ≠ [] then [compiled host (inputs.filter isSource) includeDirs]
      else []

/-- All sets that the inputs stand for can be read, and these are the files in them. -/
def Declares (host : Host) (inputs includeDirs : List String) (files : List FileDecl) : Prop :=
  ∃ sets : List (List FileDecl),
    inputSets host inputs includeDirs = sets.map .ok ∧ files = sets.flatten

/-! ## Reading -/

/-- The action ends as `set` says, and it leaves store and registry alone. -/
def Reads (a : Action LoadError (List FileDecl)) (set : Except LoadError (List FileDecl)) : Prop :=
  ∀ p, (a.outcome p).1 = set ∧ Alike id (a.outcome p).2 p

/-- Reading a set gives what is in its bytes, and the note about it matters to nobody. -/
theorem reads_readSetWith (read : String → Except SystemError (List UInt8)) (path : String) :
    Reads (readSetWith read path) (decodeSet path (read path)) := by
  intro p
  unfold readSetWith
  rw [Action.outcome_bind, Action.outcome_ofExcept]
  cases decodeSet path (read path) with
  | ok files => exact ⟨rfl, rfl, rfl, rfl⟩
  | error e => exact ⟨rfl, rfl, rfl, rfl⟩

/-- What only notes something does not get in the way. -/
theorem Reads.after {a : Action LoadError (List FileDecl)} {set : Except LoadError (List FileDecl)}
    (h : Reads a set) {f : Progress → Progress} (hf : ∀ p, Alike id (f p) p) :
    Reads (modify f >>= fun _ => a) set := by
  intro p
  rw [Action.outcome_bind, Action.outcome_modify]
  obtain ⟨hset, halike⟩ := h (f p)
  exact ⟨hset, halike.trans (hf p)⟩

theorem reads_error (e : LoadError) : Reads (throw e) (.error e) := fun p => ⟨rfl, .refl p⟩

/-- A compilation gives what the compiler makes of the sources, if it is run at all. -/
theorem reads_compileSet (host : Host) (sources includeDirs : List String) :
    Reads (compileSet host sources includeDirs) (compiled host sources includeDirs) := by
  unfold compileSet compiled
  refine .after ?_ fun p => ⟨rfl, rfl, rfl⟩
  split
  · exact reads_error _
  · refine .after ?_ fun p => ⟨rfl, rfl, rfl⟩
    cases host.compiler with
    | unstartable cause => exact reads_error _
    | failing stderr => exact reads_error _
    | writing output => exact reads_readSetWith _ _

/-! ## Reading and importing -/

/-- If the action succeeds, it has read all these sets, and it has done what importing their files
would do. -/
def Brings (a : Action LoadFailure Unit) (sets : List (Except LoadError (List FileDecl))) : Prop :=
  ∀ p, (a.outcome p).1 = .ok () → ∃ fss : List (List FileDecl), sets = fss.map .ok
    ∧ Walk.verdict (fss.flatten.flatMap FileDecl.walk) = .ok ()
    ∧ Alike id (a.outcome p).2 ((fss.flatten.flatMap FileDecl.walk).foldl Visit.perform p)

theorem brings_pure : Brings (pure ()) [] := fun p _ => ⟨[], rfl, rfl, .refl p⟩

/-- Loads one after another bring the sets of both. -/
theorem Brings.bind {a b : Action LoadFailure Unit}
    {sets sets' : List (Except LoadError (List FileDecl))} (ha : Brings a sets)
    (hb : Brings b sets') : Brings (a >>= fun _ => b) (sets ++ sets') := by
  intro p hok
  rw [Action.outcome_bind] at hok ⊢
  have h := ha p
  cases hout : a.outcome p with
  | mk result q =>
    rw [hout] at hok h
    cases result with
    | error e => cases hok
    | ok u =>
      -- `b` starts where `a` has led, and the visits to its files from a load alike to that.
      obtain ⟨fss, rfl, hverdict, halike⟩ := h rfl
      obtain ⟨fss', rfl, hverdict', halike'⟩ := hb q hok
      refine ⟨fss ++ fss', List.map_append.symm, ?_, ?_⟩
      · rw [List.flatten_append, List.flatMap_append, Walk.verdict_append_of_ok hverdict]
        exact hverdict'
      · rw [List.flatten_append, List.flatMap_append, List.foldl_append]
        exact halike'.trans (halike.performAll _)

theorem brings_forM {α : Type} {a : α → Action LoadFailure Unit}
    {set : α → Except LoadError (List FileDecl)} (h : ∀ x, Brings (a x) [set x]) (xs : List α) :
    Brings (xs.forM a) (xs.map set) := by
  induction xs with
  | nil => exact brings_pure
  | cons x xs ih => exact (h x).bind ih

/-- A set that is read and imported is brought. -/
theorem Reads.brings {a : Action LoadError (List FileDecl)}
    {set : Except LoadError (List FileDecl)} (h : Reads a set) :
    Brings (do
      let files ← a.adaptExcept .load
      (Import.importFiles files).adaptExcept .declaration) [set] := by
  intro p hok
  obtain ⟨hset, halike⟩ := h p
  rw [Action.outcome_bind, Action.outcome_adaptExcept, hset] at hok ⊢
  cases set with
  -- Nothing is imported from a set that cannot be read.
  | error e => cases hok
  | ok files =>
    dsimp only [Except.mapError] at hok ⊢
    rw [Action.outcome_adaptExcept, Import.importFiles_follows] at hok ⊢
    cases hverdict : Walk.verdict (files.flatMap FileDecl.walk) with
    | error e => rw [hverdict] at hok; cases hok
    | ok u =>
      rw [Walk.reached_eq_self hverdict]
      refine ⟨[files], rfl, ?_, ?_⟩
      · rw [List.flatten_singleton]
        exact hverdict
      · rw [List.flatten_singleton]
        exact halike.performAll _

/-- **A load imports what its inputs declare.** -/
theorem loadInputs_brings (host : Host) (inputs includeDirs : List String) :
    Brings (loadInputs host inputs includeDirs) (inputSets host inputs includeDirs) := by
  refine (brings_forM (fun i => (reads_readSetWith host.read i).brings) _).bind ?_
  split
  · exact (reads_compileSet host _ includeDirs).brings
  · exact brings_pure

end Load

end SchemaRegistry
