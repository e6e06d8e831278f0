import SchemaRegistry.Proofs.Inputs

/-!
# Loads side by side

Two actions are the `Same` if from equal registries and stores they end in the same way and lead to
equal ones again. Events and command lines are not compared.

A load is the same as importing one after another the sets that its inputs stand for
(`same_loadRegistry`), and importing some sets that can be read is importing the files of all
(`importSets_ok`).
-/

namespace SchemaRegistry

open Progress (Alike)

namespace Action

variable {ε δ α β : Type}

/-- Errors may be renamed before two actions are put one after the other, or after. -/
theorem adaptExcept_bind (f : ε → δ) (a : Action ε α) (g : α → Action ε β) :
    EStateM.adaptExcept f (a >>= g)
      = EStateM.adaptExcept f a >>= fun x => EStateM.adaptExcept f (g x) := by
  funext p
  show EStateM.adaptExcept f (EStateM.bind a g) p
    = EStateM.bind (EStateM.adaptExcept f a) (fun x => EStateM.adaptExcept f (g x)) p
  simp only [EStateM.adaptExcept, EStateM.bind]
  cases a p <;> rfl

/-- From loads that are alike the actions end in the same way and lead to loads that are alike. -/
def Same (a b : Action ε α) : Prop :=
  ∀ p q, Alike id p q →
    (a.outcome p).1 = (b.outcome q).1 ∧ Alike id (a.outcome p).2 (b.outcome q).2

namespace Same

theorem pure (x : α) : Same (pure x : Action ε α) (pure x) := fun _ _ h => ⟨rfl, h⟩

/-- If the first actions are the same and so is what follows on each value, then the whole is. -/
theorem bind {a b : Action ε α} {f g : α → Action ε β} (hab : Same a b)
    (hfg : ∀ x, Same (f x) (g x)) : Same (a >>= f) (b >>= g) := by
  intro p q h
  obtain ⟨hresult, halike⟩ := hab p q h
  rw [outcome_bind, outcome_bind]
  -- The first results are equal, so either both go on with one value or neither goes on.
  cases ha : a.outcome p with
  | mk result p' =>
    cases hb : b.outcome q with
    | mk result' q' =>
      rw [ha, hb] at hresult halike
      cases hresult
      cases result with
      | ok x => exact hfg x p' q' halike
      | error e => exact ⟨rfl, halike⟩

theorem adaptExcept {a b : Action ε α} (h : Same a b) (f : ε → δ) :
    Same (EStateM.adaptExcept f a) (EStateM.adaptExcept f b) := by
  intro p q hpq
  obtain ⟨hresult, halike⟩ := h p q hpq
  rw [outcome_adaptExcept, outcome_adaptExcept]
  exact ⟨congrArg (Except.mapError f) hresult, halike⟩

/-- Two loops are the same if their bodies are, step by step. -/
theorem forM {γ κ : Type} {f : γ → Action ε Unit} {g : κ → Action ε Unit} {k : γ → κ}
    (h : ∀ x, Same (f x) (g (k x))) (xs : List γ) : Same (xs.forM f) ((xs.map k).forM g) := by
  induction xs with
  | nil => exact pure ()
  | cons x xs ih => exact (h x).bind fun _ => ih

end Same

end Action

namespace Import

open SchemaRegistry.Action (Same)

theorem importFiles_append (front files : List FileDecl) :
    importFiles (front ++ files) = importFiles front >>= fun _ => importFiles files :=
  List.forM_append

theorem same_importFiles (files : List FileDecl) :
    Same (importFiles files) (importFiles files) := by
  intro p q h
  rw [importFiles_follows, importFiles_follows]
  exact ⟨rfl, h.performAll _⟩

end Import

namespace Progress.Alike

/-- Loads that are alike are alike when both are resolved. -/
theorem resolve {p q : Progress} (h : Alike id p q) : Alike id p.resolve q.resolve := by
  refine ⟨?_, ?_, ?_⟩
  · rw [resolve_registry, resolve_registry]
    exact h.registry
  · rw [Array.map_id, Array.map_id]
    -- Stores are compared entry by entry: each is resolved by the same registry.
    refine Array.ext_getElem? fun ref => ?_
    have hp := message?_resolve p ref
    have hq := message?_resolve q ref
    rw [← h.store_eq, ← h.registry] at hq
    exact hp.trans hq.symm
  · rw [resolve_enums, resolve_enums]
    exact h.enums

end Progress.Alike

namespace Load

open SchemaRegistry.Action (Same)

/-! ## Importing sets -/

/-- Imports the files of a set that has been read, or fails because it cannot be. -/
def importSet (set : Except LoadError (List FileDecl)) : Action LoadFailure Unit :=
  match set with
  | .ok files => (Import.importFiles files).adaptExcept .declaration
  | .error e => throw (.load e)

/-- Imports sets one after another, up to the first that fails. -/
def importSets (sets : List (Except LoadError (List FileDecl))) : Action LoadFailure Unit :=
  sets.forM importSet

/-- Importing sets in two goes is importing them one after another. -/
theorem importSets_append (front sets : List (Except LoadError (List FileDecl))) :
    importSets (front ++ sets) = importSets front >>= fun _ => importSets sets :=
  List.forM_append

/-- Sets that can be read are imported like one set with the files of all. -/
theorem importSets_ok (fss : List (List FileDecl)) :
    importSets (fss.map .ok) = importSet (.ok fss.flatten) := by
  induction fss with
  | nil => rfl
  | cons files fss ih =>
    show importSet (.ok files) >>= (fun _ => importSets (fss.map .ok)) = _
    rw [ih]
    show _ = EStateM.adaptExcept LoadFailure.declaration (Import.importFiles (files ++ fss.flatten))
    rw [Import.importFiles_append, Action.adaptExcept_bind]
    rfl

/-! ## Loads -/

/-- An action that reads one set, followed by the import of its files, is the import of the set. -/
theorem Reads.same {a : Action LoadError (List FileDecl)} {set : Except LoadError (List FileDecl)}
    (h : Reads a set) : Same (do
      let files ← a.adaptExcept .load
      (Import.importFiles files).adaptExcept .declaration) (importSet set) := by
  intro p q hpq
  obtain ⟨hset, halike⟩ := h p
  rw [Action.outcome_bind, Action.outcome_adaptExcept, hset]
  cases set with
  | error e => exact ⟨rfl, halike.trans hpq⟩
  | ok files => exact (Import.same_importFiles files).adaptExcept _ _ _ (halike.trans hpq)

theorem same_loadSets (host : Host) (paths : List String) :
    Same (paths.forM (loadSet host))
      (importSets (paths.map fun i => decodeSet i (host.read i))) :=
  .forM (fun i => (reads_readSetWith host.read i).same) paths

/-- The inputs of a load come to the sets they stand for, whichever of them are compiled. -/
theorem same_loadInputs (host : Host) (inputs includeDirs : List String) :
    Same (loadInputs host inputs includeDirs)
      (importSets (inputSets host inputs includeDirs)) := by
  unfold inputSets
  rw [importSets_append]
  refine (same_loadSets host _).bind fun _ => ?_
  split
  · rw [show ∀ set, importSets [set] = importSet set from fun set => bind_pure (importSet set)]
    exact (reads_compileSet host _ includeDirs).same
  · exact .pure ()

/-- Imports sets one after another and resolves if asked for. -/
def loadSets (sets : List (Except LoadError (List FileDecl))) (resolve : Bool) :
    Action LoadFailure Unit := do
  importSets sets
  if resolve then modify Progress.resolve

/-- **A load imports the sets of its inputs**, one after another. -/
theorem same_loadRegistry (host : Host) (inputs includeDirs : List String) (resolve : Bool) :
    Same (loadRegistry host inputs includeDirs resolve)
      (loadSets (inputSets host inputs includeDirs) resolve) := by
  rw [loadRegistry_eq]
  refine (same_loadInputs host inputs includeDirs).bind fun _ => ?_
  cases resolve with
  | false => exact .pure ()
  | true => exact fun p q hpq => ⟨rfl, hpq.resolve⟩

end Load

/-! ## What a load comes to -/

/-- There is a file with these bytes at the path, which is not that of a source. -/
structure Host.Holds (host : Host) (path : String) (bytes : List UInt8) : Prop where
  name : Path.hasNul path = false
  set : Load.isSource path = false
  read : host.read path = .ok bytes

namespace Load

open SchemaRegistry.Action (Same)

/-- A file that can be read comes to the set that its bytes decode to. -/
theorem decodeSet_of_holds {host : Host} {path : String} {bytes : List UInt8}
    (h : host.Holds path bytes) :
    decodeSet path (host.read path)
      = (Wire.decodeFileSet bytes).mapError (.undecodable path) := by
  unfold decodeSet
  rw [h.name, if_neg Bool.false_ne_true, h.read]
  dsimp only
  cases Wire.decodeFileSet bytes <;> rfl

theorem inputSets_nil (host : Host) (includeDirs : List String) :
    inputSets host [] includeDirs = [] := rfl

/-- Inputs that are no sources are the first sets to be read. -/
theorem inputSets_append {host : Host} {front : List String}
    (h : ∀ i ∈ front, isSource i = false) (inputs includeDirs : List String) :
    inputSets host (front ++ inputs) includeDirs
      = front.map (fun i => decodeSet i (host.read i)) ++ inputSets host inputs includeDirs := by
  have hsets : front.filter (fun i => !isSource i) = front :=
    List.filter_eq_self.mpr fun i hi => by rw [h i hi]; rfl
  have hsources : front.filter isSource = [] :=
    List.filter_eq_nil_iff.mpr fun i hi => by rw [h i hi]; exact Bool.false_ne_true
  unfold inputSets
  rw [List.filter_append, List.filter_append, hsets, hsources, List.nil_append, List.map_append,
    List.append_assoc]

/-- One encoded set is one set. -/
theorem inputSets_single {host : Host} {path : String} {bytes : List UInt8}
    (h : host.Holds path bytes) (includeDirs : List String) :
    inputSets host [path] includeDirs
      = [(Wire.decodeFileSet bytes).mapError (.undecodable path)] := by
  have hset : ∀ i ∈ [path], isSource i = false := List.forall_mem_singleton.mpr h.set
  rw [← decodeSet_of_holds h]
  exact inputSets_append hset [] includeDirs

/-- The two loads end in the same way, with the same registry over the same store. -/
structure SameEnd (x y : Except LoadFailure Unit × Progress) : Prop where
  result : x.1 = y.1
  registry : x.2.registry = y.2.registry
  store : x.2.store = y.2.store

theorem SameEnd.symm {x y : Except LoadFailure Unit × Progress} (h : SameEnd x y) : SameEnd y x :=
  ⟨h.result.symm, h.registry.symm, h.store.symm⟩

theorem SameEnd.trans {x y z : Except LoadFailure Unit × Progress} (h : SameEnd x y)
    (h' : SameEnd y z) : SameEnd x z :=
  ⟨h.result.trans h'.result, h.registry.trans h'.registry, h.store.trans h'.store⟩

/-- Actions that are the same end the same way when they start from the same progress. -/
theorem sameEnd_of_same {a b : Action LoadFailure Unit} (h : Same a b) (p : Progress) :
    SameEnd (a.outcome p) (b.outcome p) := by
  obtain ⟨hresult, halike⟩ := h p p (.refl p)
  exact ⟨hresult, halike.registry, halike.store_eq⟩

/-- A load ends as the import of its sets does. -/
theorem sameEnd_loadSets (host : Host) (inputs includeDirs : List String) (resolve : Bool) :
    SameEnd ((loadRegistry host inputs includeDirs resolve).outcome .empty)
      ((loadSets (inputSets host inputs includeDirs) resolve).outcome .empty) :=
  sameEnd_of_same (same_loadRegistry host inputs includeDirs resolve) .empty

end Load

end SchemaRegistry
