import SchemaRegistry.Proofs.Payloads
import SchemaRegistry.Proofs.Scanning
import SchemaRegistry.Wire.FileSet

/-!
# Descriptor sets one after another

A descriptor set is a message with one list in it. So the bytes of two sets one after another are
those of a set with the files of both (`decodeFileSet_append`), and a fault in the second one is a
fault of the whole.
-/

namespace SchemaRegistry.Wire

/-- A message is read field by field, and only then does its own fault show. -/
theorem foldFields_succ {α : Type} (inner : Nat) (bytes : List UInt8) (a : α)
    (step : Nat → α → RawField → Except WireError α) :
    foldFields (inner + 1) bytes a step = (scan inner bytes).fields.foldlM (step inner) a >>=
      fun b => if (scan inner bytes).intact then .ok b else .error .corrupt := by
  unfold foldFields
  dsimp only
  cases (scan inner bytes).fields.foldlM (step inner) a <;> rfl

/-- How a set takes in one of its fields. -/
def setStep (inner : Nat) (files : List FileDecl) (f : RawField) :
    Except WireError (List FileDecl) :=
  match f with
  | ⟨1, .delimited b⟩ => do
    let d ← decodeFile inner b
    return files ++ [d]
  | _ => .ok files

/-- Fields of other numbers are passed over, and the files of the rest are appended. -/
theorem foldlM_setStep (inner : Nat) (fields : List RawField) (files : List FileDecl) :
    fields.foldlM (setStep inner) files
      = (delimiteds 1 fields).mapM (decodeFile inner) >>= fun ds => .ok (files ++ ds) := by
  induction fields generalizing files with
  | nil => exact congrArg Except.ok (List.append_nil files).symm
  | cons f fields ih =>
    rw [List.foldlM_cons]
    unfold setStep
    split
    · rename_i b
      rw [delimiteds_cons, delimiteds_delimited, if_pos rfl, List.singleton_append,
        List.mapM_cons]
      cases decodeFile inner b with
      | error e => rfl
      | ok d =>
        -- One file more is in the accumulator; the others are appended behind it.
        show fields.foldlM (setStep inner) (files ++ [d]) = _
        rw [ih]
        cases (delimiteds 1 fields).mapM (decodeFile inner) with
        | error e => rfl
        | ok ds => exact congrArg Except.ok (List.append_assoc files [d] ds)
    · rename_i hother
      rw [delimiteds_cons, delimiteds_of_ne hother]
      exact ih files

/-- A set is decoded by reading the files in the fields of number 1. A fault behind them is reported
last. -/
theorem decodeFileSet_eq (bytes : List UInt8) :
    decodeFileSet bytes = (delimiteds 1 (scan maxDepth bytes).fields).mapM (decodeFile maxDepth) >>=
      fun files => if (scan maxDepth bytes).intact then .ok files else .error .corrupt := by
  have hfold : decodeFileSet bytes = foldFields (maxDepth + 1) bytes [] setStep := rfl
  rw [hfold, foldFields_succ, foldlM_setStep]
  cases (delimiteds 1 (scan maxDepth bytes).fields).mapM (decodeFile maxDepth) <;> rfl

/-- A set can be decoded if its framing is intact and all its files can. -/
theorem decodeFileSet_ok_iff {bytes : List UInt8} {files : List FileDecl} :
    decodeFileSet bytes = .ok files ↔ (scan maxDepth bytes).intact = true
      ∧ (delimiteds 1 (scan maxDepth bytes).fields).mapM (decodeFile maxDepth) = .ok files := by
  rw [decodeFileSet_eq]
  cases (delimiteds 1 (scan maxDepth bytes).fields).mapM (decodeFile maxDepth) with
  | error e => exact ⟨nofun, nofun⟩
  | ok ds => cases (scan maxDepth bytes).intact <;> simp [bind, Except.bind]

/-- **Sets one after another.** -/
theorem decodeFileSet_append {front : List UInt8} {files : List FileDecl}
    (h : decodeFileSet front = .ok files) (bytes : List UInt8) :
    decodeFileSet (front ++ bytes) = (decodeFileSet bytes).map (files ++ ·) := by
  obtain ⟨hintact, hfiles⟩ := decodeFileSet_ok_iff.mp h
  rw [decodeFileSet_eq, decodeFileSet_eq, scan_append hintact]
  dsimp only
  rw [delimiteds_append, List.mapM_append, hfiles]
  cases (delimiteds 1 (scan maxDepth bytes).fields).mapM (decodeFile maxDepth) with
  | error e => rfl
  | ok ds => cases (scan maxDepth bytes).intact <;> rfl

theorem decodeFileSet_nil : decodeFileSet [] = .ok [] :=
  decodeFileSet_ok_iff.mpr (by rw [scan_nil]; exact ⟨rfl, rfl⟩)

/-- Any number of sets, and one more. -/
theorem decodeFileSet_flatten {fronts : List (List UInt8)} {sets : List (List FileDecl)}
    (h : fronts.map decodeFileSet = sets.map .ok) (bytes : List UInt8) :
    decodeFileSet (fronts.flatten ++ bytes) = (decodeFileSet bytes).map (sets.flatten ++ ·) := by
  induction fronts generalizing sets with
  | nil =>
    obtain rfl := List.map_eq_nil_iff.mp h.symm
    cases hbytes : decodeFileSet bytes <;> simp [Except.map, hbytes]
  | cons front fronts ih =>
    cases sets with
    | nil => cases h
    | cons files sets =>
      -- The files of the first set are appended in front of those of all others.
      obtain ⟨hfront, hfronts⟩ := List.cons.inj h
      rw [List.flatten_cons, List.append_assoc, decodeFileSet_append hfront, ih hfronts,
        List.flatten_cons]
      cases decodeFileSet bytes with
      | error e => rfl
      | ok last => exact congrArg Except.ok (List.append_assoc ..).symm

end SchemaRegistry.Wire
