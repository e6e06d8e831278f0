import Mathlib.Logic.Function.Basic
import SchemaRegistry.Proofs.Session

/-!
# The journal of a session

A session knows a dozen changes, some of which fail half-way, but all that they ever do to the
descriptors and the registries is one of eight edits. `Workspace.edits` says which edits a change
makes, and `contents_after` that the edits of a session, made one after another, lead to what the
session leads to. What holds of a session's outcome is then shown once for each edit, and a failure
on the way is nothing but a shorter journal.
-/

namespace SchemaRegistry

/-- One thing done to the descriptors and registries of a workspace. -/
inductive Edit where
  /-- A new message with these fields, registered in the registry of a name if there is one. -/
  | message (label : String) (fields : List Field) (into : Option String)
  | enum (label : String) (values : List EnumValue) (into : Option String)
  /-- A field is added to the message at a reference. -/
  | field (ref : Nat) (f : Field)
  | value (ref : Nat) (v : EnumValue)
  /-- The message at a reference is registered in the registry of a name. -/
  | registerMessage (name : String) (ref : Nat)
  | registerEnum (name : String) (ref : Nat)
  /-- An empty registry takes the place of the one of a name. -/
  | clear (name : String)
  | resolve (name : String)

/-- The descriptors and registries of a workspace, without the ids. -/
structure Contents where
  store : Store
  registry : String → Registry

namespace Contents

/-- Nothing made and nothing registered yet. -/
def empty : Contents := ⟨.empty, fun _ => .empty⟩

/-- Changes the registry of a name. -/
def change (c : Contents) (name : String) (f : Registry → Registry) : Contents :=
  { c with registry := Function.update c.registry name (f (c.registry name)) }

theorem change_registry (c : Contents) (name other : String) (f : Registry → Registry) :
    (c.change name f).registry other =
      if name = other then f (c.registry other) else c.registry other := by
  show Function.update c.registry name (f (c.registry name)) other = _
  rw [Function.update_apply]
  by_cases h : other = name
  · rw [if_pos h, if_pos h.symm, h]
  · rw [if_neg h, if_neg fun h' => h h'.symm]

end Contents

namespace Edit

/-- Makes the edit. -/
def perform (c : Contents) : Edit → Contents
  | message label fields into =>
    let made : Contents := { c with store := c.store.addMessage ⟨label, .ofList fields⟩ }
    match into with
    | none => made
    | some name => made.change name (·.addMessage label c.store.messages.size)
  | enum label values into =>
    let made : Contents := { c with store := c.store.addEnum ⟨label, .ofList values⟩ }
    match into with
    | none => made
    | some name => made.change name (·.addEnum label c.store.enums.size)
  | field ref f => { c with store := c.store.updateMessage ref (·.addField f) }
  | value ref v => { c with store := c.store.updateEnum ref (·.addValue v) }
  | registerMessage name ref =>
    c.change name (·.addMessage ((c.store.messageName? ref).getD "") ref)
  | registerEnum name ref => c.change name (·.addEnum ((c.store.enumName? ref).getD "") ref)
  | clear name => c.change name fun _ => .empty
  | resolve name =>
    { c with store := (Progress.start c.store (c.registry name)).resolve.store }

end Edit

/-! ## The edits of a walk -/

/-- The values that an enum declares. -/
def EnumDecl.members (d : EnumDecl) : List EnumValue :=
  d.values.map fun v => ⟨v.getName, v.getNumber⟩

/-- What the visit makes, for the registry of a name or for none. -/
def Visit.edit? (into : Option String) : Visit → Option Edit
  | message path d =>
    some (.message (qualify path d.getName) (d.fields.filterMap FieldDecl.field?) into)
  | enum path d => some (.enum (qualify path d.getName) d.members into)
  | _ => none

/-- The edits of a walk, as far as it gets. -/
def Walk.edits (into : Option String) (vs : List Visit) : List Edit :=
  (reached vs).filterMap (Visit.edit? into)

namespace Progress

/-- The contents to which a load comes that works for the registry of a name, among others. A load
that works for none leaves its registry behind. -/
def contents (p : Progress) (into : Option String) (others : String → Registry) : Contents :=
  match into with
  | none => ⟨p.store, others⟩
  | some name => ⟨p.store, Function.update others name p.registry⟩

variable {into : Option String} {others : String → Registry}

/-- The events and the command lines are no part of the contents. -/
theorem contents_congr {p q : Progress} (hs : q.store = p.store) (hr : q.registry = p.registry) :
    q.contents into others = p.contents into others := by
  unfold contents
  rw [hs, hr]

/-- A visit is one edit at most. -/
theorem contents_perform (p : Progress) (v : Visit) :
    (v.perform p).contents into others =
      ((v.edit? into).map (Edit.perform (p.contents into others))).getD
        (p.contents into others) := by
  cases v with
  | field d => exact contents_congr (noteAll_store _ _) (noteAll_registry _ _)
  | file d => exact contents_congr rfl rfl
  | enum path d =>
    cases into with
    | none => rfl
    | some name => simp [contents, Visit.perform, Visit.edit?, Edit.perform, Contents.change,
        registerEnum, Enumeration.ofDecl, EnumDecl.members]
  | message path d =>
    cases into with
    | none => rfl
    | some name => simp [contents, Visit.perform, Visit.edit?, Edit.perform, Contents.change,
        registerMessage, MessageDecl.descriptor]

/-- A walk makes its edits. -/
theorem contents_performAll (vs : List Visit) (p : Progress) :
    (vs.foldl Visit.perform p).contents into others =
      (vs.filterMap (Visit.edit? into)).foldl Edit.perform (p.contents into others) := by
  induction vs generalizing p with
  | nil => rfl
  | cons v vs ih =>
    rw [List.foldl_cons, ih, contents_perform, List.filterMap_cons]
    cases v.edit? into <;> rfl

end Progress

/-! ## The edits of a change -/

namespace Workspace

/-- What the journal is about in a workspace; ids are left out. -/
def contents (w : Workspace) : Contents := ⟨w.store, w.registry⟩

/-- The edits that a change of the registry of a name makes. -/
def edits (w : Workspace) (name : String) : Change → List Edit
  | .importFiles files => Walk.edits (some name) (files.flatMap FileDecl.walk)
  | .importMessage path d => Walk.edits (some name) (d.walk path)
  | .replace files =>
    match Walk.verdict (files.flatMap FileDecl.walk) with
    | .ok _ => .clear name :: Walk.edits (some name) (files.flatMap FileDecl.walk)
    -- The registry is kept, but descriptors have been made.
    | .error _ => Walk.edits none (files.flatMap FileDecl.walk)
  | .buildMessage _ path d =>
    match Walk.verdict (d.fields.map .field) with
    | .ok _ => [.message (qualify path d.getName) (d.fields.filterMap FieldDecl.field?) none]
    | .error _ => []
  | .buildEnum _ path d => [.enum (qualify path d.getName) d.members none]
  | .newMessage _ label => [.message label [] none]
  | .newEnum _ label => [.enum label [] none]
  | .addField id f => (w.messageRef? id).toList.map (.field · f)
  | .addValue id v => (w.enumRef? id).toList.map (.value · v)
  | .registerMessage id => (w.messageRef? id).toList.map (.registerMessage name)
  | .registerEnum id => (w.enumRef? id).toList.map (.registerEnum name)
  | .resolve => [.resolve name]

variable {w : Workspace}

theorem contents_setRegistry (w : Workspace) (name : String) (r : Registry) :
    (w.setRegistry name r).contents = w.contents.change name fun _ => r := by
  refine congrArg (Contents.mk w.store) (funext fun other => ?_)
  have h := w.contents.change_registry name other fun _ => r
  rw [registry_setRegistry]
  exact h.symm

/-- The end of a step puts its registry in place and leaves the others. -/
theorem contents_finish (w : Workspace) (name : String) (p : Progress) :
    (w.finish name p).contents = p.contents (some name) w.registry :=
  contents_setRegistry { w with store := p.store } name p.registry

theorem contents_start (w : Workspace) (name : String) :
    (w.start name).contents (some name) w.registry = w.contents := by
  unfold start Progress.contents
  exact congrArg (Contents.mk w.store) (Function.update_eq_self name w.registry)

/-- An import is the edits of the visits that it reaches. -/
theorem contents_runImport (w : Workspace) (name : String) {a : Action DeclarationError Unit}
    {vs : List Visit} (ha : Follows a vs ()) :
    (w.runImport name a).workspace.contents
      = (Walk.edits (some name) vs).foldl Edit.perform w.contents := by
  show (w.finish name (a.outcome (w.start name)).2).contents = _
  rw [ha, contents_finish, Progress.contents_performAll, contents_start]
  rfl

/-- A replacement empties the registry first. If it fails, the edits go to the store alone. -/
theorem contents_replaceRegistry (w : Workspace) (name : String) (files : List FileDecl) :
    (w.replaceRegistry name files).workspace.contents
      = (w.edits name (.replace files)).foldl Edit.perform w.contents := by
  unfold replaceRegistry
  rw [edits, Import.importFiles_follows files]
  cases Walk.verdict (files.flatMap FileDecl.walk) with
  | ok u =>
    show (w.finish name _).contents = _
    rw [contents_finish, Progress.contents_performAll]
    rfl
  | error e =>
    exact @Progress.contents_performAll none w.registry _ (.start w.store .empty)

theorem contents_buildMessage (w : Workspace) (name id path : String) (d : MessageDecl) :
    (w.buildMessage id path d).workspace.contents
      = (w.edits name (.buildMessage id path d)).foldl Edit.perform w.contents := by
  unfold buildMessage
  rw [edits, Import.buildMessage_follows path d]
  cases Walk.verdict (d.fields.map .field) <;> rfl

/-- **A change makes its edits.** -/
theorem contents_apply (w : Workspace) (name : String) (c : Change) :
    (w.apply name c).workspace.contents = (w.edits name c).foldl Edit.perform w.contents := by
  -- Imports make the edits of their visits; the other changes make one edit, or none if the id is
  -- unknown.
  cases c with
  | importFiles files => exact contents_runImport w name (Import.importFiles_follows files)
  | importMessage path d => exact contents_runImport w name (Import.importMessage_follows path d)
  | replace files => exact contents_replaceRegistry w name files
  | buildMessage id path d => exact contents_buildMessage w name id path d
  | buildEnum id path d => rfl
  | newMessage id label => rfl
  | newEnum id label => rfl
  | addField id f =>
    show (w.addField id f).workspace.contents = _
    unfold addField
    rw [edits]
    cases w.messageRef? id <;> rfl
  | addValue id v =>
    show (w.addValue id v).workspace.contents = _
    unfold addValue
    rw [edits]
    cases w.enumRef? id <;> rfl
  | registerMessage id =>
    show (w.registerMessage name id).workspace.contents = _
    unfold registerMessage
    rw [edits]
    cases w.messageRef? id with
    | none => rfl
    | some ref => exact contents_setRegistry w name _
  | registerEnum id =>
    show (w.registerEnum name id).workspace.contents = _
    unfold registerEnum
    rw [edits]
    cases w.enumRef? id with
    | none => rfl
    | some ref => exact contents_setRegistry w name _
  | resolve =>
    show (w.finish name (w.start name).resolve).contents = _
    rw [contents_finish]
    unfold Progress.contents
    -- A pass leaves the registry as it is, so putting it back is no edit.
    rw [Progress.resolve_registry]
    exact congrArg (Contents.mk _) (Function.update_eq_self name w.registry)

/-! ## The edits of a session -/

/-- The workspace to which a session leads from `w`. -/
def run (w : Workspace) (session : List (String × Change)) : Workspace :=
  session.foldl (fun w c => (w.apply c.1 c.2).workspace) w

/-- A session goes on from where it has led. -/
theorem after_append (before later : List (String × Change)) :
    after (before ++ later) = (after before).run later :=
  List.foldl_append

/-- All edits that a session makes from `w` on. -/
def journalFrom (w : Workspace) : List (String × Change) → List Edit
  | [] => []
  | c :: cs => w.edits c.1 c.2 ++ journalFrom (w.apply c.1 c.2).workspace cs

/-- All edits that a session makes. -/
def journal (session : List (String × Change)) : List Edit := journalFrom empty session

/-- A session is the edits of its changes, one change after another. -/
theorem contents_run (w : Workspace) (session : List (String × Change)) :
    (w.run session).contents = (w.journalFrom session).foldl Edit.perform w.contents := by
  induction session generalizing w with
  | nil => rfl
  | cons c cs ih =>
    rw [journalFrom, List.foldl_append, ← contents_apply]
    exact ih _

theorem contents_empty : empty.contents = .empty := by
  refine congrArg (Contents.mk Store.empty) (funext fun name => ?_)
  simp [registry, empty]

/-- **A session leads to what its journal leads to.** -/
theorem contents_after (session : List (String × Change)) :
    (after session).contents = (journal session).foldl Edit.perform .empty := by
  rw [← contents_empty]
  exact contents_run empty session

end Workspace

end SchemaRegistry
