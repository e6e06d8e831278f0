import Mathlib.Data.List.TakeWhile
import SchemaRegistry.Proofs.Declared
import SchemaRegistry.Registry.Import

/-!
# An import is a walk

An import reads nothing of the load it advances. Whatever is registered already, it goes through the
declared trees along one fixed line of *visits*: the fields of a message, the types declared inside
it, its own enums, and at last the message itself. The first field that cannot be built ends the
walk, and everything visited before has been done.

`Follows a vs x` says this of an action `a`. Every statement about what an import leaves behind,
also when it fails half-way, is then a statement about a list.
-/

namespace SchemaRegistry

/-- A single thing that an import does. -/
inductive Visit where
  | field (d : FieldDecl)
  | enum (path : String) (d : EnumDecl)
  | message (path : String) (d : MessageDecl)
  | file (d : FileDecl)

namespace Visit

/-- Why the visit cannot be made. Only a field can be at fault. -/
def fault? : Visit → Option DeclarationError
  | field d => d.fault?
  | _ => none

/-- What the visit does to a load. -/
def perform (p : Progress) : Visit → Progress
  | field d => p.noteAll d.events
  | enum path d => p.registerEnum (.ofDecl path d)
  | message path d => p.registerMessage (d.descriptor path)
  | file d => p.note (.imported d.getName d.messages.length d.enums.length)

/-- The message registered by the visit, as it is declared and under which path. -/
def message? : Visit → Option (String × MessageDecl)
  | message path d => some (path, d)
  | _ => none

/-- The enum registered by the visit. -/
def enum? : Visit → Option (String × EnumDecl)
  | enum path d => some (path, d)
  | _ => none

end Visit

/-! ## The line of visits -/

mutual

/-- The visits to a message declared under `path` and to all that is declared inside it. -/
def MessageDecl.walk (path : String) : MessageDecl → List Visit
  | ⟨name, fields, messages, enums⟩ =>
    fields.map .field ++ (MessageDecl.walkAll (qualify path (name.getD "")) messages
      ++ (enums.map (.enum (qualify path (name.getD "")))
        ++ [.message path ⟨name, fields, messages, enums⟩]))

/-- The visits to messages that are declared one after another under `path`. -/
def MessageDecl.walkAll (path : String) : List MessageDecl → List Visit
  | [] => []
  | d :: ds => d.walk path ++ MessageDecl.walkAll path ds

end

/-- The visits to a file: to its messages, then to its enums, and to the file itself at the end. -/
def FileDecl.walk (f : FileDecl) : List Visit :=
  MessageDecl.walkAll f.path f.messages ++ (f.enums.map (.enum f.path) ++ [.file f])

/-! ## How far a walk gets -/

namespace Walk

/-- The visits before the first one at fault. -/
def reached (vs : List Visit) : List Visit := vs.takeWhile fun v => v.fault?.isNone

/-- How the walk ends. -/
def verdict (vs : List Visit) : Except DeclarationError Unit :=
  match vs.findSome? Visit.fault? with
  | some e => .error e
  | none => .ok ()

/-- A walk is without fault if and only if each of its visits is. -/
theorem verdict_eq_ok_iff {vs : List Visit} :
    verdict vs = .ok () ↔ ∀ v ∈ vs, v.fault? = none := by
  unfold verdict
  rw [← List.findSome?_eq_none_iff]
  cases vs.findSome? Visit.fault? <;> simp

/-- A walk ends with its first fault. -/
theorem verdict_eq_error_iff {vs : List Visit} {e : DeclarationError} :
    verdict vs = .error e ↔ vs.findSome? Visit.fault? = some e := by
  unfold verdict
  cases vs.findSome? Visit.fault? <;> simp

/-- A walk without a fault is made in full. -/
theorem reached_eq_self {vs : List Visit} (h : verdict vs = .ok ()) : reached vs = vs := by
  unfold reached
  rw [List.takeWhile_eq_self_iff]
  intro v hv
  rw [verdict_eq_ok_iff.mp h v hv]
  rfl

/-- A walk is made up to its first fault. -/
theorem reached_append_of_fault {vs ws : List Visit} {v : Visit} {e : DeclarationError}
    (hvs : ∀ w ∈ vs, w.fault? = none) (hv : v.fault? = some e) : reached (vs ++ v :: ws) = vs := by
  unfold reached
  rw [List.takeWhile_append_of_pos fun w hw => by rw [hvs w hw]; rfl,
    List.takeWhile_cons_of_neg (by rw [hv]; exact Bool.false_ne_true), List.append_nil]

theorem mem_of_mem_reached {vs : List Visit} {v : Visit} (h : v ∈ reached vs) : v ∈ vs :=
  (List.takeWhile_prefix _).subset h

/-- The visits that are reached are not at fault. -/
theorem fault?_of_mem_reached {vs : List Visit} {v : Visit} (h : v ∈ reached vs) :
    v.fault? = none := by
  unfold reached at h
  have hv := List.mem_takeWhile_imp h
  exact Option.isNone_iff_eq_none.mp hv

/-- Behind a walk without fault the next one starts. -/
theorem reached_append_of_ok {vs ws : List Visit} (h : verdict vs = .ok ()) :
    reached (vs ++ ws) = vs ++ reached ws := by
  have hvs := verdict_eq_ok_iff.mp h
  unfold reached
  exact List.takeWhile_append_of_pos fun v hv => by rw [hvs v hv]; rfl

theorem verdict_append_of_ok {vs ws : List Visit} (h : verdict vs = .ok ()) :
    verdict (vs ++ ws) = verdict ws := by
  have hvs := List.findSome?_eq_none_iff.mpr (verdict_eq_ok_iff.mp h)
  unfold verdict
  rw [List.findSome?_append, hvs, Option.none_or]

/-- What would come after a fault is neither done nor looked at. -/
theorem append_of_error {vs : List Visit} {e : DeclarationError} (h : verdict vs = .error e)
    (ws : List Visit) : reached (vs ++ ws) = reached vs ∧ verdict (vs ++ ws) = .error e := by
  have hfault := verdict_eq_error_iff.mp h
  constructor
  · obtain ⟨us, v, vs', rfl, hv, hus⟩ := List.findSome?_eq_some_iff.mp hfault
    rw [List.append_assoc, List.cons_append, reached_append_of_fault hus hv,
      reached_append_of_fault hus hv]
  · rw [verdict_eq_error_iff, List.findSome?_append, hfault]
    rfl

/-- What is reached of two walks is reached in the first, or in the second after all of the
first. -/
theorem mem_reached_append {vs ws : List Visit} {v : Visit} :
    v ∈ reached (vs ++ ws) ↔ v ∈ reached vs ∨ (verdict vs = .ok () ∧ v ∈ reached ws) := by
  cases h : verdict vs with
  | ok u => rw [reached_append_of_ok h, List.mem_append, reached_eq_self h]; simp
  | error e => rw [(append_of_error h ws).1]; simp

/-- Before a message is registered, each of its fields is built. -/
def FieldsFirst (vs : List Visit) : Prop :=
  ∀ path d, Visit.message path d ∈ reached vs → ∀ fd ∈ d.fields, Visit.field fd ∈ reached vs

namespace FieldsFirst

theorem of_no_message {vs : List Visit} (h : ∀ v ∈ vs, v.message? = none) : FieldsFirst vs := by
  intro path d hd
  have hnone := h _ (mem_of_mem_reached hd)
  cases hnone

theorem append {vs ws : List Visit} (hv : FieldsFirst vs) (hw : FieldsFirst ws) :
    FieldsFirst (vs ++ ws) := by
  intro path d hd fd hfd
  rw [mem_reached_append] at hd ⊢
  rcases hd with hd | ⟨hok, hd⟩
  · exact Or.inl (hv path d hd fd hfd)
  · exact Or.inr ⟨hok, hw path d hd fd hfd⟩

/-- The message that comes at the end of its own visits. -/
theorem snoc {d : MessageDecl} {vs : List Visit} (hv : FieldsFirst vs) (path : String) :
    FieldsFirst (d.fields.map .field ++ (vs ++ [.message path d])) := by
  intro path' d' hd fd hfd
  rw [mem_reached_append, mem_reached_append] at hd ⊢
  rcases hd with hd | ⟨hok, hd | ⟨_, hd⟩⟩
  · -- Among the visits to the fields there is no message.
    obtain ⟨_, _, heq⟩ := List.mem_map.mp (mem_of_mem_reached hd)
    cases heq
  · exact Or.inr ⟨hok, Or.inl (hv path' d' hd fd hfd)⟩
  · -- The last message has been come to, so all its fields have.
    obtain ⟨_, rfl⟩ := Visit.message.inj (List.mem_singleton.mp (mem_of_mem_reached hd))
    refine Or.inl ?_
    rw [reached_eq_self hok]
    exact List.mem_map_of_mem hfd

end FieldsFirst

theorem fieldsFirst_enums (path : String) (ds : List EnumDecl) :
    FieldsFirst (ds.map (.enum path)) := by
  refine .of_no_message fun v hv => ?_
  obtain ⟨d, _, rfl⟩ := List.mem_map.mp hv
  rfl

mutual

/-- The walk of a message comes to its fields before it registers the message. -/
theorem fieldsFirst_walk (path : String) : (d : MessageDecl) → FieldsFirst (d.walk path)
  | ⟨name, fields, messages, enums⟩ => by
    have h := ((fieldsFirst_walkAll (qualify path (name.getD "")) messages).append
      (fieldsFirst_enums (qualify path (name.getD "")) enums)).snoc
        (d := ⟨name, fields, messages, enums⟩) path
    rw [List.append_assoc] at h
    exact h

theorem fieldsFirst_walkAll (path : String) :
    (ds : List MessageDecl) → FieldsFirst (MessageDecl.walkAll path ds)
  | [] => .of_no_message (by simp [MessageDecl.walkAll])
  | d :: ds => (fieldsFirst_walk path d).append (fieldsFirst_walkAll path ds)

end

theorem fieldsFirst_file (f : FileDecl) : FieldsFirst f.walk :=
  (fieldsFirst_walkAll f.path f.messages).append
    ((fieldsFirst_enums f.path f.enums).append (.of_no_message (by simp [Visit.message?])))

/-- So do the walks of all files. -/
theorem fieldsFirst_files (fs : List FileDecl) : FieldsFirst (fs.flatMap FileDecl.walk) := by
  induction fs with
  | nil => exact .of_no_message (by simp)
  | cons f fs ih => exact (fieldsFirst_file f).append ih

/-- A message that is registered is all there. -/
theorem declared_of_mem_reached {vs : List Visit} (h : FieldsFirst vs) {path : String}
    {d : MessageDecl} (hd : .message path d ∈ reached vs) :
    (d.descriptor path).Declared path d :=
  MessageDecl.declared_descriptor path fun fd hfd => fault?_of_mem_reached (h path d hd fd hfd)

end Walk

/-! ## Actions that follow a walk -/

open Walk

/-- From any load, `a` performs the visits of the walk up to the first fault, and it gives `x` if
there is none. -/
def Follows {α : Type} (a : Action DeclarationError α) (vs : List Visit) (x : α) : Prop :=
  ∀ p : Progress,
    a.outcome p = ((verdict vs).map fun _ => x, (reached vs).foldl Visit.perform p)

namespace Follows

variable {α β : Type}

theorem pure (x : α) : Follows (pure x) [] x := fun _ => rfl

/-- One action after another follows the walks in a row. -/
theorem bind {a : Action DeclarationError α} {f : α → Action DeclarationError β}
    {vs ws : List Visit} {x : α} {y : β} (ha : Follows a vs x) (hf : Follows (f x) ws y) :
    Follows (a >>= f) (vs ++ ws) y := by
  intro p
  rw [Action.outcome_bind, ha p]
  cases hv : verdict vs with
  | ok u =>
    rw [reached_append_of_ok hv, verdict_append_of_ok hv, List.foldl_append, reached_eq_self hv]
    exact hf _
  | error e =>
    -- `f` is not run, and the visits it would make are not reached.
    obtain ⟨h1, h2⟩ := append_of_error hv ws
    rw [h1, h2]
    rfl

/-- A change of the progress that visits at no fault make follows those visits. -/
theorem modify {f : Progress → Progress} {vs : List Visit} (hvs : ∀ v ∈ vs, v.fault? = none)
    (hf : ∀ p, f p = vs.foldl Visit.perform p) : Follows (modify f) vs () := by
  have hok := verdict_eq_ok_iff.mpr hvs
  intro p
  rw [Action.outcome_modify, hok, reached_eq_self hok, hf p]
  rfl

/-- A loop follows the walks of what it goes through. -/
theorem forM {δ : Type} {a : δ → Action DeclarationError Unit} {walk : δ → List Visit}
    (h : ∀ d, Follows (a d) (walk d) ()) (ds : List δ) :
    Follows (ds.forM a) (ds.flatMap walk) () := by
  induction ds with
  | nil => exact pure ()
  | cons d ds ih => exact bind (h d) ih

/-- The action succeeds if and only if no visit is at fault. -/
theorem outcome_eq_ok_iff {a : Action DeclarationError α} {vs : List Visit} {x : α}
    (h : Follows a vs x) (p : Progress) : (a.outcome p).1 = .ok x ↔ verdict vs = .ok () := by
  rw [h p]
  cases verdict vs <;> simp [Except.map]

end Follows

/-! ## The importers -/

namespace Import

theorem addField_follows (m : Message) (d : FieldDecl) :
    Follows (addField m d) [.field d] ((d.field?.map m.addField).getD m) := by
  intro p
  -- The one visit of the walk is at fault if the field cannot be built.
  cases hd : Field.ofDecl d with
  | error e =>
    simp [addField, Action.outcome_bind, hd, verdict, reached, Visit.fault?, FieldDecl.fault?,
      Except.map]
  | ok fe =>
    obtain ⟨f, es⟩ := fe
    simp [addField, Action.outcome_bind, hd, verdict, reached, Visit.fault?, FieldDecl.fault?,
      Visit.perform, FieldDecl.field?, FieldDecl.events, Except.map, Except.toOption,
      -bind_pure_comp]

/-- Building the fields visits them in order. -/
theorem addFields_follows (ds : List FieldDecl) (m : Message) :
    Follows (ds.foldlM addField m) (ds.map .field)
      ((ds.filterMap FieldDecl.field?).foldl Message.addField m) := by
  induction ds generalizing m with
  | nil => exact .pure m
  | cons d ds ih =>
    -- After a fault `ih` speaks of a message that is never built, which does no harm.
    have h := Follows.bind (f := fun m => ds.foldlM addField m) (addField_follows m d) (ih _)
    cases hd : d.field? with
    | none => simpa [hd] using h
    | some f => simpa [hd] using h

theorem foldl_addField (fs : List Field) (m : Message) :
    fs.foldl Message.addField m = { m with fields := fs.foldl Members.push m.fields } := by
  induction fs generalizing m with
  | nil => rfl
  | cons f fs ih => exact ih (m.addField f)

theorem buildMessage_follows (path : String) (d : MessageDecl) :
    Follows (buildMessage path d) (d.fields.map .field) (d.descriptor path) := by
  have h := addFields_follows d.fields (.empty (qualify path d.getName))
  rw [foldl_addField] at h
  exact h

theorem importEnums_follows (path : String) (ds : List EnumDecl) :
    Follows (importEnums path ds) (ds.map (.enum path)) () := by
  refine Follows.modify ?_ ?_
  · intro v hv
    obtain ⟨d, _, rfl⟩ := List.mem_map.mp hv
    rfl
  · intro p
    rw [List.foldl_map]
    rfl

theorem registerMessage_follows (path : String) (d : MessageDecl) :
    Follows (modify (·.registerMessage (d.descriptor path))) [.message path d] () :=
  Follows.modify (by simp [Visit.fault?]) fun _ => rfl

mutual

/-- An import of a message follows its walk. -/
theorem importMessage_follows (path : String) :
    (d : MessageDecl) → Follows (importMessage path d) (d.walk path) ()
  | ⟨name, fields, messages, enums⟩ =>
    Follows.bind (buildMessage_follows path ⟨name, fields, messages, enums⟩)
      (.bind (importMessages_follows _ messages)
        (.bind (importEnums_follows _ enums) (registerMessage_follows path _)))

theorem importMessages_follows (path : String) :
    (ds : List MessageDecl) → Follows (importMessages path ds) (MessageDecl.walkAll path ds) ()
  | [] => Follows.pure ()
  | d :: ds => Follows.bind (importMessage_follows path d) (importMessages_follows path ds)

end

theorem importFile_follows (f : FileDecl) : Follows (importFile f) f.walk () :=
  Follows.bind (importMessages_follows f.path f.messages)
    (.bind (importEnums_follows f.path f.enums)
      (Follows.modify (by simp [Visit.fault?]) fun _ => rfl))

/-- **An import is a walk.** What it does and how it ends is a matter of the files alone. -/
theorem importFiles_follows (fs : List FileDecl) :
    Follows (importFiles fs) (fs.flatMap FileDecl.walk) () :=
  Follows.forM importFile_follows fs

end Import

end SchemaRegistry
