import SchemaRegistry.Proofs.Growth
import SchemaRegistry.Proofs.Session

/-!
# An import flattens the declared trees

What a successful import adds to a registry can be read off the declared trees, without following
the importer. `flatten` lists the messages of a tree with all that is inside a message before the
message itself, and `flattenEnums` the enums, those of the inner messages first. Both note where a
declaration stands: the path of its file, and the names of the messages around it.

`import_flattens` says that an import appends the two lists to those of the registry and leaves
everything that was there as it was. It holds for any registry that a session can come to, and for
trees of any depth in which names may repeat.
-/

namespace SchemaRegistry

/-- Where a declaration stands: the path of its file, and the names of the messages around it, from
the outside in. -/
structure Site where
  root : String
  scope : List String

namespace Site

/-- The path of the file, and a dot and the name of each message around. -/
def path (s : Site) : String := s.scope.foldl (fun path name => path ++ "." ++ name) s.root

/-- The site of what is declared inside a message of this name. -/
def inside (s : Site) (name : String) : Site := { s with scope := s.scope ++ [name] }

/-- The path inside a message is its full name. -/
theorem path_inside (s : Site) (name : String) : (s.inside name).path = qualify s.path name := by
  unfold path inside
  rw [List.foldl_append]
  rfl

end Site

/-! ## The two flattenings -/

mutual

/-- The messages declared inside `d`, and then `d`. -/
def MessageDecl.flatten (s : Site) : MessageDecl → List (Site × MessageDecl)
  | ⟨name, fields, messages, enums⟩ =>
    MessageDecl.flattenAll (s.inside (name.getD "")) messages
      ++ [(s, ⟨name, fields, messages, enums⟩)]

/-- Messages that are declared at one site, each behind those declared inside it. -/
def MessageDecl.flattenAll (s : Site) : List MessageDecl → List (Site × MessageDecl)
  | [] => []
  | d :: ds => d.flatten s ++ MessageDecl.flattenAll s ds

end

mutual

/-- The enums declared inside the messages of `d`, and then those of `d` itself. -/
def MessageDecl.flattenEnums (s : Site) : MessageDecl → List (Site × EnumDecl)
  | ⟨name, _, messages, enums⟩ =>
    MessageDecl.flattenEnumsAll (s.inside (name.getD "")) messages
      ++ enums.map fun e => (s.inside (name.getD ""), e)

/-- The enums declared inside messages at one site. -/
def MessageDecl.flattenEnumsAll (s : Site) : List MessageDecl → List (Site × EnumDecl)
  | [] => []
  | d :: ds => d.flattenEnums s ++ MessageDecl.flattenEnumsAll s ds

end

namespace FileDecl

/-- The outside of a file, where no message is around. -/
def site (f : FileDecl) : Site := ⟨f.path, []⟩

/-- The messages of a file, each behind those declared inside it. -/
def flatten (f : FileDecl) : List (Site × MessageDecl) := MessageDecl.flattenAll f.site f.messages

/-- The enums of the messages, and then those of the file. -/
def flattenEnums (f : FileDecl) : List (Site × EnumDecl) :=
  MessageDecl.flattenEnumsAll f.site f.messages ++ f.enums.map fun e => (f.site, e)

end FileDecl

/-! ## The walk visits what the flattenings list -/

/-- The declaration with the path that its site comes to. -/
def Site.named {α : Type} (sd : Site × α) : String × α := (sd.1.path, sd.2)

theorem filterMap_message?_map {α : Type} {v : α → Visit} (h : ∀ a, (v a).message? = none)
    (l : List α) : (l.map v).filterMap Visit.message? = [] := by
  rw [List.filterMap_map, List.filterMap_eq_nil_iff]
  exact fun a _ => h a

theorem filterMap_enum?_fields (ds : List FieldDecl) :
    (ds.map Visit.field).filterMap Visit.enum? = [] := by
  rw [List.filterMap_map, List.filterMap_eq_nil_iff]
  exact fun _ _ => rfl

theorem filterMap_enum?_enums (s : Site) (es : List EnumDecl) :
    (es.map (Visit.enum s.path)).filterMap Visit.enum?
      = (es.map fun e => (s, e)).map Site.named := by
  rw [List.filterMap_map, List.map_map]
  exact congrFun List.filterMap_eq_map es

mutual

/-- The messages visited on a walk are those of the flattening. -/
theorem messages_walk (s : Site) :
    (d : MessageDecl) → (d.walk s.path).filterMap Visit.message? = (d.flatten s).map Site.named
  | ⟨name, fields, messages, enums⟩ => by
    -- The visits to the fields and to the enums register no message.
    rw [MessageDecl.walk, MessageDecl.flatten, ← Site.path_inside, List.filterMap_append,
      List.filterMap_append, List.filterMap_append, filterMap_message?_map (fun _ => rfl),
      filterMap_message?_map (fun _ => rfl), messages_walkAll, List.map_append]
    rfl

theorem messages_walkAll (s : Site) :
    (ds : List MessageDecl) → (MessageDecl.walkAll s.path ds).filterMap Visit.message?
      = (MessageDecl.flattenAll s ds).map Site.named
  | [] => rfl
  | d :: ds => by
    rw [MessageDecl.walkAll, MessageDecl.flattenAll, List.filterMap_append, List.map_append,
      messages_walk, messages_walkAll]

end

mutual

/-- The enums visited on a walk are those of the flattening. -/
theorem enums_walk (s : Site) :
    (d : MessageDecl) → (d.walk s.path).filterMap Visit.enum? = (d.flattenEnums s).map Site.named
  | ⟨name, fields, messages, enums⟩ => by
    rw [MessageDecl.walk, MessageDecl.flattenEnums, ← Site.path_inside, List.filterMap_append,
      List.filterMap_append, List.filterMap_append, filterMap_enum?_fields, enums_walkAll,
      filterMap_enum?_enums, List.map_append]
    simp [Visit.enum?]

theorem enums_walkAll (s : Site) :
    (ds : List MessageDecl) → (MessageDecl.walkAll s.path ds).filterMap Visit.enum?
      = (MessageDecl.flattenEnumsAll s ds).map Site.named
  | [] => rfl
  | d :: ds => by
    rw [MessageDecl.walkAll, MessageDecl.flattenEnumsAll, List.filterMap_append, List.map_append,
      enums_walk, enums_walkAll]

end

/-- **The walk through files visits the flattening of their messages**, in its order. -/
theorem messages_files (fs : List FileDecl) :
    (fs.flatMap FileDecl.walk).filterMap Visit.message?
      = (fs.flatMap FileDecl.flatten).map Site.named := by
  induction fs with
  | nil => rfl
  | cons f fs ih =>
    -- A file contributes what its messages do; its enums are visits of another kind.
    have hfile : f.walk.filterMap Visit.message? = f.flatten.map Site.named := by
      have h : (MessageDecl.walkAll f.path f.messages).filterMap Visit.message?
          = f.flatten.map Site.named := messages_walkAll f.site f.messages
      rw [FileDecl.walk, List.filterMap_append, List.filterMap_append, h,
        filterMap_message?_map (fun _ => rfl)]
      simp [Visit.message?]
    rw [List.flatMap_cons, List.flatMap_cons, List.filterMap_append, List.map_append, hfile, ih]

/-- The same goes for the enums of the files. -/
theorem enums_files (fs : List FileDecl) :
    (fs.flatMap FileDecl.walk).filterMap Visit.enum?
      = (fs.flatMap FileDecl.flattenEnums).map Site.named := by
  induction fs with
  | nil => rfl
  | cons f fs ih =>
    -- Here the enums of the file come in addition, behind those of its messages.
    have hfile : f.walk.filterMap Visit.enum? = f.flattenEnums.map Site.named := by
      have h : (MessageDecl.walkAll f.path f.messages).filterMap Visit.enum?
          = (MessageDecl.flattenEnumsAll f.site f.messages).map Site.named :=
        enums_walkAll f.site f.messages
      have he : (f.enums.map (Visit.enum f.path)).filterMap Visit.enum?
          = (f.enums.map fun e => (f.site, e)).map Site.named :=
        filterMap_enum?_enums f.site f.enums
      rw [FileDecl.walk, FileDecl.flattenEnums, List.filterMap_append, List.filterMap_append, h, he,
        List.map_append]
      simp [Visit.enum?]
    rw [List.flatMap_cons, List.flatMap_cons, List.filterMap_append, List.map_append, hfile, ih]

/-! ## What a successful import registers -/

/-- The messages that a walk registers are those that the flattening lists. -/
theorem declared_messages {fs : List FileDecl}
    (h : Walk.verdict (fs.flatMap FileDecl.walk) = .ok ()) :
    List.Forall₂ (fun sd m => Message.Declared sd.1.path sd.2 m) (fs.flatMap FileDecl.flatten)
      ((fs.flatMap FileDecl.walk).flatMap Visit.messages) := by
  have hreg := Walk.declared_reached (Walk.fieldsFirst_files fs)
  rw [Walk.reached_eq_self h, messages_files, List.forall₂_map_left_iff] at hreg
  exact hreg

/-- Each enum of the flattening is registered as it is declared. -/
theorem declared_enums (fs : List FileDecl) :
    List.Forall₂ (fun sd e => Enumeration.Declared sd.1.path sd.2 e)
      (fs.flatMap FileDecl.flattenEnums) ((fs.flatMap FileDecl.walk).flatMap Visit.enums) := by
  rw [Visit.flatMap_enums, enums_files, List.map_map, List.forall₂_map_right_iff,
    List.forall₂_same]
  exact fun sd _ => Enumeration.declared_ofDecl sd.1.path sd.2

/-- The names are those of the declarations, after the path of the site. -/
theorem names_of_declared {sds : List (Site × MessageDecl)} {ms : List Message}
    (h : List.Forall₂ (fun sd m => Message.Declared sd.1.path sd.2 m) sds ms) :
    ms.map Message.name = sds.map fun sd => qualify sd.1.path sd.2.getName :=
  map_eq_of_forall₂ (fun _ _ hm => hm.1) h

/-! ## Imports in a session -/

namespace Workspace

/-- An import changes the workspace by the visits that it reaches. -/
theorem runImport_workspace (w : Workspace) (name : String) (files : List FileDecl) :
    (w.apply name (.importFiles files)).workspace = w.finish name
      ((Walk.reached (files.flatMap FileDecl.walk)).foldl Visit.perform (w.start name)) := by
  show w.finish name ((Import.importFiles files).outcome (w.start name)).2 = _
  rw [Import.importFiles_follows files (w.start name)]

/-- An import that succeeds has met no fault. -/
theorem verdict_of_reply {w : Workspace} {name : String} {files : List FileDecl}
    (h : (w.apply name (.importFiles files)).reply = .ok .done) :
    Walk.verdict (files.flatMap FileDecl.walk) = .ok () := by
  have h' : (((Import.importFiles files).outcome (w.start name)).1.mapError
      ChangeError.declaration).map (fun _ => Reply.done) = .ok .done := h
  rw [Import.importFiles_follows files (w.start name)] at h'
  cases hv : Walk.verdict (files.flatMap FileDecl.walk) with
  | ok u => rfl
  | error e => rw [hv] at h'; cases h'

/--
**An import flattens the declared trees.**

A successful import of files into any registry that a session has come to appends one message for
each message declared at any depth and one enum for each enum, in the order of the flattenings. What
was registered before stays in its place and as it is, and under each name the last registration of
all is found.
-/
theorem import_flattens (session : List (String × Change)) (name : String)
    (files : List FileDecl)
    (hok : ((after session).apply name (.importFiles files)).reply = .ok .done) :
    let w := after session
    let w' := (w.apply name (.importFiles files)).workspace
    let r := w.registry name
    let r' := w'.registry name
    (∃ ms, r'.messageList w'.store = r.messageList w.store ++ ms
        ∧ List.Forall₂ (fun sd m => Message.Declared sd.1.path sd.2 m)
            (files.flatMap FileDecl.flatten) ms)
      ∧ (∃ es, r'.enumList w'.store = r.enumList w.store ++ es
        ∧ List.Forall₂ (fun sd e => Enumeration.Declared sd.1.path sd.2 e)
            (files.flatMap FileDecl.flattenEnums) es)
      ∧ r.messages.toList <+: r'.messages.toList
      ∧ r.enums.toList <+: r'.enums.toList
      ∧ w.store.Keeps w'.store
      ∧ (∀ n, (r'.messages.find? n >>= w'.store.message?)
          = (r'.messageList w'.store).reverse.find? fun m => m.name = n)
      ∧ (∀ n, (r'.enums.find? n >>= w'.store.enum?)
          = (r'.enumList w'.store).reverse.find? fun e => e.name = n) := by
  intro w w' r r'
  have hverdict := verdict_of_reply hok
  have hw : w.Sound := sound_after session
  have hw' : w'.Sound := sound_apply hw name _
  have hreach : w' = w.finish name
      ((files.flatMap FileDecl.walk).foldl Visit.perform (w.start name)) := by
    have h := runImport_workspace w name files
    rwa [Walk.reached_eq_self hverdict] at h
  have hr' : r' = ((files.flatMap FileDecl.walk).foldl Visit.perform (w.start name)).registry := by
    show w'.registry name = _
    rw [hreach, registry_finish]
  have happ := Progress.Appends.performAll (files.flatMap FileDecl.walk) (w.start name)
  have hlead := Progress.leads_performAll (files.flatMap FileDecl.walk) (w.start name)
  have hfit : (w.start name).Fits := hw.registries name
  -- The lists are appended to because the old registry fits; what is found by name is read off the
  -- new registry, which fits as well.
  refine ⟨⟨_, ?_, declared_messages hverdict⟩, ⟨_, ?_, declared_enums files⟩, ?_, ?_, ?_, ?_, ?_⟩
  · rw [hr', hreach]; exact happ.messages hfit
  · rw [hr', hreach]; exact happ.enums hfit
  · rw [hr']; exact hlead.messages
  · rw [hr']; exact hlead.enums
  · rw [hreach]; exact happ.kept
  · exact fun n => (hw'.registries name).messages.find?_bind n
  · exact fun n => (hw'.registries name).enums.find?_bind n

/-- A file with a message inside another, and enums at each level. -/
def nestedSample : FileDecl where
  name := some "shop.proto"
  package := some "shop"
  messages :=
    [{ name := some "Order"
       fields := [{ FieldDecl.empty with
         name := some "lines", number := some 1, label := some 3, type := some 11
         typeName := some ".shop.Order.Line" }]
       messages := [{ MessageDecl.empty with
         name := some "Line", enums := [⟨some "Unit", [⟨some "PIECE", some 0⟩]⟩] }]
       enums := [⟨some "State", [⟨some "OPEN", none⟩]⟩] }]
  enums := [⟨some "Currency", []⟩]

/-- Imported once more into a registry that has it, the file adds its messages a second time. -/
theorem import_flattens_nestedSample :
    let session := [("main", Change.importFiles [nestedSample])]
    let w := after session
    let w' := (w.apply "main" (.importFiles [nestedSample])).workspace
    (w.apply "main" (.importFiles [nestedSample])).reply = .ok .done
      ∧ ∃ ms, (w'.registry "main").messageList w'.store
          = (w.registry "main").messageList w.store ++ ms
        ∧ ms.map Message.name = [".shop.Order.Line", ".shop.Order"] := by
  intro session w w'
  obtain ⟨⟨ms, happ, hms⟩, _⟩ := import_flattens session "main" [nestedSample] rfl
  exact ⟨rfl, ms, happ, (names_of_declared hms).trans (by decide)⟩

end Workspace

end SchemaRegistry
