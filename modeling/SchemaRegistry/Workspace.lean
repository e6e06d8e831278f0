import SchemaRegistry.Registry.Import
import SchemaRegistry.Registry.Resolve
import SchemaRegistry.Registry.View

/-!
# Workspaces

Several named registries over one store, and loose descriptors that are kept under ids of their own
and may be registered any number of times. A `Change` is one step of working with them; a step that
fails leaves what it did before failing.
-/

namespace SchemaRegistry

/-- A descriptor kept under an id. -/
inductive Loose where
  | message (ref : Nat)
  | enum (ref : Nat)
  deriving DecidableEq

/-- Registries by name, descriptors by id, and the store that all of them share. -/
structure Workspace where
  store : Store
  registries : Std.HashMap String Registry
  loose : Std.HashMap String Loose

/-- One step of a session. The registry that it works on is named apart from it. -/
inductive Change where
  | importFiles (files : List FileDecl)
  | importMessage (path : String) (message : MessageDecl)
  /-- Puts a registry with these files in the place of the one there was. -/
  | replace (files : List FileDecl)
  | buildMessage (id path : String) (message : MessageDecl)
  | buildEnum (id path : String) (enum : EnumDecl)
  | newMessage (id name : String)
  | newEnum (id name : String)
  | addField (id : String) (field : Field)
  | addValue (id : String) (value : EnumValue)
  | registerMessage (id : String)
  | registerEnum (id : String)
  | resolve

/-- What a successful change gives back. -/
inductive Reply where
  | done
  | message (ref : Nat)
  | enum (ref : Nat)
  | handle (h : Handle)
  deriving DecidableEq

/-- Why a change fails. -/
inductive ChangeError where
  | declaration (e : DeclarationError)
  /-- No message, or no enum, is kept under the id. -/
  | unknownId (id : String)
  deriving DecidableEq

/-- What a change comes to: the workspace after it, what was noted on the way, and its reply. -/
structure Outcome where
  workspace : Workspace
  events : List Event
  reply : Except ChangeError Reply

namespace Workspace

/-- Nothing is stored, registered or kept. -/
def empty : Workspace := ⟨.empty, ∅, ∅⟩

/-- The registry of a name; an empty one until something is put into it. -/
def registry (w : Workspace) (name : String) : Registry := w.registries.getD name .empty

/-- Puts a registry under a name, in the place of the one there was. -/
def setRegistry (w : Workspace) (name : String) (r : Registry) : Workspace :=
  { w with registries := w.registries.insert name r }

/-- The message kept under an id; none if the id is unknown or stands for an enum. -/
def messageRef? (w : Workspace) (id : String) : Option Nat :=
  match w.loose[id]? with
  | some (.message ref) => some ref
  | _ => none

/-- The enum kept under an id; none if the id is unknown or stands for a message. -/
def enumRef? (w : Workspace) (id : String) : Option Nat :=
  match w.loose[id]? with
  | some (.enum ref) => some ref
  | _ => none

/-- Adds a message to the store and keeps it under an id, whatever the id stood for. -/
def keepMessage (w : Workspace) (id : String) (m : Message) : Workspace :=
  { w with
    store := w.store.addMessage m
    loose := w.loose.insert id (.message w.store.messages.size) }

/-- Adds an enum to the store and keeps it under an id, whatever the id stood for. -/
def keepEnum (w : Workspace) (id : String) (e : Enumeration) : Workspace :=
  { w with
    store := w.store.addEnum e
    loose := w.loose.insert id (.enum w.store.enums.size) }

/-! ## Changes -/

/-- The fresh progress of a step on the registry of a name. -/
def start (w : Workspace) (name : String) : Progress := .start w.store (w.registry name)

/-- The workspace after a step on the registry of a name. -/
def finish (w : Workspace) (name : String) (p : Progress) : Workspace :=
  { w with store := p.store }.setRegistry name p.registry

/-- Runs an import on the registry of a name and keeps what it did, also when it fails. -/
def runImport (w : Workspace) (name : String) (a : Action DeclarationError Unit) : Outcome :=
  let (result, p) := a.outcome (w.start name)
  { workspace := w.finish name p
    events := p.events.toList
    reply := (result.mapError .declaration).map fun _ => .done }

/-- Puts a registry with these files in the place of the one there was, unless the import fails.
Then the old one stays, but the store keeps what was built. -/
def replaceRegistry (w : Workspace) (name : String) (files : List FileDecl) : Outcome :=
  let (result, p) := (Import.importFiles files).outcome (.start w.store .empty)
  match result with
  | .ok _ => ⟨w.finish name p, p.events.toList, .ok .done⟩
  | .error e => ⟨{ w with store := p.store }, p.events.toList, .error (.declaration e)⟩

/-- Keeps the message that is declared, without the types declared inside it; nothing is kept if it
cannot be built. -/
def buildMessage (w : Workspace) (id path : String) (d : MessageDecl) : Outcome :=
  let (result, p) := (Import.buildMessage path d).outcome (.start w.store .empty)
  match result with
  | .ok m => ⟨w.keepMessage id m, p.events.toList, .ok (.message w.store.messages.size)⟩
  | .error e => ⟨w, p.events.toList, .error (.declaration e)⟩

/-- A change that cannot fail and tells nothing. -/
def quietly (w : Workspace) (reply : Reply) : Outcome := ⟨w, [], .ok reply⟩

/-- A change about an id under which there is no descriptor of the kind. -/
def unknown (w : Workspace) (id : String) : Outcome := ⟨w, [], .error (.unknownId id)⟩

/-- Adds a field to the message kept under an id, wherever that message is registered. -/
def addField (w : Workspace) (id : String) (f : Field) : Outcome :=
  match w.messageRef? id with
  | some ref => { w with store := w.store.updateMessage ref (·.addField f) }.quietly .done
  | none => w.unknown id

/-- Adds a value to the enum kept under an id, wherever that enum is registered. -/
def addValue (w : Workspace) (id : String) (v : EnumValue) : Outcome :=
  match w.enumRef? id with
  | some ref => { w with store := w.store.updateEnum ref (·.addValue v) }.quietly .done
  | none => w.unknown id

/-- Registers the message kept under an id, under the name that it has now. -/
def registerMessage (w : Workspace) (name id : String) : Outcome :=
  match w.messageRef? id with
  | some ref =>
    let r := w.registry name
    let label := ((w.store.message? ref).map Message.name).getD ""
    (w.setRegistry name (r.addMessage label ref)).quietly (.handle (.message r.messages.size))
  | none => w.unknown id

/-- Registers the enum kept under an id, under the name that it has now. -/
def registerEnum (w : Workspace) (name id : String) : Outcome :=
  match w.enumRef? id with
  | some ref =>
    let r := w.registry name
    let label := ((w.store.enum? ref).map Enumeration.name).getD ""
    (w.setRegistry name (r.addEnum label ref)).quietly (.handle (.enum r.enums.size))
  | none => w.unknown id

/-- Runs the resolution pass on the registry of a name. -/
def resolve (w : Workspace) (name : String) : Outcome :=
  let p := (w.start name).resolve
  ⟨w.finish name p, p.events.toList, .ok .done⟩

/-- One step on the registry of a name. -/
def apply (w : Workspace) (name : String) : Change → Outcome
  | .importFiles files => w.runImport name (Import.importFiles files)
  | .importMessage path d => w.runImport name (Import.importMessage path d)
  | .replace files => w.replaceRegistry name files
  | .buildMessage id path d => w.buildMessage id path d
  | .buildEnum id path d => (w.keepEnum id (.ofDecl path d)).quietly (.enum w.store.enums.size)
  | .newMessage id label => (w.keepMessage id (.empty label)).quietly .done
  | .newEnum id label => (w.keepEnum id (.empty label)).quietly .done
  | .addField id f => w.addField id f
  | .addValue id v => w.addValue id v
  | .registerMessage id => w.registerMessage name id
  | .registerEnum id => w.registerEnum name id
  | .resolve => w.resolve name

/-! ## Look-ups -/

/-- How a descriptor is picked out. -/
inductive Pick where
  | loose (id : String)
  | index (i : Int)
  | named (name : String)

/-- The message picked in the registry of a name; none if no message has the name or id picked. -/
def pickMessage (w : Workspace) (name : String) : Pick → Except HandleError (Option Message)
  | .loose id => .ok (w.messageRef? id >>= w.store.message?)
  | .index i => do
    let ref ← (w.registry name).messages.follow (some (.message i))
    return w.store.message? ref
  | .named label => .ok ((w.registry name).messages.find? label >>= w.store.message?)

/-- The enum picked in the registry of a name; none if no enum has the name or id picked. -/
def pickEnum (w : Workspace) (name : String) : Pick → Except HandleError (Option Enumeration)
  | .loose id => .ok (w.enumRef? id >>= w.store.enum?)
  | .index i => do
    let ref ← (w.registry name).enums.follow (some (.enum i))
    return w.store.enum? ref
  | .named label => .ok ((w.registry name).enums.find? label >>= w.store.enum?)

end Workspace

/-- How a member of a message or enum is picked out. -/
inductive MemberKey where
  | name (s : String)
  | number (n : Int)

/-- The member that a key picks out. -/
def Members.find? {α : Type} [Member α] (ms : Members α) : MemberKey → Option α
  | .name s => ms.findName? s
  | .number n => ms.findNumber? n

end SchemaRegistry
