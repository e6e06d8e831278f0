import SchemaRegistry.Registry.Progress

/-!
# Importing declarations

A declared message is built before the types declared inside it and registered after them, so a
message that cannot be built keeps out everything inside it, while a fault inside leaves what was
registered before and loses the messages around it.
-/

namespace SchemaRegistry.Import

/-- Adds the declared field, and records what becomes of its default. -/
def addField (m : Message) (d : FieldDecl) : Action DeclarationError Message := do
  let (field, events) ← Action.ofExcept (Field.ofDecl d)
  modify (·.noteAll events)
  return m.addField field

/-- The message declared by `d` under `path`, without the types declared inside it. -/
def buildMessage (path : String) (d : MessageDecl) : Action DeclarationError Message :=
  d.fields.foldlM addField (.empty (qualify path d.getName))

/-- Registers the enums declared under `path`. -/
def importEnums (path : String) (ds : List EnumDecl) : Action DeclarationError Unit :=
  modify fun p => ds.foldl (fun p d => p.registerEnum (.ofDecl path d)) p

mutual

/-- Registers the message that is declared under `path`, after all that is declared inside it. -/
def importMessage (path : String) : MessageDecl → Action DeclarationError Unit
  | ⟨name, fields, messages, enums⟩ => do
    let m ← buildMessage path ⟨name, fields, messages, enums⟩
    importMessages m.name messages
    importEnums m.name enums
    modify (·.registerMessage m)

/-- Registers the messages that are declared under `path`, one after another. -/
def importMessages (path : String) : List MessageDecl → Action DeclarationError Unit
  | [] => pure ()
  | d :: ds => do
    importMessage path d
    importMessages path ds

end

/-- Imports one file: its messages, then its own enums. -/
def importFile (f : FileDecl) : Action DeclarationError Unit := do
  importMessages f.path f.messages
  importEnums f.path f.enums
  modify (·.note (.imported f.getName f.messages.length f.enums.length))

/-- Imports files one after another, up to the first fault. -/
def importFiles (fs : List FileDecl) : Action DeclarationError Unit := fs.forM importFile

end SchemaRegistry.Import
