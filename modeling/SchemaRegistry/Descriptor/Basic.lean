import SchemaRegistry.Declaration
import SchemaRegistry.Descriptor.Members
import SchemaRegistry.Event
import SchemaRegistry.FieldType

/-!
# Descriptors

The types that a registry holds, built from declarations. A message is built with its own fields
alone; the types declared inside it are separate descriptors. A field whose default does not fit its
type is built without one, which the events report; other faults make the whole message fail.
-/

namespace SchemaRegistry

/-- Why a declaration cannot be made into a descriptor. -/
inductive DeclarationError where
  | unknownLabel (number : Int)
  | unknownType (number : Int)
  | groupDefault
  | tooManyDigits (count : Nat)
  deriving DecidableEq

namespace DeclarationError

/-- What is said of a declaration that fails. -/
def message : DeclarationError → String
  | unknownLabel n => s!"Unknown field label {n}"
  | unknownType n => s!"Unknown field type {n}"
  | groupDefault => DefaultError.group.message
  | tooManyDigits count => (DefaultError.tooManyDigits count).message

end DeclarationError

/-! ## Enums -/

/-- A value of an enum. -/
structure EnumValue where
  name : String
  number : Int
  deriving DecidableEq

instance : Member EnumValue := ⟨EnumValue.name, EnumValue.number⟩

/-- An enum by its full name. -/
structure Enumeration where
  name : String
  values : Members EnumValue

namespace Enumeration

/-- An enum without values. -/
def empty (name : String) : Enumeration := ⟨name, .empty⟩

/-- Adds a value behind those that there are. -/
def addValue (e : Enumeration) (v : EnumValue) : Enumeration :=
  { e with values := e.values.push v }

/-- The enum declared by `d` under `path`. -/
def ofDecl (path : String) (d : EnumDecl) : Enumeration where
  name := qualify path d.getName
  values := .ofList (d.values.map fun v => ⟨v.getName, v.getNumber⟩)

end Enumeration

/-! ## Messages -/

/-- A field of a message. -/
structure Field where
  name : String
  number : Int
  label : Label
  type : StoredType
  default : Option Value
  /-- Whether the presence of the field is tracked. -/
  optional : Bool
  deriving DecidableEq

instance : Member Field := ⟨Field.name, Field.number⟩

namespace Field

/-- What becomes of the default text of a field: a value, or none and the event that says so. -/
def readDefault (name : String) (type : StoredType) (text : Option String) :
    Except DeclarationError (Option Value × List Event) :=
  match text with
  | none => .ok (none, [])
  | some s =>
    match Default.parse s type with
    | .ok v => .ok (some v, [])
    -- A text that does not fit is dropped with a note; the other faults end the import.
    | .error (.badText bad) => .ok (none, [.discardedDefault name bad])
    | .error .group => .error .groupDefault
    | .error (.tooManyDigits count) => .error (.tooManyDigits count)

/-- The field that `d` declares. An unknown label is reported before an unknown type, and both
before a bad default. -/
def ofDecl (d : FieldDecl) : Except DeclarationError (Field × List Event) := do
  let some label := Label.ofNumber? d.getLabel | throw (.unknownLabel d.getLabel)
  let some type := StoredType.ofNumber? d.getType d.getTypeName | throw (.unknownType d.getType)
  let (default, events) ← readDefault d.getName type d.default
  return ({ name := d.getName
            number := d.getNumber
            label
            type
            default
            optional := d.isProto3Optional || label = .optional }, events)

end Field

/-- A message by its full name. -/
structure Message where
  name : String
  fields : Members Field

namespace Message

/-- A message without fields. -/
def empty (name : String) : Message := ⟨name, .empty⟩

/-- Adds a field behind those that there are. -/
def addField (m : Message) (f : Field) : Message := { m with fields := m.fields.push f }

end Message

end SchemaRegistry
