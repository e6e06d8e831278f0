/-!
# Field types

The cardinality labels and the types a field can have. A reference to a message or enum is stored
either by name, unresolved, or as a handle: a position in the registry that the field belongs to.
-/

namespace SchemaRegistry

/-! ## Labels -/

/-- How many values a field has. -/
inductive Label where
  | optional
  | required
  | repeated
  deriving DecidableEq

namespace Label

/-- The label with the given number in a field declaration. -/
def ofNumber? (n : Int) : Option Label :=
  if n = 1 then some .optional
  else if n = 2 then some .required
  else if n = 3 then some .repeated
  else none

/-- The label's keyword in a schema source. -/
def keyword : Label → String
  | optional => "optional"
  | required => "required"
  | repeated => "repeated"

end Label

/-! ## Kinds -/

/-- The types that stand for themselves. -/
inductive Scalar where
  | double | float
  | int64 | uint64 | int32
  | fixed64 | fixed32
  | bool | string | group | bytes
  | uint32
  | sfixed32 | sfixed64
  | sint32 | sint64
  deriving DecidableEq

namespace Scalar

/-- The scalar type with the given number in a field declaration. -/
def ofNumber? (n : Int) : Option Scalar :=
  if n = 1 then some .double
  else if n = 2 then some .float
  else if n = 3 then some .int64
  else if n = 4 then some .uint64
  else if n = 5 then some .int32
  else if n = 6 then some .fixed64
  else if n = 7 then some .fixed32
  else if n = 8 then some .bool
  else if n = 9 then some .string
  else if n = 10 then some .group
  else if n = 12 then some .bytes
  else if n = 13 then some .uint32
  else if n = 15 then some .sfixed32
  else if n = 16 then some .sfixed64
  else if n = 17 then some .sint32
  else if n = 18 then some .sint64
  else none

/-- The type's keyword in a schema source. -/
def keyword : Scalar → String
  | double => "double"
  | float => "float"
  | int64 => "int64"
  | uint64 => "uint64"
  | int32 => "int32"
  | fixed64 => "fixed64"
  | fixed32 => "fixed32"
  | bool => "bool"
  | string => "string"
  | group => "group"
  | bytes => "bytes"
  | uint32 => "uint32"
  | sfixed32 => "sfixed32"
  | sfixed64 => "sfixed64"
  | sint32 => "sint32"
  | sint64 => "sint64"

end Scalar

/-- The kind of a field's type: a scalar, or a reference to a message or an enum, by name or as a
handle. -/
inductive Kind where
  | unresolvedMessage
  | unresolvedEnum
  | message
  | enum
  | scalar (s : Scalar)
  deriving DecidableEq

namespace Kind

/-- Whether the kind is that of a reference not yet turned into a handle. -/
def isUnresolved : Kind → Bool
  | unresolvedMessage | unresolvedEnum => true
  | _ => false

/-- Whether the kind is that of a type which stands for itself. -/
def isScalar : Kind → Bool
  | scalar _ => true
  | _ => false

/-- The kind's name in lower case. -/
def keyword : Kind → String
  | unresolvedMessage => "unresolved_message"
  | unresolvedEnum => "unresolved_enum"
  | message => "message"
  | enum => "enum"
  | scalar s => s.keyword

/-- The kind's name in upper case. -/
def name (k : Kind) : String := k.keyword.toUpper

end Kind

/-- A kind is used as a scalar although it stands for a reference. -/
structure NotScalar where
  kind : Kind
  deriving DecidableEq

/-- What is said of such a use. -/
def NotScalar.message (e : NotScalar) : String := e.kind.name ++ " is not a scalar field kind"

/-! ## Stored types -/

/-- A position among the messages or among the enums of a registry. A negative one counts back from
the end. -/
inductive Handle where
  | message (index : Int)
  | enum (index : Int)
  deriving DecidableEq

namespace Handle

/-- The position, whatever it is a position among. -/
def index : Handle → Int
  | message i => i
  | enum i => i

end Handle

/-- A field's type as the field stores it. Types put together by hand may carry a name or a handle
that their kind has no use for. -/
structure StoredType where
  kind : Kind
  typeName : Option String
  handle : Option Handle
  deriving DecidableEq

namespace StoredType

/-- A type that stands for itself. -/
def scalar (s : Scalar) : StoredType := ⟨.scalar s, none, none⟩

/-- A reference to a message by name. -/
def unresolvedMessage (name : String) : StoredType := ⟨.unresolvedMessage, some name, none⟩

/-- A reference to an enum by name. -/
def unresolvedEnum (name : String) : StoredType := ⟨.unresolvedEnum, some name, none⟩

/-- A reference to the message at a position of the registry. -/
def message (index : Nat) : StoredType := ⟨.message, none, some (.message index)⟩

/-- A reference to the enum at a position of the registry. -/
def enum (index : Nat) : StoredType := ⟨.enum, none, some (.enum index)⟩

/-- The type that a field declaration gives by number, with the name it refers to. -/
def ofNumber? (n : Int) (typeName : String) : Option StoredType :=
  if n = 11 then some (unresolvedMessage typeName)
  else if n = 14 then some (unresolvedEnum typeName)
  else (Scalar.ofNumber? n).map scalar

/-- The type of a kind that needs neither name nor handle. -/
def ofKind : Kind → Except NotScalar StoredType
  | .scalar s => .ok (scalar s)
  | kind => .error ⟨kind⟩

end StoredType

end SchemaRegistry
