/-!
# Declarations

What schema files declare: the trees of messages, enums and fields that a registry imports. Every
scalar property may be left unset; the `get` functions give what reading an unset one gives.
Labels and types are kept by number, as files give them.
-/

namespace SchemaRegistry

/-- A value of an enum. -/
structure EnumValueDecl where
  name : Option String
  number : Option Int
  deriving DecidableEq

/-- An enum with its values, in their order. -/
structure EnumDecl where
  name : Option String
  values : List EnumValueDecl
  deriving DecidableEq

/-- A field. Its type is referred to by name if it is a message or an enum. -/
structure FieldDecl where
  name : Option String
  number : Option Int
  label : Option Int
  type : Option Int
  typeName : Option String
  default : Option String
  proto3Optional : Option Bool
  deriving DecidableEq

/-- A message with the messages and enums declared inside it. -/
structure MessageDecl where
  name : Option String
  fields : List FieldDecl
  messages : List MessageDecl
  enums : List EnumDecl

namespace MessageDecl

mutual

/-- Equality of declarations is decided part by part. -/
def decEq : (a b : MessageDecl) → Decidable (a = b)
  | ⟨n₁, f₁, m₁, e₁⟩, ⟨n₂, f₂, m₂, e₂⟩ =>
    match inferInstanceAs (Decidable (n₁ = n₂)), inferInstanceAs (Decidable (f₁ = f₂)),
      decEqList m₁ m₂, inferInstanceAs (Decidable (e₁ = e₂)) with
    | isTrue hn, isTrue hf, isTrue hm, isTrue he => isTrue (by rw [hn, hf, hm, he])
    | isFalse h, _, _, _ => isFalse fun heq => h (MessageDecl.mk.inj heq).1
    | _, isFalse h, _, _ => isFalse fun heq => h (MessageDecl.mk.inj heq).2.1
    | _, _, isFalse h, _ => isFalse fun heq => h (MessageDecl.mk.inj heq).2.2.1
    | _, _, _, isFalse h => isFalse fun heq => h (MessageDecl.mk.inj heq).2.2.2

/-- Equality of lists of declarations is decided along with that of their elements. -/
def decEqList : (as bs : List MessageDecl) → Decidable (as = bs)
  | [], [] => isTrue rfl
  | [], _ :: _ => isFalse nofun
  | _ :: _, [] => isFalse nofun
  | a :: as, b :: bs =>
    match decEq a b, decEqList as bs with
    | isTrue ha, isTrue has => isTrue (by rw [ha, has])
    | isFalse h, _ => isFalse fun heq => h (List.cons.inj heq).1
    | _, isFalse h => isFalse fun heq => h (List.cons.inj heq).2

end

instance : DecidableEq MessageDecl := decEq

end MessageDecl

/-- A file with the messages and enums at its top level. -/
structure FileDecl where
  name : Option String
  package : Option String
  messages : List MessageDecl
  enums : List EnumDecl
  deriving DecidableEq

/-! ## Reading unset properties -/

namespace EnumValueDecl

/-- Nothing is set. -/
def empty : EnumValueDecl := ⟨none, none⟩

/-- The name, empty if unset. -/
def getName (v : EnumValueDecl) : String := v.name.getD ""

/-- The number, zero if unset. -/
def getNumber (v : EnumValueDecl) : Int := v.number.getD 0

end EnumValueDecl

namespace EnumDecl

/-- No name and no values. -/
def empty : EnumDecl := ⟨none, []⟩

/-- The name, empty if unset. -/
def getName (e : EnumDecl) : String := e.name.getD ""

end EnumDecl

namespace FieldDecl

/-- Nothing is set. -/
def empty : FieldDecl := ⟨none, none, none, none, none, none, none⟩

/-- The name, empty if unset. -/
def getName (f : FieldDecl) : String := f.name.getD ""

/-- The number, zero if unset. -/
def getNumber (f : FieldDecl) : Int := f.number.getD 0

/-- An unset label is the first one, optional. -/
def getLabel (f : FieldDecl) : Int := f.label.getD 1

/-- An unset type is the first one, double. -/
def getType (f : FieldDecl) : Int := f.type.getD 1

/-- The name of the type referred to, empty if unset. -/
def getTypeName (f : FieldDecl) : String := f.typeName.getD ""

/-- Whether the field is marked as optional in the third version of the language. -/
def isProto3Optional (f : FieldDecl) : Bool := f.proto3Optional.getD false

end FieldDecl

namespace MessageDecl

/-- No name and nothing inside. -/
def empty : MessageDecl := ⟨none, [], [], []⟩

/-- The name, empty if unset. -/
def getName (m : MessageDecl) : String := m.name.getD ""

end MessageDecl

namespace FileDecl

/-- No name, no package and nothing inside. -/
def empty : FileDecl := ⟨none, none, [], []⟩

/-- The name, empty if unset. -/
def getName (f : FileDecl) : String := f.name.getD ""

/-- The path under which the types of the file are named. A package that is set but empty still
puts a dot in front. -/
def path (f : FileDecl) : String :=
  match f.package with
  | some package => "." ++ package
  | none => ""

end FileDecl

/-- The full name of a type declared under `path`. -/
def qualify (path name : String) : String := path ++ "." ++ name

end SchemaRegistry
