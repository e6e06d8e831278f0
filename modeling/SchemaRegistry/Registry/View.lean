import SchemaRegistry.Registry.Basic

/-!
# Views of field types, and the summary

Reading a field's type follows its reference: a name is looked up anew each time, a handle is an
index. What a registry does not know stays an unresolved reference.
-/

namespace SchemaRegistry

/-- A field's type with its reference followed. -/
structure TypeView where
  kind : Kind
  /-- The reference of the message that the field holds. -/
  message : Option Nat
  /-- The reference of the enum that the field holds. -/
  enum : Option Nat
  /-- The name of a type that is not registered. -/
  typeName : Option String
  deriving DecidableEq

/-- Why a handle cannot be followed. -/
inductive HandleError where
  | outOfRange
  /-- The index does not fit in 64 bits. -/
  | tooLarge
  | missing
  deriving DecidableEq

namespace HandleError

/-- What is said of a handle that leads nowhere. -/
def message : HandleError → String
  | outOfRange => "list index out of range"
  | tooLarge => "cannot fit 'int' into an index-sized integer"
  | missing => "'NoneType' object has no attribute 'index'"

end HandleError

namespace TypeView

/-- A view that follows no reference. -/
def bare (kind : Kind) (typeName : Option String) : TypeView := ⟨kind, none, none, typeName⟩

/-- The view of a field that holds the message at a reference. -/
def ofMessage (ref : Nat) : TypeView := ⟨.message, some ref, none, none⟩

/-- The view of a field that holds the enum at a reference. -/
def ofEnum (ref : Nat) : TypeView := ⟨.enum, none, some ref, none⟩

/-- Whether nothing is left to be looked up. Scalars are resolved as they are. -/
def isResolved (v : TypeView) : Bool := !v.kind.isUnresolved

/-- The name of the message that the field holds, as the store has it now. -/
def messageName? (v : TypeView) (s : Store) : Option String :=
  v.message >>= fun ref => (s.message? ref).map Message.name

/-- The name of the enum that the field holds, as the store has it now. -/
def enumName? (v : TypeView) (s : Store) : Option String :=
  v.enum >>= fun ref => (s.enum? ref).map Enumeration.name

/-- The type as a summary shows it. -/
def describe (v : TypeView) (s : Store) : String :=
  match v.messageName? s, v.enumName? s, v.typeName with
  | some name, _, _ => name
  | none, some name, _ => name
  | none, none, some name => "unresolved " ++ name
  | none, none, none => v.kind.keyword

end TypeView

namespace Catalog

/-- Whether an index fits in 64 bits, sign included. -/
def isIndexSized (index : Int) : Bool := -0x8000000000000000 ≤ index && index < 0x8000000000000000

/-- The reference that a stored handle stands for in this catalog. -/
def follow (c : Catalog) (handle : Option Handle) : Except HandleError Nat :=
  match handle with
  | none => .error .missing
  | some h =>
    match c.at? h.index with
    | some ref => .ok ref
    | none => .error (if isIndexSized h.index then .outOfRange else .tooLarge)

end Catalog

namespace Registry

/-- The view of a stored type in a registry. The kind alone decides which catalog is asked, whatever
the handle says. -/
def view (r : Registry) (t : StoredType) : Except HandleError TypeView :=
  match t.kind with
  | .unresolvedMessage =>
    match t.typeName >>= r.messages.find? with
    -- A reference that was never bound is viewed as if it were.
    | some ref => .ok (.ofMessage ref)
    | none => .ok (.bare t.kind t.typeName)
  | .unresolvedEnum =>
    match t.typeName >>= r.enums.find? with
    | some ref => .ok (.ofEnum ref)
    | none => .ok (.bare t.kind t.typeName)
  | .message => (r.messages.follow t.handle).map .ofMessage
  | .enum => (r.enums.follow t.handle).map .ofEnum
  | .scalar _ => .ok (.bare t.kind none)

/-- The fields of a message, each with the view of its type. -/
def fieldViews (r : Registry) (m : Message) : Except HandleError (List (Field × TypeView)) :=
  m.fields.toList.mapM fun f => do return (f, ← r.view f.type)

/-- A reference that leads nowhere: the message and field that make it, and the name it gives. -/
structure Dangling where
  message : String
  field : String
  typeName : Option String
  deriving DecidableEq

/-- The dangling references of one message, in field order. -/
def danglingOf (r : Registry) (m : Message) : Except HandleError (List Dangling) := do
  let views ← r.fieldViews m
  return views.filterMap fun (f, v) =>
    if v.isResolved then none else some ⟨m.name, f.name, v.typeName⟩

/-- Every dangling reference of the registered messages, in order of registration. -/
def dangling (r : Registry) (s : Store) : Except HandleError (List Dangling) := do
  return (← (r.messageList s).mapM r.danglingOf).flatten

end Registry

/-!
## The summary

A text with a block for each registered message and then for each enum: a header line, a line per
member, and an empty line.
-/

namespace Summary

/-- What is shown of a default behind the name of its field. -/
def defaultText : Option Value → String
  | some v => " [default = " ++ v.text ++ "]"
  | none => ""

/-- The line of a field whose type is read as `v`. -/
def fieldLine (s : Store) (f : Field) (v : TypeView) : String :=
  s!"  {f.number}: " ++ f.label.keyword ++ " " ++ v.describe s ++ " " ++ f.name
    ++ defaultText f.default ++ "\n"

/-- The block of a message; the error if one of its handles leads nowhere. -/
def messageBlock (r : Registry) (s : Store) (m : Message) : Except HandleError String := do
  let views ← r.fieldViews m
  return "message " ++ m.name ++ "\n"
    ++ String.join (views.map fun (f, v) => fieldLine s f v) ++ "\n"

/-- The line of an enum value. -/
def valueLine (v : EnumValue) : String := "  " ++ v.name ++ s!" = {v.number}\n"

/-- The block of an enum. -/
def enumBlock (e : Enumeration) : String :=
  "enum " ++ e.name ++ "\n" ++ String.join (e.values.toList.map valueLine) ++ "\n"

/-- The summary of a registry. -/
def render (r : Registry) (s : Store) : Except HandleError String := do
  let messages ← (r.messageList s).mapM (messageBlock r s)
  return String.join messages ++ String.join ((r.enumList s).map enumBlock)

end Summary

end SchemaRegistry
