import SchemaRegistry.Proofs.Reading

/-!
# What a reader sees

A reader of messages starts at a message by its name, takes a field by its number, follows the type
of the field to a message, takes a field of that, and so on. On such a `walk` it learns of each
field what a `Sight` holds, names and values but no positions. `Reaches` collects the messages that
the reader comes to in this way.
-/

namespace SchemaRegistry

/-- What a reader sees of a type. -/
structure TypeSight where
  kind : Kind
  /-- The name of the message that it refers to. -/
  message : Option String
  /-- The name and the values of the enum that it refers to. -/
  enum : Option (String × List EnumValue)
  /-- The name of a type that is not registered. -/
  typeName : Option String

/-- What a reader sees of a field. -/
structure Sight where
  name : String
  number : Int
  label : Label
  optional : Bool
  default : Option Value
  type : TypeSight

/-- The sight of a field, given that of its type. -/
def Field.sight (f : Field) (type : TypeSight) : Sight where
  name := f.name
  number := f.number
  label := f.label
  optional := f.optional
  default := f.default
  type := type

/-- Why a walk cannot go on. -/
inductive Obstacle where
  | noMessage
  | noField (number : Int)
  | handle (e : HandleError)

namespace Progress

/-- The sight of a type that reads as `v`. -/
def typeSight (p : Progress) (v : TypeView) : TypeSight where
  kind := v.kind
  message := v.messageName? p.store
  enum := v.enum >>= fun ref => (p.store.enum? ref).map fun e => (e.name, e.values.toList)
  typeName := v.typeName

/-- The sight of a field, if there is one under the number, and the message to which it leads. -/
def lookAt (p : Progress) (number : Int) : Option Field → Except Obstacle (Sight × Option Nat)
  | none => .error (.noField number)
  | some f =>
    match p.registry.view f.type with
    | .error e => .error (.handle e)
    | .ok v => .ok (f.sight (p.typeSight v), v.message)

/-- The sight of the field with a number in the message at a reference. -/
def look (p : Progress) (ref : Nat) (number : Int) : Except Obstacle (Sight × Option Nat) :=
  p.lookAt number (p.store.message? ref >>= fun m => m.fields.findNumber? number)

/-- The walk along the fields with these numbers, from the message to which the last one led. -/
def walkFrom (p : Progress) : Option Nat → List Int → Except Obstacle (List Sight)
  | _, [] => .ok []
  | none, _ :: _ => .error .noMessage
  | some ref, k :: ks =>
    match p.look ref k with
    | .error e => .error e
    | .ok (sight, next) => (p.walkFrom next ks).map fun sights => sight :: sights

/-- The walk from the message of a name. -/
def walk (p : Progress) (name : String) (numbers : List Int) : Except Obstacle (List Sight) :=
  match p.registry.messages.find? name with
  | none => .error .noMessage
  | some ref => p.walkFrom (some ref) numbers

/-- A walk comes to the message at the reference. -/
inductive Reaches (p : Progress) : Nat → Prop where
  | name {n : String} {ref : Nat} (h : p.registry.messages.find? n = some ref) : Reaches p ref
  | field {ref next : Nat} {k : Int} {s : Sight} (h : Reaches p ref)
      (hk : p.look ref k = .ok (s, some next)) : Reaches p next

/-- A resolved field looks like the field before. -/
theorem lookAt_resolveField {p : Progress} (hp : p.Fits) (number : Int) (f? : Option Field) :
    p.lookAt number (f?.map p.registry.resolveField) = p.lookAt number f? := by
  cases f? with
  | none => rfl
  | some f =>
    rw [Option.map_some, lookAt, Registry.view_resolveField hp]
    rfl

end Progress

end SchemaRegistry
