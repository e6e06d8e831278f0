import Mathlib.Data.List.Forall2
import SchemaRegistry.Proofs.Framing
import SchemaRegistry.Proofs.Payloads
import SchemaRegistry.Wire.FileSet

/-!
# Bytes that hold a declaration

A message holds a declaration if it is framed and has, for each property that is set, one field
with the number of the property, and for each list the fields of its entries in order. Properties
may come in any order. Whatever else is among the fields, a field with another number or with
another kind of payload, is no part of that, and neither are groups. The entries of a list hold
declarations in their turn, with one level of nesting less.
-/

namespace SchemaRegistry.Wire

/-! ## Properties -/

/-- The text is in the one field with its number. There is no such field if it is unset. -/
def TextAt (number : Nat) (s : Option String) (fields : List RawField) : Prop :=
  delimiteds number fields = (s.map Text.Utf8.ofString).toList

/-- The number, if it is set, has 32 bits. -/
def IsInt32 (n : Option Int) : Prop := ∀ i, n = some i → -0x80000000 ≤ i ∧ i < 0x80000000

/-- The number, if it is set, is one from `1` to `last`. -/
def IsClosed (last : Int) (n : Option Int) : Prop := ∀ i, n = some i → 1 ≤ i ∧ i ≤ last

/-- A number of 32 bits is written in 64 as its two's complement. -/
def IntAt (number : Nat) (n : Option Int) (fields : List RawField) : Prop :=
  IsInt32 n ∧ varints number fields = (n.map fun i => (i % 0x10000000000000000).toNat).toList

/-- The number, if it is set, is one from `1` to `last`, and it is where its field is. -/
def ClosedAt (number : Nat) (last : Int) (n : Option Int) (fields : List RawField) : Prop :=
  IsClosed last n ∧ IntAt number n fields

/-- The flag is in the one field with its number. There is no such field if it is unset. -/
def FlagAt (number : Nat) (b : Option Bool) (fields : List RawField) : Prop :=
  varints number fields = (b.map Bool.toNat).toList

/-- The entries of a list are in the fields with its number, in order. -/
def ListAt {α : Type} (number : Nat) (holds : α → List UInt8 → Prop) (entries : List α)
    (fields : List RawField) : Prop :=
  List.Forall₂ holds entries (delimiteds number fields)

/-- The bytes are framed, and `holds` is true of their fields. `depth` counts the levels allowed,
this one included, and `holds` gets those allowed below. -/
def Holds (depth : Nat) (bytes : List UInt8) (holds : Nat → List RawField → Prop) : Prop :=
  match depth with
  | 0 => False
  | inner + 1 => ∃ fields, Framed inner fields bytes ∧ holds inner fields

/-- The bytes hold the value. -/
def HoldsEnumValue (depth : Nat) (v : EnumValueDecl) (bytes : List UInt8) : Prop :=
  Holds depth bytes fun _ fields => TextAt 1 v.name fields ∧ IntAt 2 v.number fields

/-- The bytes hold the enum with its values, among fields of other numbers. -/
def HoldsEnum (depth : Nat) (e : EnumDecl) (bytes : List UInt8) : Prop :=
  Holds depth bytes fun inner fields =>
    TextAt 1 e.name fields ∧ ListAt 2 (HoldsEnumValue inner) e.values fields

/-- The fields hold each property that is set, and none that is not. -/
structure FieldAt (d : FieldDecl) (fields : List RawField) : Prop where
  name : TextAt 1 d.name fields
  number : IntAt 3 d.number fields
  label : ClosedAt 4 3 d.label fields
  type : ClosedAt 5 18 d.type fields
  typeName : TextAt 6 d.typeName fields
  default : TextAt 7 d.default fields
  proto3Optional : FlagAt 17 d.proto3Optional fields

/-- The bytes hold the field. -/
def HoldsField (depth : Nat) (d : FieldDecl) (bytes : List UInt8) : Prop :=
  Holds depth bytes fun _ => FieldAt d

/-- The fields hold a message, given what it is for bytes to hold a message inside it. -/
structure MessageAt (holdsNested : MessageDecl → List UInt8 → Prop) (depth : Nat) (m : MessageDecl)
    (raw : List RawField) : Prop where
  name : TextAt 1 m.name raw
  fields : ListAt 2 (HoldsField depth) m.fields raw
  messages : ListAt 3 holdsNested m.messages raw
  enums : ListAt 4 (HoldsEnum depth) m.enums raw

/-- The bytes hold the message with all that is declared inside it, in `depth` levels at most. -/
def HoldsMessage : (depth : Nat) → MessageDecl → List UInt8 → Prop
  | 0, _, _ => False
  | inner + 1, m, bytes =>
    Holds (inner + 1) bytes fun _ => MessageAt (HoldsMessage inner) inner m

/-- The fields hold a file. -/
structure FileAt (depth : Nat) (d : FileDecl) (fields : List RawField) : Prop where
  name : TextAt 1 d.name fields
  package : TextAt 2 d.package fields
  messages : ListAt 4 (HoldsMessage depth) d.messages fields
  enums : ListAt 5 (HoldsEnum depth) d.enums fields

/-- The bytes hold the file. -/
def HoldsFile (depth : Nat) (d : FileDecl) (bytes : List UInt8) : Prop :=
  Holds depth bytes fun inner => FileAt inner d

/-- The bytes hold a set of these files. -/
def HoldsFiles (files : List FileDecl) (bytes : List UInt8) : Prop :=
  Holds (maxDepth + 1) bytes fun inner => ListAt 1 (HoldsFile inner) files

end SchemaRegistry.Wire
