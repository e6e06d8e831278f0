import SchemaRegistry.Declaration
import SchemaRegistry.Text.Utf8
import SchemaRegistry.Wire.Varint

/-!
# Writing descriptor sets

The binary form of a set of files: of each declaration the properties that are set, in the order of
their numbers.
-/

namespace SchemaRegistry.Wire

/-- The tag of a field with this number and wire type. -/
def writeTag (number wireType : Nat) : List UInt8 := writeVarint (number * 8 + wireType)

/-- A field of bytes, with their count in front. -/
def writeDelimited (number : Nat) (bytes : List UInt8) : List UInt8 :=
  writeTag number 2 ++ writeVarint bytes.length ++ bytes

/-- A field that holds a number. -/
def writeNumber (number n : Nat) : List UInt8 := writeTag number 0 ++ writeVarint n

/-- A signed number is written as its 64-bit two's complement. -/
def writeInt (number : Nat) (n : Int) : List UInt8 :=
  writeNumber number (n % 0x10000000000000000).toNat

/-- A field that holds a text. -/
def writeText (number : Nat) (s : String) : List UInt8 :=
  writeDelimited number (Text.Utf8.ofString s)

/-- What `write` makes of a property; nothing if it is unset. -/
def ifSet {α : Type} (property : Option α) (write : α → List UInt8) : List UInt8 :=
  match property with
  | some a => write a
  | none => []

/-- The binary form of an enum value. -/
def encodeEnumValue (v : EnumValueDecl) : List UInt8 :=
  ifSet v.name (writeText 1) ++ ifSet v.number (writeInt 2)

/-- The binary form of an enum. -/
def encodeEnum (e : EnumDecl) : List UInt8 :=
  ifSet e.name (writeText 1)
    ++ e.values.flatMap fun v => writeDelimited 2 (encodeEnumValue v)

/-- The binary form of a field. -/
def encodeField (d : FieldDecl) : List UInt8 :=
  ifSet d.name (writeText 1)
    ++ ifSet d.number (writeInt 3)
    ++ ifSet d.label (writeInt 4)
    ++ ifSet d.type (writeInt 5)
    ++ ifSet d.typeName (writeText 6)
    ++ ifSet d.default (writeText 7)
    ++ ifSet d.proto3Optional fun b => writeNumber 17 b.toNat

mutual

/-- The binary form of a message, with what is declared inside it. -/
def encodeMessage : MessageDecl → List UInt8
  | ⟨name, fields, messages, enums⟩ =>
    ifSet name (writeText 1)
      ++ fields.flatMap (fun d => writeDelimited 2 (encodeField d))
      ++ encodeMessages 3 messages
      ++ enums.flatMap (fun e => writeDelimited 4 (encodeEnum e))

/-- Messages as entries of the list with the given number. -/
def encodeMessages (number : Nat) : List MessageDecl → List UInt8
  | [] => []
  | m :: ms => writeDelimited number (encodeMessage m) ++ encodeMessages number ms

end

/-- The binary form of a file. -/
def encodeFile (d : FileDecl) : List UInt8 :=
  ifSet d.name (writeText 1)
    ++ ifSet d.package (writeText 2)
    ++ encodeMessages 4 d.messages
    ++ d.enums.flatMap fun e => writeDelimited 5 (encodeEnum e)

/-- The binary form of a set of files. -/
def encodeFileSet (files : List FileDecl) : List UInt8 :=
  files.flatMap fun d => writeDelimited 1 (encodeFile d)

end SchemaRegistry.Wire
