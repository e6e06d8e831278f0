import SchemaRegistry.Declaration
import SchemaRegistry.Text.Utf8
import SchemaRegistry.Wire.Scan

/-!
# Binary descriptor sets

Reading of a set of files from its binary form. Of a property given more than once the last one
counts, and list entries append. Fields with another number or another kind of payload are skipped,
and so is a label or type with an unknown number.
-/

namespace SchemaRegistry.Wire

/-- Why bytes are no descriptor set. -/
inductive WireError where
  | corrupt
  | tooDeep
  deriving DecidableEq

namespace WireError

/-- What is said of such bytes. -/
def message : WireError → String
  | corrupt => "Wire format was corrupt"
  | tooDeep => "Exceeded upb_DecodeOptions_MaxDepth"

end WireError

/-- How many levels of messages may be nested below a set. -/
def maxDepth : Nat := 100

/-- The low 32 bits as a signed number. -/
def toInt32 (n : Nat) : Int := Int.bmod n 0x100000000

/-- The number if it lies in `1` to `last`, and otherwise what was there before. -/
def toClosed (last : Int) (before : Option Int) (n : Nat) : Option Int :=
  if 1 ≤ toInt32 n ∧ toInt32 n ≤ last then some (toInt32 n) else before

/-- The text in a payload. Bytes that are no text are dropped. -/
def text (bytes : List UInt8) : String := Text.Utf8.toString bytes

/-- Folds the fields of a message into `a`, where `depth` counts the levels still allowed, this one
included. `step` gets the levels allowed below. A fault of the message comes after those inside the
fields before it. -/
def foldFields {α : Type} (depth : Nat) (bytes : List UInt8) (a : α)
    (step : Nat → α → RawField → Except WireError α) : Except WireError α :=
  match depth with
  | 0 => .error .tooDeep
  | inner + 1 =>
    let scanned := scan inner bytes
    match scanned.fields.foldlM (step inner) a with
    | .error e => .error e
    -- The fields that could be read were read first, so their faults win over that of the frame.
    | .ok b => if scanned.intact then .ok b else .error .corrupt

/-- An enum value: its name is field 1, and its number is field 2. -/
def decodeEnumValue (depth : Nat) (bytes : List UInt8) : Except WireError EnumValueDecl :=
  foldFields depth bytes .empty fun _ v f =>
    match f with
    | ⟨1, .delimited b⟩ => .ok { v with name := some (text b) }
    | ⟨2, .varint n⟩ => .ok { v with number := some (toInt32 n) }
    | _ => .ok v

/-- An enum: its name is field 1, and its values are fields 2. -/
def decodeEnum (depth : Nat) (bytes : List UInt8) : Except WireError EnumDecl :=
  foldFields depth bytes .empty fun inner e f =>
    match f with
    | ⟨1, .delimited b⟩ => .ok { e with name := some (text b) }
    | ⟨2, .delimited b⟩ => do
      let v ← decodeEnumValue inner b
      return { e with values := e.values ++ [v] }
    | _ => .ok e

/-- A field of a message. Label and type are left as they were by a number that is none of
theirs. -/
def decodeField (depth : Nat) (bytes : List UInt8) : Except WireError FieldDecl :=
  foldFields depth bytes .empty fun _ d f =>
    match f with
    | ⟨1, .delimited b⟩ => .ok { d with name := some (text b) }
    | ⟨3, .varint n⟩ => .ok { d with number := some (toInt32 n) }
    | ⟨4, .varint n⟩ => .ok { d with label := toClosed 3 d.label n }
    | ⟨5, .varint n⟩ => .ok { d with type := toClosed 18 d.type n }
    | ⟨6, .delimited b⟩ => .ok { d with typeName := some (text b) }
    | ⟨7, .delimited b⟩ => .ok { d with default := some (text b) }
    | ⟨17, .varint n⟩ => .ok { d with proto3Optional := some (n ≠ 0) }
    -- A field with another number or another wire type is left out.
    | _ => .ok d

/-- Folds one field of a message into its declaration; `nested` reads the messages inside it. -/
def messageStep (nested : List UInt8 → Except WireError MessageDecl) (depth : Nat)
    (m : MessageDecl) (f : RawField) : Except WireError MessageDecl :=
  match f with
  | ⟨1, .delimited b⟩ => .ok { m with name := some (text b) }
  | ⟨2, .delimited b⟩ => do
    let d ← decodeField depth b
    return { m with fields := m.fields ++ [d] }
  | ⟨3, .delimited b⟩ => do
    let d ← nested b
    return { m with messages := m.messages ++ [d] }
  | ⟨4, .delimited b⟩ => do
    let e ← decodeEnum depth b
    return { m with enums := m.enums ++ [e] }
  | _ => .ok m

/-- A message with what is declared inside it. `depth` counts the levels still allowed. -/
def decodeMessage : (depth : Nat) → List UInt8 → Except WireError MessageDecl
  | 0, _ => .error .tooDeep
  | inner + 1, bytes =>
    foldFields (inner + 1) bytes .empty fun _ => messageStep (decodeMessage inner) inner

/-- A file: its name, its package, its messages and its enums. -/
def decodeFile (depth : Nat) (bytes : List UInt8) : Except WireError FileDecl :=
  foldFields depth bytes .empty fun inner d f =>
    match f with
    | ⟨1, .delimited b⟩ => .ok { d with name := some (text b) }
    | ⟨2, .delimited b⟩ => .ok { d with package := some (text b) }
    | ⟨4, .delimited b⟩ => do
      let m ← decodeMessage inner b
      return { d with messages := d.messages ++ [m] }
    | ⟨5, .delimited b⟩ => do
      let e ← decodeEnum inner b
      return { d with enums := d.enums ++ [e] }
    | _ => .ok d

/-- The files of a descriptor set. -/
def decodeFileSet (bytes : List UInt8) : Except WireError (List FileDecl) :=
  -- The files may be as deep as the limit says; the set around them does not count.
  foldFields (maxDepth + 1) bytes [] fun inner files f =>
    match f with
    | ⟨1, .delimited b⟩ => do
      let d ← decodeFile inner b
      return files ++ [d]
    | _ => .ok files

end SchemaRegistry.Wire
