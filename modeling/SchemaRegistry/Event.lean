import SchemaRegistry.Default.Parse

/-!
# Events

What is worth telling about the import of schemas, and the line that a log shows for each event.
-/

namespace SchemaRegistry

/-- How much an event matters. -/
inductive Severity where
  | debug
  | warning
  deriving DecidableEq

/-- Something worth telling. An unknown type is one that the resolution pass looks for in vain. -/
inductive Event where
  /-- The default of a field does not fit its type and is left out. -/
  | discardedDefault (field : String) (text : String)
  /-- A file is imported, with the counts of its top-level messages and enums. -/
  | imported (file : String) (messages enums : Nat)
  | unknownMessageType (name : Option String)
  | unknownEnumType (name : Option String)
  /-- A descriptor set with so many files is read from a path. -/
  | loaded (files : Nat) (path : String)
  | running (command : List String)
  deriving DecidableEq

namespace Event

/-- Only references that lead nowhere call for a warning. -/
def severity : Event → Severity
  | unknownMessageType _ | unknownEnumType _ => .warning
  | _ => .debug

/-- The part of the program that the event comes from, as the log names it. -/
def origin : Event → String
  | discardedDefault .. => "protoc_registry.descriptors"
  | imported .. | unknownMessageType _ | unknownEnumType _ => "protoc_registry.registry"
  | loaded .. | running _ => "protoc_registry.loader"

/-- A reference that has no name at all is written `None`. -/
def nameText (name : Option String) : String := name.getD "None"

/-- What a log line says of an event behind its origin. -/
def message : Event → String
  | discardedDefault field text =>
    "Discarding default for field " ++ field ++ ": " ++ (DefaultError.badText text).message
  | imported file messages enums =>
    "Imported " ++ file ++ s!": {messages} message(s), {enums} enum(s)"
  | unknownMessageType name => "Inconsistent schema; unknown message type " ++ nameText name
  | unknownEnumType name => "Inconsistent schema; unknown enum type " ++ nameText name
  | loaded files path => s!"Loaded {files} file(s) from " ++ path
  | running command => "Running " ++ " ".intercalate command

/-- The name of a severity in a log line. -/
def severityText : Severity → String
  | .debug => "DEBUG"
  | .warning => "WARNING"

/-- The log line, without a line end. -/
def line (e : Event) : String :=
  severityText e.severity ++ " " ++ e.origin ++ ": " ++ e.message

end Event

end SchemaRegistry
