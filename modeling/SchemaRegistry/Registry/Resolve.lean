import SchemaRegistry.Registry.Progress

/-!
# Resolving references

The resolution pass turns each reference by name into a handle, in every field of every registered
message. A name that is not registered stays as it is, with a warning.
-/

namespace SchemaRegistry

namespace Registry

/-- The handle that the name of an unresolved reference stands for; none for other types and for
names not registered. -/
def resolved? (r : Registry) (t : StoredType) : Option StoredType :=
  match t.kind with
  | .unresolvedMessage => (t.typeName >>= r.messages.position?).map .message
  | .unresolvedEnum => (t.typeName >>= r.enums.position?).map .enum
  | _ => none

/-- The field with a handle in the place of a name that is registered. -/
def resolveField (r : Registry) (f : Field) : Field :=
  { f with type := (r.resolved? f.type).getD f.type }

/-- The message with all its fields resolved. -/
def resolveMessage (r : Registry) (m : Message) : Message :=
  { m with fields := m.fields.map r.resolveField }

/-- The warning for a reference that is left unresolved. -/
def warning? (r : Registry) (t : StoredType) : Option Event :=
  match t.kind, r.resolved? t with
  | .unresolvedMessage, none => some (.unknownMessageType t.typeName)
  | .unresolvedEnum, none => some (.unknownEnumType t.typeName)
  | _, _ => none

/-- The warnings for the fields of a message, in their order. -/
def warnings (r : Registry) (m : Message) : List Event :=
  m.fields.toList.filterMap fun f => r.warning? f.type

/-- Resolves the message at a reference. -/
def resolveAt (r : Registry) (p : Progress) (ref : Nat) : Progress :=
  match p.store.message? ref with
  | none => p
  | some m => { p with store := p.store.updateMessage ref r.resolveMessage }.noteAll (r.warnings m)

end Registry

/-- The resolution pass over the registry of `p`. -/
def Progress.resolve (p : Progress) : Progress :=
  p.registry.messages.toList.foldl p.registry.resolveAt p

end SchemaRegistry
