import SchemaRegistry.Descriptor.Basic
import SchemaRegistry.Registry.Catalog

/-!
# Registries over a shared store

Descriptors live in a `Store`, which only grows, and a reference is a position in it. A `Registry`
is a catalog of message references and one of enum references, so one descriptor may be registered
several times and in several registries, and a change to it shows through all of them.
-/

namespace SchemaRegistry

/-! ## The store -/

/-- All messages and all enums that there are, registered or not. -/
structure Store where
  messages : Array Message
  enums : Array Enumeration

namespace Store

/-- Nothing is stored. -/
def empty : Store := ⟨#[], #[]⟩

/-- Adds a message; its reference is the number of messages before. -/
def addMessage (s : Store) (m : Message) : Store := { s with messages := s.messages.push m }

/-- Adds an enum; its reference is the number of enums before. -/
def addEnum (s : Store) (e : Enumeration) : Store := { s with enums := s.enums.push e }

/-- The message at a reference. -/
def message? (s : Store) (ref : Nat) : Option Message := s.messages[ref]?

/-- The enum at a reference. -/
def enum? (s : Store) (ref : Nat) : Option Enumeration := s.enums[ref]?

/-- Changes the message at a reference. -/
def updateMessage (s : Store) (ref : Nat) (f : Message → Message) : Store :=
  { s with messages := s.messages.modify ref f }

/-- Changes the enum at a reference. -/
def updateEnum (s : Store) (ref : Nat) (f : Enumeration → Enumeration) : Store :=
  { s with enums := s.enums.modify ref f }

end Store

/-! ## Registries -/

/-- What is registered, by reference. -/
structure Registry where
  messages : Catalog
  enums : Catalog

namespace Registry

/-- Nothing is registered. -/
def empty : Registry := ⟨.empty, .empty⟩

/-- The number of registrations of either kind. -/
def size (r : Registry) : Nat := r.messages.size + r.enums.size

/-- Registers the message at a reference under a name. -/
def addMessage (r : Registry) (name : String) (ref : Nat) : Registry :=
  { r with messages := r.messages.add name ref }

/-- Registers the enum at a reference under a name. -/
def addEnum (r : Registry) (name : String) (ref : Nat) : Registry :=
  { r with enums := r.enums.add name ref }

/-- The registered messages, in order of registration. -/
def messageList (r : Registry) (s : Store) : List Message :=
  r.messages.toList.filterMap s.message?

/-- The registered enums, in order of registration. -/
def enumList (r : Registry) (s : Store) : List Enumeration :=
  r.enums.toList.filterMap s.enum?

end Registry

end SchemaRegistry
