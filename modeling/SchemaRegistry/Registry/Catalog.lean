import Std.Data.HashMap

/-!
# Catalogs

A catalog lists references in the order in which they were registered and finds the one registered
last under a name. Nothing is ever taken out of it, so a position once handed out keeps its meaning.
-/

namespace SchemaRegistry

/-- References in order, and the position of the last one under each name. -/
structure Catalog where
  refs : Array Nat
  index : Std.HashMap String Nat

namespace Catalog

/-- Nothing is registered. -/
def empty : Catalog := ⟨#[], ∅⟩

/-- The number of registrations; one of a name that was there before counts again. -/
def size (c : Catalog) : Nat := c.refs.size

/-- The references, in order of registration. -/
def toList (c : Catalog) : List Nat := c.refs.toList

/-- Registers a reference under a name; its position is the size before. -/
def add (c : Catalog) (name : String) (ref : Nat) : Catalog where
  refs := c.refs.push ref
  index := c.index.insert name c.refs.size

/-- The position of the last registration under a name. -/
def position? (c : Catalog) (name : String) : Option Nat := c.index[name]?

/-- The reference registered last under a name. -/
def find? (c : Catalog) (name : String) : Option Nat :=
  c.position? name >>= fun i => c.refs[i]?

/-- The position that a signed index means: a negative one counts back from the end. -/
def offset? (size : Nat) (index : Int) : Option Nat :=
  if 0 ≤ index then
    if index < size then some index.toNat else none
  else if 0 ≤ size + index then some (size + index).toNat
  else none

/-- The reference at a signed index. -/
def at? (c : Catalog) (index : Int) : Option Nat :=
  offset? c.size index >>= fun i => c.refs[i]?

/-! ## Views -/

@[simp] theorem toList_empty : empty.toList = [] := rfl

@[simp] theorem toList_add (c : Catalog) (name : String) (ref : Nat) :
    (c.add name ref).toList = c.toList ++ [ref] :=
  Array.toList_push

@[simp] theorem size_add (c : Catalog) (name : String) (ref : Nat) :
    (c.add name ref).size = c.size + 1 :=
  Array.size_push ref

/-- The last registration under a name counts. -/
theorem position?_add (c : Catalog) (name other : String) (ref : Nat) :
    (c.add name ref).position? other = if name = other then some c.size else c.position? other := by
  simp only [position?, add, Std.HashMap.getElem?_insert, beq_iff_eq]
  rfl

/-- An index from the front is its own offset. -/
theorem offset?_natCast {size i : Nat} (h : i < size) : offset? size i = some i := by
  simp [offset?, h]

end Catalog

end SchemaRegistry
