import Std.Data.HashMap

/-!
# Members in declaration order

The fields of a message and the values of an enum are kept in declaration order and looked up by
name and by number. Both indices hold, for each key, the position of the last member that has it.
-/

namespace SchemaRegistry

/-- What members are looked up by. -/
class Member (α : Type) where
  name : α → String
  number : α → Int

/-- Members in their order, and the positions that each index has for its keys. -/
structure Members (α : Type) where
  items : Array α
  byName : Std.HashMap String Nat
  byNumber : Std.HashMap Int Nat

namespace Members

section

variable {α : Type}

/-- No members. -/
def empty : Members α := ⟨#[], ∅, ∅⟩

/-- The members in declaration order. -/
def toList (ms : Members α) : List α := ms.items.toList

/-- Changes every member in place. The indices stay as they are, so `f` should keep names and
numbers. -/
def map (ms : Members α) (f : α → α) : Members α := { ms with items := ms.items.map f }

/-- The last member of a name. -/
def findName? (ms : Members α) (name : String) : Option α :=
  ms.byName[name]? >>= fun i => ms.items[i]?

/-- The last member of a number. -/
def findNumber? (ms : Members α) (number : Int) : Option α :=
  ms.byNumber[number]? >>= fun i => ms.items[i]?

@[simp] theorem toList_empty : (empty : Members α).toList = [] := rfl

@[simp] theorem toList_map (ms : Members α) (f : α → α) : (ms.map f).toList = ms.toList.map f :=
  Array.toList_map

end

section

variable {α : Type} [Member α]

/-- Appends a member, which takes over its name and its number in the indices. -/
def push (ms : Members α) (a : α) : Members α where
  items := ms.items.push a
  byName := ms.byName.insert (Member.name a) ms.items.size
  byNumber := ms.byNumber.insert (Member.number a) ms.items.size

/-- These members, in their order. -/
def ofList (as : List α) : Members α := as.foldl push empty

@[simp] theorem toList_push (ms : Members α) (a : α) : (ms.push a).toList = ms.toList ++ [a] :=
  Array.toList_push

/-- Nothing is dropped, not even members that a later one hides. -/
@[simp] theorem toList_ofList (as : List α) : (ofList as).toList = as := by
  have appended (bs : List α) (ms : Members α) : (bs.foldl push ms).toList = ms.toList ++ bs := by
    induction bs generalizing ms with
    | nil => simp
    | cons b bs ih => simp [ih]
  exact appended as empty

end

end Members

end SchemaRegistry
