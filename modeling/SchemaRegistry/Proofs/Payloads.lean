import SchemaRegistry.Wire.Scan

/-!
# The payloads under a number

A declaration is read from a message property by property, and each property looks only at the
fields with its own number and kind of payload. These are picked out here.
-/

namespace SchemaRegistry.Wire

/-- The payloads of the length-delimited fields with this number. -/
def delimiteds (number : Nat) (fields : List RawField) : List (List UInt8) :=
  fields.filterMap fun
    | ⟨n, .delimited bytes⟩ => if n = number then some bytes else none
    | _ => none

/-- The payloads of the fields with this number that are numbers themselves. -/
def varints (number : Nat) (fields : List RawField) : List Nat :=
  fields.filterMap fun
    | ⟨n, .varint value⟩ => if n = number then some value else none
    | _ => none

section Delimiteds

variable {number : Nat} {f : RawField}

/-- Payloads come in the order of the fields. -/
theorem delimiteds_append (front fields : List RawField) :
    delimiteds number (front ++ fields) = delimiteds number front ++ delimiteds number fields :=
  List.filterMap_append

theorem delimiteds_cons (fields : List RawField) :
    delimiteds number (f :: fields) = delimiteds number [f] ++ delimiteds number fields :=
  delimiteds_append [f] fields

@[simp] theorem delimiteds_nil : delimiteds number [] = [] := rfl

/-- A length-delimited field counts for its own number only. -/
@[simp] theorem delimiteds_delimited (n : Nat) (bytes : List UInt8) :
    delimiteds number [⟨n, .delimited bytes⟩] = if n = number then [bytes] else [] := by
  by_cases h : n = number <;> simp [delimiteds, h]

@[simp] theorem delimiteds_varint (n value : Nat) : delimiteds number [⟨n, .varint value⟩] = [] :=
  rfl

/-- Fields of another number or another wire type hold no payload. -/
theorem delimiteds_of_ne (h : ∀ bytes, f ≠ ⟨number, .delimited bytes⟩) :
    delimiteds number [f] = [] := by
  obtain ⟨n, payload⟩ := f
  cases payload with
  | delimited bytes =>
    rw [delimiteds_delimited, if_neg]
    rintro rfl
    exact h bytes rfl
  | _ => rfl

end Delimiteds

section Varints

variable {number : Nat} {f : RawField}

/-- Varints come in the order of the fields. -/
theorem varints_append (front fields : List RawField) :
    varints number (front ++ fields) = varints number front ++ varints number fields :=
  List.filterMap_append

theorem varints_cons (fields : List RawField) :
    varints number (f :: fields) = varints number [f] ++ varints number fields :=
  varints_append [f] fields

@[simp] theorem varints_nil : varints number [] = [] := rfl

@[simp] theorem varints_varint (n value : Nat) :
    varints number [⟨n, .varint value⟩] = if n = number then [value] else [] := by
  by_cases h : n = number <;> simp [varints, h]

/-- Folding over the values of one varint field takes one step. -/
theorem foldl_varints_self {α : Type} (g : α → Nat → α) (a : α) (value : Nat) :
    (varints number [⟨number, .varint value⟩]).foldl g a = g a value := by
  rw [varints_varint, if_pos rfl]
  rfl

@[simp] theorem varints_delimited (n : Nat) (bytes : List UInt8) :
    varints number [⟨n, .delimited bytes⟩] = [] :=
  rfl

/-- Fields of another number or another wire type hold no value. -/
theorem varints_of_ne (h : ∀ value, f ≠ ⟨number, .varint value⟩) : varints number [f] = [] := by
  obtain ⟨n, payload⟩ := f
  cases payload with
  | varint value =>
    rw [varints_varint, if_neg]
    rintro rfl
    exact h value rfl
  | _ => rfl

end Varints

end SchemaRegistry.Wire
