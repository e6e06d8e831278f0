import SchemaRegistry.Proofs.Scanning

/-!
# Framed messages

A grammar of binary messages, apart from any reader. `Framed depth fields bytes` says that the bytes
are these fields one after another, each a tag and a payload, and that among them there may be any
groups, each closed by its own end tag. Numbers may be spelled in any way, not only the shortest.

The scan finds the fields of every framed message: `Framed.scan`.
-/

namespace SchemaRegistry.Wire

/-- The bytes spell a number in at most `limit` groups of seven bits, lowest first; every group but
the last has the high bit. -/
inductive IsVarint : (limit n : Nat) → List UInt8 → Prop where
  | last {limit : Nat} (b : UInt8) (h : b.toNat < 128) : IsVarint (limit + 1) b.toNat [b]
  | more {limit high : Nat} {bytes : List UInt8} (b : UInt8) (h : 128 ≤ b.toNat)
      (hhigh : IsVarint limit high bytes) :
      IsVarint (limit + 1) (b.toNat - 128 + 128 * high) (b :: bytes)

/-- A tag is a number other than zero and a wire type, in 32 bits. -/
structure IsTag (number wireType : Nat) (bytes : List UInt8) : Prop where
  number_ne : number ≠ 0
  type_lt : wireType < 8
  fits : number * 8 + wireType < 0x100000000
  spelled : IsVarint 5 (number * 8 + wireType) bytes

/-- The wire type of a payload and the bytes behind the tag. -/
inductive IsPayload : (wireType : Nat) → Payload → List UInt8 → Prop where
  /-- Of a number, 64 bits count. -/
  | varint {n : Nat} {bytes : List UInt8} (h : IsVarint 10 n bytes) :
      IsPayload 0 (.varint (n % 0x10000000000000000)) bytes
  | fixed64 {bytes : List UInt8} (h : bytes.length = 8) : IsPayload 1 (.fixed64 bytes) bytes
  | delimited {bytes size : List UInt8} (hsize : IsVarint 5 bytes.length size)
      (hfits : bytes.length < 0x80000000) : IsPayload 2 (.delimited bytes) (size ++ bytes)
  | fixed32 {bytes : List UInt8} (h : bytes.length = 4) : IsPayload 5 (.fixed32 bytes) bytes

/-- The bytes are those of the fields, in order. Anywhere between them there may be groups, nested
in at most `depth` levels, whose fields are not among the fields of the message. -/
inductive Framed : (depth : Nat) → List RawField → List UInt8 → Prop where
  | nil {depth : Nat} : Framed depth [] []
  | field {depth number wireType : Nat} {payload : Payload} {tag bytes : List UInt8}
      {fields : List RawField} {rest : List UInt8} (htag : IsTag number wireType tag)
      (hpayload : IsPayload wireType payload bytes) (hrest : Framed depth fields rest) :
      Framed depth (⟨number, payload⟩ :: fields) (tag ++ (bytes ++ rest))
  | group {depth number : Nat} {start stop bytes : List UInt8} {inside fields : List RawField}
      {rest : List UInt8} (hstart : IsTag number 3 start) (hinside : Framed depth inside bytes)
      (hstop : IsTag number 4 stop) (hrest : Framed (depth + 1) fields rest) :
      Framed (depth + 1) fields (start ++ (bytes ++ (stop ++ rest)))

/-! ## What is read -/

/-- A number is read off in front of anything. -/
theorem IsVarint.read {limit n : Nat} {bytes : List UInt8} (h : IsVarint limit n bytes)
    (more : List UInt8) : varint? limit (bytes ++ more) = some (n, more) := by
  induction h with
  | last b h => rw [List.singleton_append, varint?, if_pos h]
  | more b h _ ih =>
    rw [List.cons_append, varint?, if_neg (Nat.not_lt.mpr h), ih]
    rfl

theorem IsTag.read {number wireType : Nat} {bytes : List UInt8} (h : IsTag number wireType bytes)
    (more : List UInt8) : tag? (bytes ++ more) = some (number, wireType, more) := by
  have hnumber : (number * 8 + wireType) / 8 = number := by have := h.type_lt; omega
  have htype : (number * 8 + wireType) % 8 = wireType := by have := h.type_lt; omega
  rw [tag?_eq, h.spelled.read, Option.bind_eq_bind, Option.bind_some, if_pos h.fits, hnumber, htype]

/-- As many bytes as there are are split off whole. -/
theorem split?_append (bytes more : List UInt8) :
    split? bytes.length (bytes ++ more) = some (bytes, more) := by
  unfold split?
  rw [if_pos (by rw [List.length_append]; omega), List.splitAt_eq, List.take_left,
    List.drop_left]

theorem delimited?_append {bytes size : List UInt8} (hsize : IsVarint 5 bytes.length size)
    (hfits : bytes.length < 0x80000000) (more : List UInt8) :
    delimited? (size ++ bytes ++ more) = some (bytes, more) := by
  rw [delimited?, List.append_assoc, hsize.read, Option.bind_eq_bind, Option.bind_some]
  exact (if_pos hfits).trans (split?_append bytes more)

/-- A payload is read off in front of anything. -/
theorem IsPayload.read {wireType : Nat} {payload : Payload} {bytes : List UInt8}
    (h : IsPayload wireType payload bytes) (more : List UInt8) :
    payload? wireType (bytes ++ more) = some (payload, more) := by
  cases h with
  | varint h =>
    unfold payload?
    rw [h.read]
    rfl
  | fixed64 h =>
    unfold payload?
    rw [← h, split?_append]
    rfl
  | delimited hsize hfits =>
    unfold payload?
    rw [delimited?_append hsize hfits]
    rfl
  | fixed32 h =>
    unfold payload?
    rw [← h, split?_append]
    rfl

/-- A payload has none of the wire types of group tags. -/
theorem IsPayload.wireType_ne {wireType : Nat} {payload : Payload} {bytes : List UInt8}
    (h : IsPayload wireType payload bytes) : wireType ≠ 3 ∧ wireType ≠ 4 := by
  cases h <;> decide

/-- A tag and its payload are read as one field. -/
theorem item?_of_field {number wireType : Nat} {payload : Payload} {tag bytes : List UInt8}
    (htag : IsTag number wireType tag) (hpayload : IsPayload wireType payload bytes)
    (more : List UInt8) :
    item? (tag ++ (bytes ++ more)) = some (.field ⟨number, payload⟩, more) := by
  obtain ⟨hstart, hend⟩ := hpayload.wireType_ne
  rw [item?_eq, htag.read, Option.bind_eq_bind, Option.bind_some, tagged?, if_neg hstart,
    if_neg hend, hpayload.read]
  rfl

theorem item?_of_start {number : Nat} {tag : List UInt8} (h : IsTag number 3 tag)
    (more : List UInt8) : item? (tag ++ more) = some (.startGroup number, more) := by
  rw [item?_eq, h.read]
  rfl

theorem item?_of_end {number : Nat} {tag : List UInt8} (h : IsTag number 4 tag)
    (more : List UInt8) : item? (tag ++ more) = some (.endGroup number, more) := by
  rw [item?_eq, h.read]
  rfl

namespace Framed

variable {depth : Nat} {fields : List RawField} {bytes : List UInt8}

/-- The contents of a group are skipped up to its end tag. -/
theorem skipped? (h : Framed depth fields bytes) {number : Nat} {stop : List UInt8}
    (hstop : IsTag number 4 stop) (more : List UInt8) :
    Wire.skipped? depth number (bytes ++ (stop ++ more)) = some more := by
  induction h generalizing number stop more with
  -- Every field and every inner group is passed by, and the end that is met is the right one.
  | nil => rw [List.nil_append, skipped?_endGroup (item?_of_end hstop more), if_pos rfl]
  | field htag hpayload _ ih =>
    rw [List.append_assoc, List.append_assoc, skipped?_field (item?_of_field htag hpayload _)]
    exact ih hstop more
  | group hstart _ hinner _ ihinside ihrest =>
    rw [List.append_assoc, List.append_assoc, List.append_assoc,
      skipped?_startGroup (item?_of_start hstart _), ihinside hinner]
    exact ihrest hstop more

/-- **The scan of a framed message** is intact, and it gives the fields of the message. -/
theorem scan (h : Framed depth fields bytes) : Wire.scan depth bytes = ⟨fields, true⟩ := by
  induction h with
  | nil => exact scan_nil
  | field htag hpayload _ ih =>
    rw [scan_field (item?_of_field htag hpayload _), if_neg htag.number_ne, ih]
    rfl
  | group hstart hinside hstop _ _ ih =>
    rw [scan_startGroup (item?_of_start hstart _), if_neg hstart.number_ne,
      hinside.skipped? hstop]
    exact ih

/-- One framed message after another. -/
theorem append {fields' : List RawField} {bytes' : List UInt8} (h : Framed depth fields bytes)
    (h' : Framed depth fields' bytes') : Framed depth (fields ++ fields') (bytes ++ bytes') := by
  induction h with
  | nil => exact h'
  | field htag hpayload _ ih =>
    rw [List.append_assoc, List.append_assoc]
    exact .field htag hpayload (ih h')
  | group hstart hinside hstop _ _ ih =>
    rw [List.append_assoc, List.append_assoc, List.append_assoc]
    exact .group hstart hinside hstop (ih h')

end Framed

end SchemaRegistry.Wire
