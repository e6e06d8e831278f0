import SchemaRegistry.Wire.Varint

/-!
# Scanning a binary message

A binary message is a sequence of fields, each a number and a payload behind a tag. `scan` gives the
fields up to the first fault, and whether there is one. Groups have no use here: their contents are
checked and skipped, and they count towards the depth of nesting.
-/

namespace SchemaRegistry.Wire

/-- What a field holds, by the way in which it is written. -/
inductive Payload where
  | varint (n : Nat)
  | fixed64 (bytes : List UInt8)
  | delimited (bytes : List UInt8)
  | fixed32 (bytes : List UInt8)
  deriving DecidableEq

/-- A field as it is found in a message. -/
structure RawField where
  number : Nat
  payload : Payload
  deriving DecidableEq

/-- What a tag introduces. -/
inductive Item where
  | field (f : RawField)
  | startGroup (number : Nat)
  | endGroup (number : Nat)
  deriving DecidableEq

/-- The first `n` bytes and the rest, if there are that many. -/
def split? (n : Nat) (bytes : List UInt8) : Option (List UInt8 × List UInt8) :=
  if n ≤ bytes.length then some (bytes.splitAt n) else none

/-- A tag: a field number and a wire type. It takes at most five bytes and fits in 32 bits. -/
def tag? (bytes : List UInt8) : Option (Nat × Nat × List UInt8) := do
  let (n, rest) ← varint? 5 bytes
  if n < 0x100000000 then some (n / 8, n % 8, rest) else none

/-- A length of at most 31 bits in at most five bytes, and that many bytes. -/
def delimited? (bytes : List UInt8) : Option (List UInt8 × List UInt8) := do
  let (n, rest) ← varint? 5 bytes
  if n < 0x80000000 then split? n rest else none

/-- The payload of a field of the given wire type; numbers are kept to 64 bits. -/
def payload? (wireType : Nat) (bytes : List UInt8) : Option (Payload × List UInt8) :=
  match wireType with
  | 0 => (varint? 10 bytes).map fun (n, rest) => (.varint (n % 0x10000000000000000), rest)
  | 1 => (split? 8 bytes).map fun (b, rest) => (.fixed64 b, rest)
  | 2 => (delimited? bytes).map fun (b, rest) => (.delimited b, rest)
  | 5 => (split? 4 bytes).map fun (b, rest) => (.fixed32 b, rest)
  | _ => none

/-- The item at the start of the bytes, and the bytes after it. The contents of a group are not part
of the item. -/
def item? (bytes : List UInt8) : Option (Item × List UInt8) := do
  let (number, wireType, rest) ← tag? bytes
  match wireType with
  | 3 => some (.startGroup number, rest)
  | 4 => some (.endGroup number, rest)
  | _ =>
    let (payload, after) ← payload? wireType rest
    return (.field ⟨number, payload⟩, after)

/-! ## Every step shortens the input -/

theorem split?_length {n : Nat} {bytes first rest : List UInt8}
    (h : split? n bytes = some (first, rest)) : rest.length ≤ bytes.length := by
  unfold split? at h
  split at h
  · simp only [List.splitAt_eq, Option.some.injEq, Prod.mk.injEq] at h
    obtain ⟨-, rfl⟩ := h
    simp
  · simp at h

theorem tag?_length {bytes rest : List UInt8} {number wireType : Nat}
    (h : tag? bytes = some (number, wireType, rest)) : rest.length < bytes.length := by
  simp only [tag?, Option.bind_eq_bind, Option.bind_eq_some_iff] at h
  obtain ⟨⟨n, after⟩, hv, h⟩ := h
  have := varint?_length hv
  split at h
  · simp_all
  · simp at h

theorem delimited?_length {bytes first rest : List UInt8}
    (h : delimited? bytes = some (first, rest)) : rest.length ≤ bytes.length := by
  simp only [delimited?, Option.bind_eq_bind, Option.bind_eq_some_iff] at h
  obtain ⟨⟨n, after⟩, hv, h⟩ := h
  have shorter := varint?_length hv
  dsimp only at h
  split at h
  · exact Nat.le_of_lt (Nat.lt_of_le_of_lt (split?_length h) shorter)
  · simp at h

theorem payload?_length {wireType : Nat} {bytes rest : List UInt8} {p : Payload}
    (h : payload? wireType bytes = some (p, rest)) : rest.length ≤ bytes.length := by
  unfold payload? at h
  split at h
  -- Each wire type takes what its own reader takes.
  · obtain ⟨⟨n, after⟩, hv, h⟩ := Option.map_eq_some_iff.1 h
    have := varint?_length hv
    simp_all
    omega
  · obtain ⟨⟨b, after⟩, hv, h⟩ := Option.map_eq_some_iff.1 h
    have := split?_length hv
    simp_all
  · obtain ⟨⟨b, after⟩, hv, h⟩ := Option.map_eq_some_iff.1 h
    have := delimited?_length hv
    simp_all
  · obtain ⟨⟨b, after⟩, hv, h⟩ := Option.map_eq_some_iff.1 h
    have := split?_length hv
    simp_all
  · simp at h

/-- Every item takes at least one byte, so a scan ends. -/
theorem item?_length {bytes rest : List UInt8} {i : Item} (h : item? bytes = some (i, rest)) :
    rest.length < bytes.length := by
  simp only [item?, Option.bind_eq_bind, Option.bind_eq_some_iff] at h
  obtain ⟨⟨number, wireType, after⟩, ht, h⟩ := h
  have shorter := tag?_length ht
  dsimp only at h
  split at h
  · simp_all
  · simp_all
  · obtain ⟨⟨p, last⟩, hp, h⟩ := Option.bind_eq_some_iff.1 h
    have := payload?_length hp
    simp only [Option.pure_def, Option.some.injEq, Prod.mk.injEq] at h
    obtain ⟨-, rfl⟩ := h
    omega

/-! ## Groups and messages -/

/-- Skips the contents of a group and the end tag that closes it; none if they are corrupt. `depth`
groups more may be nested inside. Any field number will do in a group, zero included. -/
def skipGroup? (depth number : Nat) (bytes : List UInt8) :
    Option { rest : List UInt8 // rest.length < bytes.length } :=
  match h : item? bytes with
  | none => none
  | some (.endGroup n, rest) => if n = number then some ⟨rest, item?_length h⟩ else none
  | some (.field _, rest) =>
    have := item?_length h
    -- The group goes on behind the field.
    match skipGroup? depth number rest with
    | some ⟨after, shorter⟩ => some ⟨after, by omega⟩
    | none => none
  | some (.startGroup n, rest) =>
    have := item?_length h
    match depth with
    | 0 => none
    | inner + 1 =>
      match skipGroup? inner n rest with
      | none => none
      | some ⟨middle, shorter⟩ =>
        -- Behind the inner group, at the depth of the outer one.
        match skipGroup? (inner + 1) number middle with
        | some ⟨after, shorter⟩ => some ⟨after, by omega⟩
        | none => none
termination_by bytes.length

/-- The fields of a message up to its end or its first fault. -/
structure Scanned where
  fields : List RawField
  /-- No fault was met. -/
  intact : Bool
  deriving DecidableEq

namespace Scanned

/-- The end of a message. -/
def done : Scanned := ⟨[], true⟩

/-- A fault at this place. -/
def corrupt : Scanned := ⟨[], false⟩

/-- One more field in front. -/
def cons (f : RawField) (s : Scanned) : Scanned := { s with fields := f :: s.fields }

end Scanned

/-- The fields of a message in which `depth` more levels may be nested. Fields and groups of a
message have numbers other than zero. -/
def scan (depth : Nat) (bytes : List UInt8) : Scanned :=
  if bytes = [] then .done
  else
    match h : item? bytes with
    | none | some (.endGroup _, _) => .corrupt
    | some (.field f, rest) =>
      have := item?_length h
      -- Zero is no field number.
      if f.number = 0 then .corrupt else (scan depth rest).cons f
    | some (.startGroup n, rest) =>
      have := item?_length h
      match depth with
      | 0 => .corrupt
      | inner + 1 =>
        if n = 0 then .corrupt
        else
          match skipGroup? inner n rest with
          | none => .corrupt
          | some ⟨after, shorter⟩ => scan (inner + 1) after
termination_by bytes.length

end SchemaRegistry.Wire
