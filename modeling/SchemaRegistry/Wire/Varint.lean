/-!
# Variable-length numbers

A number as groups of seven bits, lowest first, one in each byte, with the high bit set in every
byte but the last.
-/

namespace SchemaRegistry.Wire

/-- The number at the start of the bytes if it takes at most `limit` bytes, and the bytes after
it. -/
def varint? : (limit : Nat) → List UInt8 → Option (Nat × List UInt8)
  | 0, _ => none
  | _ + 1, [] => none
  | limit + 1, b :: rest =>
    if b.toNat < 128 then some (b.toNat, rest)
    else do
      let (high, after) ← varint? limit rest
      return (b.toNat - 128 + 128 * high, after)

/-- A varint takes at least one byte. -/
theorem varint?_length {limit : Nat} {bytes : List UInt8} {n : Nat} {rest : List UInt8}
    (h : varint? limit bytes = some (n, rest)) : rest.length < bytes.length := by
  induction limit generalizing bytes n rest with
  | zero => simp [varint?] at h
  | succ limit ih =>
    cases bytes with
    | nil => simp [varint?] at h
    | cons b tail =>
      simp only [varint?] at h
      -- The byte is the last one, or the others follow behind it.
      split at h
      · simp_all
      · simp only [Option.bind_eq_bind, Option.bind_eq_some_iff] at h
        obtain ⟨⟨high, after⟩, hr, h⟩ := h
        have shorter := ih hr
        simp only [Option.pure_def, Option.some.injEq, Prod.mk.injEq] at h
        obtain ⟨-, rfl⟩ := h
        simp only [List.length_cons]
        omega

/-- The bytes of a number, as few as there can be. -/
def writeVarint (n : Nat) : List UInt8 :=
  if n < 128 then [UInt8.ofNat n] else UInt8.ofNat (n % 128 + 128) :: writeVarint (n / 128)
termination_by n
decreasing_by omega

end SchemaRegistry.Wire
