import SchemaRegistry.Text.Utf8

/-!
# Texts and their bytes

Every text is read back from its bytes: `toString_ofString`.
-/

namespace SchemaRegistry.Text.Utf8

/-- A continuation byte carries six bits. -/
theorem continuation?_ofNat {n : Nat} (h : n < 64) :
    continuation? (UInt8.ofNat (n + 128)) = some n := by
  unfold continuation?
  rw [UInt8.toNat_ofNat_of_lt' (show _ < 256 by omega), if_pos (by omega), Nat.add_sub_cancel]

theorem scalar?_toNat {c : Char} {least : Nat} (h : least ≤ c.toNat) :
    scalar? least c.toNat = some c := by
  unfold scalar?
  rw [if_pos ⟨h, c.valid⟩, Char.ofNat_toNat]

/-- The bytes of a character are a sequence of their own, whatever follows. -/
theorem head?_utf8EncodeChar (c : Char) : ∃ b bs, String.utf8EncodeChar c = b :: bs
    ∧ ∀ more, head? b (bs ++ more) = some (c, bs.length) := by
  have hmax : c.toNat < 0x110000 := by
    rcases c.valid with h | ⟨-, h⟩
    · exact Nat.lt_trans h (by omega)
    · exact h
  rw [String.utf8EncodeChar.eq_1, show c.val.toNat = c.toNat from rfl]
  -- By the length of the sequence, from one byte to four.
  split
  · refine ⟨_, [], rfl, fun more => ?_⟩
    unfold head?
    dsimp only
    rw [UInt8.toNat_ofNat_of_lt' (show _ < 256 by omega), if_pos (by omega), Char.ofNat_toNat]
    rfl
  split
  · refine ⟨_, [_], rfl, fun more => ?_⟩
    have hcode : (c.toNat / 64 % 32 + 192 - 192) * 64 + c.toNat % 64 = c.toNat := by omega
    unfold head?
    dsimp only [List.cons_append, List.nil_append]
    rw [UInt8.toNat_ofNat_of_lt' (show _ < 256 by omega), if_neg (by omega), if_neg (by omega),
      if_pos (by omega), continuation?_ofNat (by omega)]
    show (scalar? 0x80 _).bind _ = _
    rw [hcode, scalar?_toNat (by omega)]
    rfl
  split
  · refine ⟨_, [_, _], rfl, fun more => ?_⟩
    have hcode : ((c.toNat / 4096 % 16 + 224 - 224) * 64 + c.toNat / 64 % 64) * 64
        + c.toNat % 64 = c.toNat := by omega
    unfold head?
    dsimp only [List.cons_append, List.nil_append]
    rw [UInt8.toNat_ofNat_of_lt' (show _ < 256 by omega), if_neg (by omega), if_neg (by omega),
      if_neg (by omega), if_pos (by omega), continuation?_ofNat (by omega),
      continuation?_ofNat (by omega)]
    show (scalar? 0x800 _).bind _ = _
    rw [hcode, scalar?_toNat (by omega)]
    rfl
  · refine ⟨_, [_, _, _], rfl, fun more => ?_⟩
    have hcode : (((c.toNat / 262144 % 8 + 240 - 240) * 64 + c.toNat / 4096 % 64) * 64
        + c.toNat / 64 % 64) * 64 + c.toNat % 64 = c.toNat := by omega
    unfold head?
    dsimp only [List.cons_append, List.nil_append]
    rw [UInt8.toNat_ofNat_of_lt' (show _ < 256 by omega), if_neg (by omega), if_neg (by omega),
      if_neg (by omega), if_neg (by omega), if_pos (by omega), continuation?_ofNat (by omega),
      continuation?_ofNat (by omega), continuation?_ofNat (by omega)]
    show (scalar? 0x10000 _).bind _ = _
    rw [hcode, scalar?_toNat (by omega)]
    rfl

/-- Encoded text decodes to itself. -/
theorem decode_encode (cs : List Char) : decode (encode cs) = cs := by
  induction cs with
  | nil => rw [encode, List.flatMap_nil, decode]
  | cons c cs ih =>
    obtain ⟨b, bs, hbytes, hhead⟩ := head?_utf8EncodeChar c
    have hcons : encode (c :: cs) = b :: (bs ++ encode cs) := by
      rw [encode, List.flatMap_cons, hbytes]
      rfl
    rw [hcons, decode, hhead]
    dsimp only
    rw [List.drop_left, ih]

/-- **A text is read back from its bytes.** -/
theorem toString_ofString (s : String) : toString (ofString s) = s := by
  unfold toString ofString
  rw [decode_encode, String.ofList_toList]

end SchemaRegistry.Text.Utf8
