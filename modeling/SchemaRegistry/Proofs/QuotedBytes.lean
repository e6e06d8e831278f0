import SchemaRegistry.Default.Parse
import SchemaRegistry.Proofs.Escaping
import SchemaRegistry.Proofs.QuotedText

/-!
# Quoted byte strings are escaped ones

The default of a bytes field is shown between quotes, escaped in a way of its own: numbers are in
hexadecimal, and of the two quotes only the one in use is escaped. Still each byte is written as a
token that no next character can continue (`exists_token_encodeChar`). So unescaping what stands
between the quotes gives the bytes (`unescape_quoted`), whichever quote is used.
-/

namespace SchemaRegistry

namespace Text

/-- What stands between the quotes of a quoted byte string. -/
def insideQuotes (s : String) : String := String.ofList (s.toList.drop 2).dropLast

/-- The text is a `b` and something between two single or two double quotes. -/
def IsQuoted (s : String) : Prop :=
  ∃ quote, (quote = '\x27' ∨ quote = '"')
    ∧ s.toList = 'b' :: quote :: (insideQuotes s).toList ++ [quote]

/-- Between the quotes stand the encoded bytes, one after another. -/
theorem insideQuotes_quoteBytes (bytes : List UInt8) :
    (insideQuotes (quoteBytes bytes)).toList = bytes.flatMap fun b =>
      Quoted.encodeChar isPrintableAscii (Quoted.quoteFor (bytes.map byteChar)) (byteChar b) := by
  unfold insideQuotes quoteBytes Quoted.encode
  rw [String.toList_ofList, String.toList_ofList, List.cons_append, List.drop_succ_cons,
    List.drop_succ_cons, List.drop_zero, List.dropLast_concat, List.flatMap_map]

/-- A byte string is shown between quotes of one kind. -/
theorem isQuoted_quoteBytes (bytes : List UInt8) : IsQuoted (quoteBytes bytes) := by
  refine ⟨Quoted.quoteFor (bytes.map byteChar), Quoted.quoteFor_eq _, ?_⟩
  rw [insideQuotes_quoteBytes]
  unfold quoteBytes Quoted.encode
  rw [String.toList_ofList]
  dsimp only
  rw [List.flatMap_map]
  rfl

end Text

namespace Default

open Text

/-! ## One byte -/

theorem digitChar_hex : ∀ n < 16,
    Nat.digitChar n ∈ hexDigits ∧ digitValue (Nat.digitChar n) = n := by
  decide

/-- Two digits that spell a number below 256. -/
def hexRun (n : Nat) : DigitRun hexDigits 2 where
  chars := Text.hexDigits 2 n
  ne_nil := List.cons_ne_nil _ _
  length_le := Nat.le_refl 2
  subset := by
    have h16 := (digitChar_hex (n / 16 % 16) (by omega)).1
    have h1 := (digitChar_hex (n % 16) (by omega)).1
    exact List.cons_subset.mpr ⟨h16, List.cons_subset.mpr ⟨h1, List.nil_subset _⟩⟩

/-- Two hexadecimal digits of a byte read back as the byte. -/
theorem numeral_hexRun {n : Nat} (h : n < 256) : numeral 16 (hexRun n).chars = n := by
  have h16 := (digitChar_hex (n / 16 % 16) (by omega)).2
  have h1 := (digitChar_hex (n % 16) (by omega)).2
  show 16 * (16 * 0 + digitValue (Nat.digitChar (n / 16 % 16)))
    + digitValue (Nat.digitChar (n % 16)) = n
  rw [h16, h1]
  omega

/-- A byte with a letter of its own can be written as that letter behind a backslash. -/
theorem exists_token_letter {b : UInt8} {c d : Char} (hd : byteChar b = d)
    (hlookup : simpleEscapes.lookup c = some (UInt8.ofNat d.toNat)) :
    ∃ t : Token, t.chars = ['\\', c] ∧ t.byte = b ∧ ∀ next, t.Ends next := by
  rw [← hd, ofNat_byteChar] at hlookup
  exact ⟨.simple c b hlookup, rfl, rfl, fun _ => trivial⟩

/-- Any byte can be written in hexadecimal. -/
theorem exists_token_numericForm (b : UInt8) :
    ∃ t : Token, t.chars = Quoted.numericForm (byteChar b) ∧ t.byte = b
      ∧ ∀ next, t.Ends next := by
  have hlt : b.toNat < 256 := b.toNat_lt
  refine ⟨.hex 'x' (Or.inl rfl) (hexRun b.toNat), ?_, ?_, fun _ h => absurd h (Nat.lt_irrefl 2)⟩
  · unfold Quoted.numericForm
    rw [toNat_byteChar, if_pos hlt]
    rfl
  · show UInt8.ofNat (numeral 16 (hexRun b.toNat).chars) = b
    rw [numeral_hexRun hlt]
    exact UInt8.ofNat_toNat

/-- A byte is written as a token for it, which is over whatever comes next. -/
theorem exists_token_encodeChar {quote : Char} (hquote : quote = '\x27' ∨ quote = '"') (b : UInt8) :
    ∃ t : Token, t.chars = Quoted.encodeChar isPrintableAscii quote (byteChar b) ∧ t.byte = b
      ∧ ∀ next, t.Ends next := by
  unfold Quoted.encodeChar
  split
  · -- The quote in use and the backslash stand for themselves behind a backslash.
    rename_i hself
    rcases hself with hself | hself
    · rw [hself]
      rcases hquote with rfl | rfl
      · exact exists_token_letter hself rfl
      · exact exists_token_letter hself rfl
    · rw [hself]
      exact exists_token_letter hself rfl
  -- The three control characters that have letters, then what is seen, then all others as
  -- hexadecimal.
  · rename_i hself
    split
    · exact exists_token_letter ‹_› rfl
    · split
      · exact exists_token_letter ‹_› rfl
      · split
        · exact exists_token_letter ‹_› rfl
        · split
          · exact ⟨.plain (byteChar b) fun h => hself (Or.inr h), rfl, ofNat_byteChar b,
              fun _ => trivial⟩
          · exact exists_token_numericForm b

/-! ## All bytes -/

/-- Unescaping what stands between the quotes gives the bytes back. -/
theorem unescape_insideQuotes (bytes : List UInt8) :
    unescape (insideQuotes (quoteBytes bytes)) = bytes := by
  unfold unescape
  rw [insideQuotes_quoteBytes]
  exact unescapeChars_flatMap (exists_token_encodeChar (Quoted.quoteFor_eq _)) bytes

/--
**What is shown of a byte string can be unescaped to it.**

A bytes value is shown as `b` and a text between two quotes, single or double ones, and unescaping
this text gives the bytes. So whatever text the default of a bytes field is, the value it is read as
is read again from what is shown of it between the quotes; and values that differ are shown
differently.
-/
theorem unescape_quoted {t : StoredType} (ht : t.kind = .scalar .bytes) :
    (∀ bytes, IsQuoted (Value.bytes bytes).text
        ∧ unescape (insideQuotes (Value.bytes bytes).text) = bytes)
      ∧ (∀ s, ∃ v, parse s t = .ok v ∧ v = .bytes (unescape s)
        ∧ parse (insideQuotes v.text) t = .ok v)
      ∧ ∀ bytes bytes', (Value.bytes bytes).text = (Value.bytes bytes').text → bytes = bytes' := by
  have hparse (s : String) : parse s t = .ok (.bytes (unescape s)) := by
    unfold parse
    rw [ht]
    rfl
  refine ⟨fun bytes => ⟨isQuoted_quoteBytes bytes, unescape_insideQuotes bytes⟩, fun s => ?_, ?_⟩
  -- What was parsed is shown and parsed again.
  · refine ⟨.bytes (unescape s), hparse s, rfl, ?_⟩
    rw [hparse]
    exact congrArg (fun bytes => Except.ok (Value.bytes bytes)) (unescape_insideQuotes (unescape s))
  · intro bytes bytes' htext
    rw [← unescape_insideQuotes bytes, ← unescape_insideQuotes bytes']
    exact congrArg (fun s => unescape (insideQuotes s)) htext

/-- A byte without a character in front of a letter that could be a digit, and both quotes. -/
theorem unescape_quoted_digitSample :
    (Value.bytes [0x27, 0x22, 0xff, 0x61]).text = "b'\\'\"\\xffa'"
      ∧ parse "\\'\"\\xffa" (.scalar .bytes) = .ok (.bytes [0x27, 0x22, 0xff, 0x61]) := by
  obtain ⟨v, hv, hbytes, hagain⟩ := (unescape_quoted (t := .scalar .bytes) rfl).2.1 "\\x27\"\\377a"
  have hvalue : v = .bytes [0x27, 0x22, 0xff, 0x61] := hbytes.trans (by decide +kernel)
  have htext : (Value.bytes [0x27, 0x22, 0xff, 0x61]).text = "b'\\'\"\\xffa'" := by decide +kernel
  refine ⟨htext, ?_⟩
  rw [hvalue, htext] at hagain
  exact hagain

end Default

end SchemaRegistry
