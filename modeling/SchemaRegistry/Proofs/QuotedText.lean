import Mathlib.Algebra.Ring.Nat
import SchemaRegistry.Proofs.PrefixCode
import SchemaRegistry.Text.Quoted

/-!
# Quoted texts can be told apart

Between the quotes every character is written in one of three forms: as itself, as a letter behind a
backslash, or as a number of as many digits as the letter in front of them says. So it is seen from
the form where it ends (`isPrefixCode_encodeChar`), and the quotes are the same in texts that are
written in the same way, for they come first. So a quoted text stands for one text only, whichever
characters are printable, and it is on one line.
-/

namespace SchemaRegistry.Text

/-! ## Digits -/

theorem length_hexDigits (width n : Nat) : (hexDigits width n).length = width := by
  induction width generalizing n with
  | zero => rfl
  | succ width ih => rw [hexDigits, List.length_append, ih, List.length_singleton]

theorem digitChar_inj_of_lt : ∀ m < 16, ∀ n < 16, Nat.digitChar m = Nat.digitChar n → m = n := by
  decide

/-- Hexadecimal digits determine the number, once the width holds it. -/
theorem hexDigits_inj {width m n : Nat} (hm : m < 16 ^ width) (hn : n < 16 ^ width)
    (h : hexDigits width m = hexDigits width n) : m = n := by
  induction width generalizing m n with
  | zero => omega
  | succ width ih =>
    obtain ⟨hinit, hlast⟩ := List.append_inj' h rfl
    have hdigit := digitChar_inj_of_lt _ (Nat.mod_lt m (by decide)) _ (Nat.mod_lt n (by decide))
      (List.cons.inj hlast).1
    have hrest := ih (Nat.div_lt_of_lt_mul (by rwa [Nat.pow_succ'] at hm))
      (Nat.div_lt_of_lt_mul (by rwa [Nat.pow_succ'] at hn)) hinit
    omega

theorem newline_notMem_hexDigits (width n : Nat) : '\n' ∉ hexDigits width n := by
  have hdigit : ∀ d < 16, '\n' ≠ Nat.digitChar d := by decide
  induction width generalizing n with
  | zero => exact List.not_mem_nil
  | succ width ih =>
    rw [hexDigits, List.mem_append, List.mem_singleton, not_or]
    exact ⟨ih (n / 16), hdigit _ (Nat.mod_lt n (by decide))⟩

namespace Quoted

/-! ## The forms of a character -/

/-- The letters that stand for a character behind a backslash. -/
def letters (quote : Char) : List (Char × Char) :=
  [(quote, quote), ('\\', '\\'), ('n', '\n'), ('r', '\r'), ('t', '\t')]

/-- The letters with a number behind them, and how many digits it has. -/
def numberLetters : List (Char × Nat) := [('x', 2), ('u', 4), ('U', 8)]

/-- How a character is written between these quotes. -/
inductive Form (quote : Char) : Char → List Char → Prop where
  | plain {c : Char} (hslash : c ≠ '\\') (hnewline : c ≠ '\n') : Form quote c [c]
  | letter {letter c : Char} (hl : (letter, c) ∈ letters quote) : Form quote c ['\\', letter]
  | number {letter c : Char} {width : Nat} (hl : (letter, width) ∈ numberLetters)
      (hc : c.toNat < 16 ^ width) : Form quote c ('\\' :: letter :: hexDigits width c.toNat)

variable {quote : Char} {plain : Char → Bool}

/-- Each character is encoded in one of the forms. -/
theorem form_encodeChar (plain : Char → Bool) (quote c : Char) :
    Form quote c (encodeChar plain quote c) := by
  unfold encodeChar
  split
  -- The quote and the backslash.
  · rename_i hself
    refine .letter ?_
    rcases hself with rfl | rfl
    · exact List.mem_cons_self
    · exact List.mem_cons_of_mem _ List.mem_cons_self
  rename_i hself
  split
  · rename_i hc
    rw [hc]
    exact .letter (by simp [letters])
  rename_i hnewline
  split
  · rename_i hc
    rw [hc]
    exact .letter (by simp [letters])
  split
  · rename_i hc
    rw [hc]
    exact .letter (by simp [letters])
  -- Characters that are shown as they are, and then by width.
  split
  · exact .plain (fun h => hself (Or.inr h)) hnewline
  unfold numericForm
  split
  · exact .number (by decide) ‹_›
  -- No character has more than eight digits.
  split
  · exact .number (by decide) ‹_›
  · have hmax : c.toNat < 16 ^ 8 := by
      rcases c.valid with h | ⟨_, h⟩ <;> exact Nat.lt_trans h (by decide)
    exact .number (by decide) hmax

/-- The letter behind a backslash tells what is meant. -/
theorem letters_inj (hquote : quote = '\x27' ∨ quote = '"') :
    (∀ a ∈ letters quote, ∀ b ∈ letters quote, a.1 = b.1 → a.2 = b.2)
      ∧ (∀ a ∈ letters quote, ∀ b ∈ numberLetters, a.1 ≠ b.1)
      ∧ ∀ a ∈ numberLetters, ∀ b ∈ numberLetters, a.1 = b.1 → a.2 = b.2 := by
  rcases hquote with rfl | rfl <;> decide

/-- Where a form ends can be told from what it starts with, so texts made of forms are cut alike. -/
theorem Form.cut (hquote : quote = '\x27' ∨ quote = '"') {a b : Char}
    {cs cs' rest rest' : List Char} (h : Form quote a cs) (h' : Form quote b cs')
    (heq : cs ++ rest = cs' ++ rest') : a = b ∧ rest = rest' := by
  obtain ⟨hletters, hapart, hwidths⟩ := letters_inj hquote
  -- What stands behind the backslash tells a letter from a number, and how many digits follow.
  cases h with
  | plain hslash =>
    cases h' with
    | plain => exact List.cons.inj heq
    | letter => exact absurd (List.cons.inj heq).1 hslash
    | number => exact absurd (List.cons.inj heq).1 hslash
  | letter hl =>
    cases h' with
    | plain hslash => exact absurd (List.cons.inj heq).1.symm hslash
    | letter hl' =>
      obtain ⟨hletter, hrest⟩ := List.cons.inj (List.cons.inj heq).2
      exact ⟨hletters _ hl _ hl' hletter, hrest⟩
    | number hl' => exact absurd (List.cons.inj (List.cons.inj heq).2).1 (hapart _ hl _ hl')
  | @number l _ width hl hc =>
    cases h' with
    | plain hslash => exact absurd (List.cons.inj heq).1.symm hslash
    | letter hl' => exact absurd (List.cons.inj (List.cons.inj heq).2).1.symm (hapart _ hl' _ hl)
    | @number l' _ width' hl' hc' =>
      obtain ⟨hletter, htail⟩ := List.cons.inj (List.cons.inj heq).2
      obtain rfl : width = width' := hwidths _ hl _ hl' hletter
      obtain ⟨hdigits, hrest⟩ := List.append_inj htail (by simp only [length_hexDigits])
      exact ⟨Char.toNat_inj.mp (hexDigits_inj hc hc' hdigits), hrest⟩

theorem Form.ne_nil {c : Char} {cs : List Char} (h : Form quote c cs) : cs ≠ [] := by
  cases h <;> exact List.cons_ne_nil _ _

/-- No form has a line feed in it. -/
theorem Form.newline_notMem (hquote : quote = '\x27' ∨ quote = '"') {c : Char} {cs : List Char}
    (h : Form quote c cs) : '\n' ∉ cs := by
  have hletters : ∀ a ∈ letters quote, '\n' ≠ a.1 := by rcases hquote with rfl | rfl <;> decide
  have hnumbers : ∀ a ∈ numberLetters, '\n' ≠ a.1 := by decide
  cases h with
  | plain _ hnewline => exact fun hmem => hnewline (List.mem_singleton.mp hmem).symm
  | letter hl =>
    simp only [List.mem_cons, List.not_mem_nil, or_false, not_or]
    exact ⟨by decide, hletters _ hl⟩
  | number hl hc =>
    simp only [List.mem_cons, not_or]
    exact ⟨by decide, hnumbers _ hl, newline_notMem_hexDigits _ _⟩

/-! ## Texts -/

/-- **The written form of a character ends where it must**, whatever comes behind. -/
theorem isPrefixCode_encodeChar (hquote : quote = '\x27' ∨ quote = '"') :
    IsPrefixCode (encodeChar plain quote) fun _ => True where
  ne_nil c _ := (form_encodeChar plain quote c).ne_nil
  cut a b _ _ _ _ heq :=
    (form_encodeChar plain quote a).cut hquote (form_encodeChar plain quote b) heq

theorem quoteFor_eq (cs : List Char) : quoteFor cs = '\x27' ∨ quoteFor cs = '"' := by
  unfold quoteFor
  split
  · exact Or.inr rfl
  · exact Or.inl rfl

/-- Different texts are encoded differently, although the quote may differ too. -/
theorem encode_injective (plain : Char → Bool) : Function.Injective (encode plain) := by
  intro cs cs' h
  obtain ⟨hquote, htail⟩ := List.cons.inj h
  obtain ⟨hcodes, _⟩ := List.append_inj' htail rfl
  rw [← hquote] at hcodes
  exact (isPrefixCode_encodeChar (quoteFor_eq cs)).flatMap_injective (fun _ _ => trivial)
    (fun _ _ => trivial) hcodes

theorem newline_notMem_encode (plain : Char → Bool) (cs : List Char) : '\n' ∉ encode plain cs := by
  have hquote : '\n' ≠ quoteFor cs := by rcases quoteFor_eq cs with h | h <;> rw [h] <;> decide
  unfold encode
  simp only [List.cons_append, List.mem_cons, List.mem_append, List.mem_flatMap, List.not_mem_nil,
    or_false, not_or, not_exists, not_and]
  exact ⟨hquote, fun c _ => (form_encodeChar plain _ c).newline_notMem (quoteFor_eq cs), hquote⟩

end Quoted

theorem toNat_byteChar (b : UInt8) : (byteChar b).toNat = b.toNat := by
  have hvalid : b.toNat.isValidChar := Or.inl (Nat.lt_trans b.toNat_lt (by decide))
  unfold byteChar Char.ofNat
  rw [dif_pos hvalid]
  rfl

/-- The character of a byte gives the byte back. -/
theorem ofNat_byteChar (b : UInt8) : UInt8.ofNat (byteChar b).toNat = b := by
  rw [toNat_byteChar]
  exact UInt8.ofNat_toNat

/-- **A quoted text stands for one text.** -/
theorem quote_injective : Function.Injective quote := fun _ _ h =>
  String.toList_injective (Quoted.encode_injective isPrintable (String.ofList_injective h))

/-- **A quoted byte string stands for one byte string.** -/
theorem quoteBytes_injective : Function.Injective quoteBytes := by
  intro bytes bytes' h
  have hchars := Quoted.encode_injective _ (List.cons.inj (String.ofList_injective h)).2
  refine List.map_injective_iff.mpr (fun b b' hb => UInt8.toNat_inj.mp ?_) hchars
  rw [← toNat_byteChar, ← toNat_byteChar, hb]

/-- A quoted text stays on one line. -/
theorem newline_notMem_quote (s : String) : '\n' ∉ (quote s).toList := by
  unfold quote
  rw [String.toList_ofList]
  exact Quoted.newline_notMem_encode isPrintable s.toList

/-- A quoted byte string stays on one line. -/
theorem newline_notMem_quoteBytes (bytes : List UInt8) : '\n' ∉ (quoteBytes bytes).toList := by
  unfold quoteBytes
  rw [String.toList_ofList, List.mem_cons, not_or]
  exact ⟨by decide, Quoted.newline_notMem_encode isPrintableAscii _⟩

end SchemaRegistry.Text
