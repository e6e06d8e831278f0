import SchemaRegistry.Proofs.FloatText

/-!
# Defaults of the float types

The default of a float or double field has to be a literal, and then it is read in free form, which
admits more. But no literal is changed by being taken as free form, so whatever is admitted is read,
as the literal that it is. The form of a default is therefore that of the literals and nothing else,
the same for both types (`parse_float`).
-/

namespace SchemaRegistry

namespace Numeral

namespace FloatLiteral

/-! ## Free form -/

/-- The characters of floating-point numbers, letters in lower case. -/
def floatChars : List Char :=
  ['0', '1', '2', '3', '4', '5', '6', '7', '8', '9', '+', '-', '.', 'e', 'i', 'n', 'f', 't', 'y',
    'a']

theorem toLower_mem_of_isDigit {c : Char} (h : c.isDigit) : c.toLower ∈ floatChars :=
  Default.of_ascii (P := fun c => c.isDigit = true → c.toLower ∈ floatChars) (by decide)
    (toNat_lt_of_isDigit h) h

theorem toLower_mem_of_isSign {sign : List Char} {negative : Bool} (h : IsSign sign negative) :
    ∀ c ∈ sign, c.toLower ∈ floatChars := by
  have hsign : sign.map Char.toLower ⊆ floatChars := by cases h <;> decide
  exact fun c hc => hsign (List.mem_map_of_mem hc)

theorem toLower_mem_of_isDecimal {cs : List Char} {negative : Bool} {q : ℚ}
    (h : IsDecimal cs negative q) : ∀ c ∈ cs, c.toLower ∈ floatChars := by
  obtain ⟨sign, m, x, q', e, hsign, hm, hx, rfl, _⟩ := h
  -- A mantissa has digits and at most one point.
  have hmantissa : ∀ c ∈ m, c.toLower ∈ floatChars := by
    intro c hc
    cases hm with
    | whole hds => exact toLower_mem_of_isDigit (hds.2 c hc)
    | point hds hfs =>
      rcases List.mem_append.mp hc with hc | hc
      · exact toLower_mem_of_isDigit (hds.2 c hc)
      · rcases List.mem_cons.mp hc with rfl | hc
        · decide
        · exact toLower_mem_of_isDigit (hfs c hc)
    | fraction hfs =>
      rcases List.mem_cons.mp hc with rfl | hc
      · decide
      · exact toLower_mem_of_isDigit (hfs.2 c hc)
  -- An exponent has its mark, a sign and digits.
  have hexponent : ∀ c ∈ x, c.toLower ∈ floatChars := by
    intro c hc
    cases hx with
    | none => cases hc
    | some hmark hsign' hds =>
      rcases List.mem_cons.mp hc with rfl | hc
      · rcases hmark with rfl | rfl <;> decide
      · rcases List.mem_append.mp hc with hc | hc
        · exact toLower_mem_of_isSign hsign' c hc
        · exact toLower_mem_of_isDigit (hds.2 c hc)
  intro c hc
  rcases List.mem_append.mp hc with hc | hc
  · exact toLower_mem_of_isSign hsign c hc
  · rcases List.mem_append.mp hc with hc | hc
    · exact hmantissa c hc
    · exact hexponent c hc

theorem toLower_mem_of_isSigned {word cs : List Char} {negative : Bool}
    (h : IsSigned word cs negative) (hword : word ⊆ floatChars) :
    ∀ c ∈ cs, c.toLower ∈ floatChars := by
  obtain ⟨sign, w, hsign, rfl, rfl⟩ := h
  intro c hc
  rcases List.mem_append.mp hc with hc | hc
  · exact toLower_mem_of_isSign hsign c hc
  · exact hword (List.mem_map_of_mem hc)

/-- A literal is made of a few ASCII characters. -/
theorem toLower_mem_of_isFloat {cs : List Char} (h : IsFloat cs) :
    ∀ c ∈ cs, c.toLower ∈ floatChars := by
  rcases h with ⟨negative, q, h⟩ | ⟨negative, h | h⟩ | ⟨negative, h⟩
  · exact toLower_mem_of_isDecimal h
  · exact toLower_mem_of_isSigned h (by decide)
  · exact toLower_mem_of_isSigned h (by decide)
  · exact toLower_mem_of_isSigned h (by decide)

/-- None of these characters is one that free form knows and literals do not. -/
theorem plain_of_toLower_mem {c : Char} (h : c.toLower ∈ floatChars) :
    asciiDigit c = c ∧ Text.isBlank c = false ∧ c ≠ '_' := by
  -- In lower case all of these are ASCII, and an upper-case letter that has such a lower case is
  -- too.
  have hascii : c.toNat < 128 := by
    have hlower : floatChars.all fun d => d.toNat < 128 := by decide
    have hlt := of_decide_eq_true (List.all_eq_true.mp hlower _ h)
    unfold Char.toLower at hlt
    split at hlt
    · rename_i hupper
      exact Nat.lt_of_le_of_lt (UInt32.le_iff_toNat_le.mp hupper.2) (by decide)
    · exact hlt
  exact Default.of_ascii (P := fun c => c.toLower ∈ floatChars →
    asciiDigit c = c ∧ Text.isBlank c = false ∧ c ≠ '_') (by decide +kernel) hascii h

/-- Without white space there is nothing to trim. -/
theorem trimBlanks_eq_self {cs : List Char} (h : ∀ c ∈ cs, Text.isBlank c = false) :
    Text.trimBlanks cs = cs := by
  have hkept {ds : List Char} (hds : ∀ c ∈ ds, Text.isBlank c = false) :
      ds.dropWhile Text.isBlank = ds := by
    cases ds with
    | nil => rfl
    | cons c ds =>
      exact List.dropWhile_cons_of_neg (Bool.not_eq_true _ ▸ hds c List.mem_cons_self)
  unfold Text.trimBlanks
  rw [hkept h, hkept fun c hc => h c (List.mem_reverse.mp hc), List.reverse_reverse]

/-- Without underscores there is nothing to join. -/
theorem joinDigits?_eq_self {cs : List Char} (h : ∀ c ∈ cs, c ≠ '_') (afterDigit : Bool) :
    joinDigits? afterDigit cs = some cs := by
  induction cs generalizing afterDigit with
  | nil => rfl
  | cons c cs ih =>
    unfold joinDigits?
    rw [if_neg (h c List.mem_cons_self), ih fun c hc => h c (List.mem_cons_of_mem _ hc)]
    rfl

/-- **A literal is its own free form.** -/
theorem ofFreeText?_of_isFloat {s : String} (h : IsFloat s.toList) :
    ofFreeText? s = ofText? s := by
  have hplain := fun c hc => plain_of_toLower_mem (toLower_mem_of_isFloat h c hc)
  have hdigits : s.toList.map asciiDigit = s.toList :=
    (List.map_congr_left fun c hc => (hplain c hc).1).trans (List.map_id _)
  unfold ofFreeText?
  rw [hdigits, trimBlanks_eq_self fun c hc => (hplain c hc).2.1,
    joinDigits?_eq_self fun c hc => (hplain c hc).2.2]
  rfl

end FloatLiteral

end Numeral

/-! ## What is not finite -/

namespace Double

/-- Words up to infinity are no NaN. -/
theorem isNaN_ofMagnitude (negative : Bool) (word : Nat) (h : word ≤ Binary.double.infinity) :
    (ofMagnitude negative word h).isNaN = false :=
  decide_eq_false (Nat.not_lt.mpr h)

theorem isNaN_ofDecimal (negative : Bool) (d : Numeral.Decimal) :
    (ofDecimal negative d).isNaN = false :=
  isNaN_ofMagnitude negative _ (Binary.double.roundDecimal_le_infinity _ _)

theorem isNaN_infinite (negative : Bool) : (infinite negative).isNaN = false :=
  isNaN_ofMagnitude negative _ (Nat.le_refl _)

/-- Rounding to single precision neither makes a NaN nor takes one away. -/
theorem isNaN_toSingle (x : Double) : x.toSingle.isNaN = x.isNaN := by
  unfold toSingle
  split
  · rfl
  · rename_i hfinite
    have hnumber : x.isNaN = false := decide_eq_false fun hnan => hfinite (Nat.le_of_lt hnan)
    rw [hnumber]
    split
    · exact isNaN_infinite _
    · exact isNaN_ofMagnitude _ _ _

theorem toSingle_infinite (negative : Bool) : (infinite negative).toSingle = infinite negative :=
  if_pos (Nat.le_refl _)

/-- The number is NaN if and only if the text is the word for this, and infinite with the sign of
the text if that is a word for infinity. -/
structure ReadsWord (x : Double) (cs : List Char) : Prop where
  isNaN_iff : x.isNaN = true ↔ Numeral.IsNaN cs
  eq_infinite : ∀ negative, Numeral.IsInfinity cs negative → x = infinite negative

end Double

open Numeral

/-- Rounding to single precision leaves infinities and NaN what they are. -/
theorem Double.ReadsWord.toSingle {x : Double} {cs : List Char} (h : x.ReadsWord cs) :
    x.toSingle.ReadsWord cs := by
  refine ⟨by rw [isNaN_toSingle]; exact h.isNaN_iff, fun negative hinfinity => ?_⟩
  rw [h.eq_infinite negative hinfinity, toSingle_infinite]

/-! ## Defaults -/

namespace Default

/-- What is special is read like everything else. -/
theorem ofText?_of_special {s : String} {x : Double} (h : specialFloats.lookup s = some x) :
    ∃ l, FloatLiteral.ofText? s = some l ∧ l.toDouble = x := by
  obtain ⟨before, after, hlist, _⟩ := List.lookup_eq_some_iff.mp h
  have hmem : (s, x) ∈ specialFloats := by
    rw [hlist]
    exact List.mem_append_right _ List.mem_cons_self
  simp only [specialFloats, List.mem_cons, Prod.mk.injEq, List.not_mem_nil, or_false] at hmem
  rcases hmem with ⟨rfl, rfl⟩ | ⟨rfl, rfl⟩ | ⟨rfl, rfl⟩
  · exact ⟨.infinity false, by decide, rfl⟩
  · exact ⟨.infinity true, by decide, rfl⟩
  · exact ⟨.nan, by decide, rfl⟩

/-- Neither the special spellings nor the free form make a difference. -/
theorem parseFloat_eq (s : String) (tag : Double → Value) :
    parseFloat s tag = match FloatLiteral.ofText? s with
      | some l => .ok (tag l.toDouble)
      | none => .error (.badText s) := by
  unfold parseFloat
  -- The table of special texts goes first, but says nothing that the literal would not.
  cases hspecial : specialFloats.lookup s with
  | some x =>
    obtain ⟨l, hl, rfl⟩ := ofText?_of_special hspecial
    rw [hl]
  | none =>
    cases hl : FloatLiteral.ofText? s with
    | none => rfl
    | some l =>
      dsimp only
      rw [FloatLiteral.ofFreeText?_of_isFloat (FloatLiteral.isFloat_iff.mpr ⟨l, hl⟩), hl]
      rfl

variable {t u : StoredType}

theorem parse_double (ht : t.kind = .scalar .double) (s : String) :
    parse s t = parseFloat s .double := by
  unfold parse
  rw [ht]
  rfl

theorem parse_single (hu : u.kind = .scalar .float) (s : String) :
    parse s u = parseFloat s fun x => .float x.toSingle := by
  unfold parse
  rw [hu]
  rfl

/-- Those texts are read that are literals, and to the value of the literal. -/
theorem parseFloat_eq_ok_iff {s : String} {tag : Double → Value} {v : Value} :
    parseFloat s tag = .ok v ↔ ∃ l, FloatLiteral.ofText? s = some l ∧ v = tag l.toDouble := by
  rw [parseFloat_eq]
  cases FloatLiteral.ofText? s with
  | none => simp
  | some l => simp [eq_comm]

end Default

end SchemaRegistry
