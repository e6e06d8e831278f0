import Std.Data.String.ToInt
import SchemaRegistry.Proofs.FloatPrinting
import SchemaRegistry.Proofs.IntegerText
import SchemaRegistry.Proofs.QuotedText
import SchemaRegistry.Proofs.WellTyped

/-!
# Values can be told from their texts

The text of a default value is on one line, whatever the value is (`newline_notMem_text`). It does
not say which type it is a value of, and `true` may be written for a boolean or for nothing else.
But of two values for the same type, if they are not floating-point numbers, the texts are the same
only if the values are (`Suits.eq_of_text`).
-/

namespace SchemaRegistry

/-! ## Integers -/

namespace Numeral

/-- An integer is written in digits, with a sign at most. -/
theorem notMem_toString_int {c : Char} (hdigit : c.isDigit = false) (hsign : c ∉ ['-', '+'])
    (n : Int) : c ∉ (toString n).toList := by
  have hspells : (IntegerLiteral.ofInt n).Spells true (toString n) :=
    IntegerLiteral.spells_ofInt fun _ => rfl
  have hdigits : c ∉ (IntegerLiteral.ofInt n).digits := fun hc =>
    absurd (hspells.digits.2 c hc) (by rw [hdigit]; exact Bool.false_ne_true)
  simp only [List.mem_cons, List.not_mem_nil, or_false, not_or] at hsign
  -- The text is the digits, with a sign in front or without.
  rcases hspells.text with ⟨_, _, htext⟩ | ⟨_, htext | htext⟩
  · rw [htext, List.mem_cons, not_or]
    exact ⟨hsign.1, hdigits⟩
  · rw [htext, List.mem_cons, not_or]
    exact ⟨hsign.2, hdigits⟩
  · rwa [htext]

end Numeral

/-! ## Values -/

/-- The text of a double has no line feed in it. -/
theorem Double.newline_notMem_text (x : Double) : '\n' ∉ x.text.toList := by
  cases hx : x.isNaN with
  | true =>
    rw [text_of_isNaN hx]
    decide
  | false =>
    obtain ⟨l, hl, _⟩ := Numeral.FloatLiteral.exists_ofText?_text hx
    have hfloat := Numeral.FloatLiteral.isFloat_iff.mpr ⟨l, hl⟩
    intro hmem
    exact absurd (Numeral.FloatLiteral.toLower_mem_of_isFloat hfloat _ hmem) (by decide)

namespace Value

/-- **The text of a value is on one line.** -/
theorem newline_notMem_text (v : Value) : '\n' ∉ v.text.toList := by
  have hint (n : Int) : '\n' ∉ (toString n).toList :=
    Numeral.notMem_toString_int (by decide) (by decide) n
  cases v with
  | bool b => cases b <;> decide
  | float x => exact x.newline_notMem_text
  | double x => exact x.newline_notMem_text
  | int32 n => exact hint n
  | int64 n => exact hint n
  | uint32 n => exact hint n
  | uint64 n => exact hint n
  | string s => exact Text.newline_notMem_quote s
  | bytes bs => exact Text.newline_notMem_quoteBytes bs

/-- Whether the value is a floating-point number. -/
def isFloating : Value → Bool
  | float _ | double _ => true
  | _ => false

/-- Both values are of the same representation. -/
inductive Alike : Value → Value → Prop where
  | bool (b b' : Bool) : Alike (bool b) (bool b')
  | float (x y : Double) : Alike (float x) (float y)
  | double (x y : Double) : Alike (double x) (double y)
  | int32 (m n : Int) : Alike (int32 m) (int32 n)
  | int64 (m n : Int) : Alike (int64 m) (int64 n)
  | uint32 (m n : Int) : Alike (uint32 m) (uint32 n)
  | uint64 (m n : Int) : Alike (uint64 m) (uint64 n)
  | string (s t : String) : Alike (string s) (string t)
  | bytes (bs cs : List UInt8) : Alike (bytes bs) (bytes cs)

variable {v w : Value} {s t : String} {k : Scalar}

/-- A type has one representation for its values. -/
theorem Suits.alike (hv : v.Suits s k) (hw : w.Suits t k) : v.Alike w := by
  -- A value of another representation suits only by a contradiction.
  cases k <;> cases v <;> first
    | exact False.elim hv
    | cases w <;> first | exact False.elim hw | constructor

theorem Alike.eq_of_text (h : v.Alike w) (hfloating : v.isFloating = false)
    (htext : v.text = w.text) : v = w := by
  cases h with
  | bool b b' => cases b <;> cases b' <;> first | rfl | exact absurd htext (by decide)
  | float | double => cases hfloating
  | int32 | int64 | uint32 | uint64 => rw [Int.repr_inj.mp htext]
  | string s t => rw [Text.quote_injective htext]
  | bytes bs cs => rw [Text.quoteBytes_injective htext]

end Value

end SchemaRegistry
