import Mathlib.Algebra.Field.Rat
import Mathlib.Tactic.FieldSimp
import Mathlib.Tactic.Ring
import SchemaRegistry.Proofs.DefaultText
import SchemaRegistry.Proofs.Escaping

/-!
# The texts of floating-point numbers

What a floating-point number may look like is given by a small grammar (`IsDecimal`, `IsInfinity`,
`IsNaN`), which says at the same time which number a text stands for. The reader of literals takes
exactly these texts (`isFloat_iff`), and the literal of a decimal one has its exact value.
-/

namespace SchemaRegistry

namespace Numeral

/-! ## The grammar -/

/-- The sign of a number may be left out if it is not a minus. -/
inductive IsSign : List Char → Bool → Prop
  | none : IsSign [] false
  | plus : IsSign ['+'] false
  | minus : IsSign ['-'] true

/-- At least one digit. -/
def IsDigits (cs : List Char) : Prop := cs ≠ [] ∧ ∀ c ∈ cs, c.isDigit

instance (cs : List Char) : Decidable (IsDigits cs) :=
  decidable_of_iff (cs ≠ [] ∧ cs.all Char.isDigit) (and_congr_right' List.all_eq_true)

/-- Digits with a point or without, and the number they stand for. There is a digit before the point
or behind it. -/
inductive IsMantissa : List Char → ℚ → Prop
  | whole {ds : List Char} : IsDigits ds → IsMantissa ds (ofDigits ds)
  | point {ds fs : List Char} : IsDigits ds → (∀ c ∈ fs, c.isDigit) →
      IsMantissa (ds ++ '.' :: fs) (ofDigits ds + ofDigits fs / 10 ^ fs.length)
  | fraction {fs : List Char} : IsDigits fs →
      IsMantissa ('.' :: fs) (ofDigits fs / 10 ^ fs.length)

/-- Nothing at all, or the power of ten behind an `e`. -/
inductive IsExponent : List Char → ℤ → Prop
  | none : IsExponent [] 0
  | some {mark : Char} {sign ds : List Char} {negative : Bool} : mark = 'e' ∨ mark = 'E' →
      IsSign sign negative → IsDigits ds →
      IsExponent (mark :: (sign ++ ds)) (if negative then -ofDigits ds else ofDigits ds)

/-- The text is that of a decimal number with the given sign and absolute value. -/
def IsDecimal (cs : List Char) (negative : Bool) (magnitude : ℚ) : Prop :=
  ∃ sign m x q e, IsSign sign negative ∧ IsMantissa m q ∧ IsExponent x e
    ∧ cs = sign ++ (m ++ x) ∧ magnitude = q * 10 ^ e

/-- The word, whatever the case of its letters, behind a sign. -/
def IsSigned (word : List Char) (cs : List Char) (negative : Bool) : Prop :=
  ∃ sign w, IsSign sign negative ∧ w.map Char.toLower = word ∧ cs = sign ++ w

/-- The word for infinity or its short form, behind a sign or none. -/
def IsInfinity (cs : List Char) (negative : Bool) : Prop :=
  IsSigned ['i', 'n', 'f'] cs negative
    ∨ IsSigned ['i', 'n', 'f', 'i', 'n', 'i', 't', 'y'] cs negative

/-- The word for NaN, behind a sign or none. -/
def IsNaN (cs : List Char) : Prop := ∃ negative, IsSigned ['n', 'a', 'n'] cs negative

/-- The language of floating-point literals. -/
def IsFloat (cs : List Char) : Prop :=
  (∃ negative q, IsDecimal cs negative q) ∨ (∃ negative, IsInfinity cs negative) ∨ IsNaN cs

/-- The number that a decimal stands for. -/
def Decimal.value (d : Decimal) : ℚ := d.significand * 10 ^ d.exponent

/-! ## Signs and digits -/

/-- Every text splits into a sign, which may be empty, and the rest. -/
theorem exists_sign (cs : List Char) :
    ∃ sign, IsSign sign (takeSign cs).1 ∧ cs = sign ++ (takeSign cs).2 := by
  unfold takeSign
  split
  · exact ⟨_, .minus, rfl⟩
  · exact ⟨_, .plus, rfl⟩
  · exact ⟨_, .none, rfl⟩

/-- A sign is taken off as it stands in front of something that is none. -/
theorem takeSign_append {sign rest : List Char} {negative : Bool} (h : IsSign sign negative)
    (hrest : ∀ c ∈ rest.head?, c ≠ '-' ∧ c ≠ '+') : takeSign (sign ++ rest) = (negative, rest) := by
  cases h with
  | plus => rfl
  | minus => rfl
  | none =>
    rw [List.nil_append]
    -- Without a sign nothing is taken, since the rest starts with none.
    unfold takeSign
    split
    · exact absurd rfl (hrest '-' rfl).1
    · exact absurd rfl (hrest '+' rfl).2
    · rfl

theorem ne_sign_of_isDigit {c : Char} (h : c.isDigit) : c ≠ '-' ∧ c ≠ '+' := by
  constructor
  · rintro rfl
    exact absurd h (by decide)
  · rintro rfl
    exact absurd h (by decide)

/-- A run of digits is taken up to what is no digit. -/
theorem takeDigits_eq {ds rest : List Char} (hds : ∀ c ∈ ds, c.isDigit)
    (hrest : ∀ c ∈ rest.head?, ¬ c.isDigit) : takeDigits (ds ++ rest) = (ds, rest) := by
  unfold takeDigits
  rw [List.takeWhile_append_of_pos hds, List.dropWhile_append_of_pos hds]
  cases rest with
  | nil => rw [List.takeWhile_nil, List.dropWhile_nil, List.append_nil]
  | cons c rest =>
    rw [List.takeWhile_cons_of_neg (hrest c rfl), List.dropWhile_cons_of_neg (hrest c rfl),
      List.append_nil]

theorem isDigit_of_mem_takeDigits {cs : List Char} {c : Char} (h : c ∈ (takeDigits cs).1) :
    c.isDigit :=
  List.mem_takeWhile_imp h

/-- Digits on both sides of the point count as if there was none, but for the places behind it. -/
theorem ofDigits_append (ds fs : List Char) :
    (ofDigits (ds ++ fs) : ℚ) / 10 ^ fs.length = ofDigits ds + ofDigits fs / 10 ^ fs.length := by
  have happend : ofDigits (ds ++ fs) = 10 ^ fs.length * ofDigits ds + ofDigits fs := by
    unfold ofDigits
    rw [Nat.ofDigitChars_append, Nat.ofDigitChars_eq_ofDigitChars_zero]
  rw [happend]
  push_cast
  field_simp

namespace FloatLiteral

/-! ## Decimal literals -/

/-- Where a mantissa is over: no digit and no point comes next. -/
def EndsMantissa (rest : List Char) : Prop := ∀ c ∈ rest.head?, ¬ c.isDigit ∧ c ≠ '.'

/-- Digits on either side of a point are a mantissa, if there are any on one of them. -/
theorem isMantissa_of_point {ds fs : List Char} (hds : ∀ c ∈ ds, c.isDigit)
    (hfs : ∀ c ∈ fs, c.isDigit) (hne : ¬ (ds = [] ∧ fs = [])) :
    IsMantissa (ds ++ '.' :: fs) (ofDigits (ds ++ fs) / 10 ^ fs.length) := by
  by_cases hnil : ds = []
  · subst hnil
    exact .fraction ⟨fun hnil => hne ⟨rfl, hnil⟩, hfs⟩
  · rw [ofDigits_append]
    exact .point ⟨hnil, hds⟩ hfs

/-- What is taken off as a mantissa is one, and its digits give its value. -/
theorem isMantissa_of_takeMantissa? {cs ds fs rest : List Char}
    (h : takeMantissa? cs = some (ds, fs, rest)) :
    ∃ m, cs = m ++ rest ∧ IsMantissa m (ofDigits (ds ++ fs) / 10 ^ fs.length) := by
  unfold takeMantissa? at h
  have hcs := takeDigits_append cs
  have hds : ∀ c ∈ (takeDigits cs).1, c.isDigit := fun c => isDigit_of_mem_takeDigits
  generalize takeDigits cs = taken at h hcs hds
  obtain ⟨whole, after⟩ := taken
  dsimp only at h hcs hds
  split at h
  · -- There is a point.
    rename_i behind
    have hbehind := takeDigits_append behind
    have hfs : ∀ c ∈ (takeDigits behind).1, c.isDigit := fun c => isDigit_of_mem_takeDigits
    generalize takeDigits behind = taken at h hbehind hfs
    obtain ⟨fraction, rest'⟩ := taken
    dsimp only at h hbehind hfs
    split at h
    · cases h
    · rename_i hne
      cases h
      subst hcs hbehind
      exact ⟨ds ++ '.' :: fs, by simp, isMantissa_of_point hds hfs hne⟩
  -- There is none.
  · dsimp only at h
    split at h
    · cases h
    · rename_i hne
      cases h
      subst hcs
      refine ⟨ds, rfl, ?_⟩
      rw [List.append_nil, List.length_nil, pow_zero, div_one]
      exact .whole ⟨fun hnil => hne ⟨hnil, rfl⟩, hds⟩

theorem takeMantissa?_point {ds fs rest : List Char} (hds : ∀ c ∈ ds, c.isDigit)
    (hfs : ∀ c ∈ fs, c.isDigit) (hne : ¬ (ds = [] ∧ fs = [])) (hrest : EndsMantissa rest) :
    takeMantissa? (ds ++ '.' :: (fs ++ rest)) = some (ds, fs, rest) := by
  have hpoint : ∀ c ∈ ('.' :: (fs ++ rest)).head?, ¬ c.isDigit := by
    rintro _ ⟨⟩
    decide
  unfold takeMantissa?
  rw [takeDigits_eq hds hpoint]
  show (if ds = [] ∧ (takeDigits (fs ++ rest)).1 = [] then none
    else some (ds, takeDigits (fs ++ rest))) = _
  rw [takeDigits_eq hfs fun c hc => (hrest c hc).1]
  exact if_neg hne

/-- A mantissa is taken off whole, unless it could go on. -/
theorem takeMantissa?_append {m rest : List Char} {q : ℚ} (h : IsMantissa m q)
    (hrest : EndsMantissa rest) : ∃ ds fs, takeMantissa? (m ++ rest) = some (ds, fs, rest)
      ∧ q = ofDigits (ds ++ fs) / 10 ^ fs.length := by
  cases h with
  | whole hds =>
    refine ⟨m, [], ?_, by rw [List.append_nil, List.length_nil, pow_zero, div_one]⟩
    unfold takeMantissa?
    rw [takeDigits_eq hds.2 fun c hc => (hrest c hc).1]
    dsimp only
    split
    -- No point is behind the digits, since the mantissa ends there.
    · exact absurd rfl (hrest '.' rfl).2
    · exact if_neg fun hnil => hds.1 hnil.1
  | @point ds fs hds hfs =>
    refine ⟨ds, fs, ?_, (ofDigits_append ds fs).symm⟩
    rw [List.append_assoc]
    exact takeMantissa?_point hds.2 hfs (fun hnil => hds.1 hnil.1) hrest
  | @fraction fs hfs =>
    have hnone : ∀ c ∈ ([] : List Char), c.isDigit := nofun
    exact ⟨[], fs, takeMantissa?_point hnone hfs.2 (fun hnil => hfs.1 hnil.2) hrest, rfl⟩

/-- What is read as an exponent is one. -/
theorem isExponent_of_exponent? {cs : List Char} {e : ℤ} (h : exponent? cs = some e) :
    IsExponent cs e := by
  unfold exponent? at h
  split at h
  -- No exponent at all.
  · cases h
    exact .none
  · rename_i mark rest
    split at h
    · rename_i hmark
      -- A mark, a sign and nothing but digits, of which there is at least one.
      obtain ⟨sign, hsign, hrest⟩ := exists_sign rest
      generalize takeSign rest = taken at h hsign hrest
      obtain ⟨negative, ds⟩ := taken
      dsimp only at h hsign hrest
      cases htaken : takeDigits ds with
      | mk digits after =>
        rw [htaken] at h
        dsimp only at h
        split at h
        · cases h
        · rename_i hno
          rw [not_or, not_not] at hno
          obtain ⟨hne, rfl⟩ := hno
          obtain ⟨rfl, hdigits⟩ := takeDigits_eq_iff.mp htaken
          cases h
          subst hrest
          exact .some hmark hsign ⟨hne, hdigits⟩
    · cases h

/-- What is spelled as an exponent is read as one. -/
theorem IsExponent.exponent?_eq {cs : List Char} {e : ℤ} (h : IsExponent cs e) :
    exponent? cs = some e := by
  cases h with
  | none => rfl
  | @some mark sign ds negative hmark hsign hds =>
    -- The digits do not start with a sign, so the sign ends where it should.
    have hhead : ∀ c ∈ ds.head?, c ≠ '-' ∧ c ≠ '+' := fun c hc =>
      ne_sign_of_isDigit (hds.2 c (List.mem_of_mem_head? hc))
    unfold exponent?
    dsimp only
    rw [if_pos hmark, takeSign_append hsign hhead, takeDigits_eq_iff.mpr ⟨rfl, hds.2⟩]
    exact if_neg fun h => h.elim hds.1 fun h => h rfl

theorem IsExponent.endsMantissa {cs : List Char} {e : ℤ} (h : IsExponent cs e) :
    EndsMantissa cs := by
  cases h with
  | none => exact nofun
  | some hmark =>
    rintro _ ⟨⟩
    rcases hmark with rfl | rfl <;> decide

/-- The value of a decimal literal is that of its mantissa times a power of ten. -/
theorem value_mk (n places : ℕ) (e : ℤ) :
    Decimal.value ⟨n, e - places⟩ = n / 10 ^ places * 10 ^ e := by
  unfold Decimal.value
  rw [zpow_sub₀ (by norm_num), zpow_natCast]
  ring

/-- What is read as a decimal is spelled as one, and has its value. -/
theorem isDecimal_of_decimal? {cs : List Char} {negative : Bool} {l : FloatLiteral}
    (h : decimal? negative cs = some l) : ∃ m x q e d, IsMantissa m q ∧ IsExponent x e
      ∧ cs = m ++ x ∧ l = .decimal negative d ∧ d.value = q * 10 ^ e := by
  unfold decimal? at h
  obtain ⟨⟨ds, fs, rest⟩, hm, h⟩ := Option.bind_eq_some_iff.mp h
  obtain ⟨e, hx, h⟩ := Option.bind_eq_some_iff.mp h
  obtain ⟨m, hcs, hmantissa⟩ := isMantissa_of_takeMantissa? hm
  obtain rfl := Option.some.inj h
  exact ⟨m, rest, _, e, _, hmantissa, isExponent_of_exponent? hx, hcs, rfl, value_mk _ _ _⟩

/-- What is spelled as a decimal is read as one. -/
theorem decimal?_append {m x : List Char} {q : ℚ} {e : ℤ} (hm : IsMantissa m q)
    (hx : IsExponent x e) (negative : Bool) :
    ∃ d, decimal? negative (m ++ x) = some (.decimal negative d) ∧ d.value = q * 10 ^ e := by
  obtain ⟨ds, fs, htaken, rfl⟩ := takeMantissa?_append hm (IsExponent.endsMantissa hx)
  refine ⟨⟨ofDigits (ds ++ fs), e - fs.length⟩, ?_, value_mk _ _ _⟩
  unfold decimal?
  rw [htaken, Option.bind_eq_bind, Option.bind_some]
  dsimp only
  rw [IsExponent.exponent?_eq hx]
  rfl

/-! ## Words -/

/-- There are three words, in any mixture of cases. -/
theorem eq_of_word? {negative : Bool} {cs : List Char} {l : FloatLiteral}
    (h : word? negative cs = some l) :
    (l = .infinity negative ∧ (cs.map Char.toLower = ['i', 'n', 'f']
        ∨ cs.map Char.toLower = ['i', 'n', 'f', 'i', 'n', 'i', 't', 'y']))
      ∨ (l = .nan ∧ cs.map Char.toLower = ['n', 'a', 'n']) := by
  unfold word? at h
  split at h
  · rename_i hword
    cases h
    exact Or.inl ⟨rfl, Or.inl hword⟩
  · rename_i hword
    cases h
    exact Or.inl ⟨rfl, Or.inr hword⟩
  · rename_i hword
    cases h
    exact Or.inr ⟨rfl, hword⟩
  · cases h

/-- A mantissa starts with a digit or a point. -/
theorem exists_head_of_isMantissa {m : List Char} {q : ℚ} (h : IsMantissa m q) :
    ∃ c m', m = c :: m' ∧ (c.isDigit ∨ c = '.') := by
  cases h with
  | whole hds =>
    obtain ⟨c, m', rfl⟩ := List.exists_cons_of_ne_nil hds.1
    exact ⟨c, m', rfl, Or.inl (hds.2 c List.mem_cons_self)⟩
  | point hds =>
    obtain ⟨c, m', rfl⟩ := List.exists_cons_of_ne_nil hds.1
    exact ⟨c, _, rfl, Or.inl (hds.2 c List.mem_cons_self)⟩
  | fraction => exact ⟨_, _, rfl, Or.inr rfl⟩

theorem toNat_lt_of_isDigit {c : Char} (h : c.isDigit) : c.toNat < 128 := by
  simp only [Char.isDigit, Bool.and_eq_true, decide_eq_true_eq, UInt32.le_iff_toNat_le] at h
  exact Nat.lt_of_le_of_lt h.2 (by decide)

/-- No word begins with a digit or a point. -/
theorem word?_of_isMantissa {m : List Char} {q : ℚ} (h : IsMantissa m q) (negative : Bool)
    (rest : List Char) : word? negative (m ++ rest) = none := by
  obtain ⟨c, m', rfl, hc⟩ := exists_head_of_isMantissa h
  -- A mantissa starts with a digit or a point, and each word with a letter.
  have hlower : c.toLower ≠ 'i' ∧ c.toLower ≠ 'n' := by
    rcases hc with hc | rfl
    · exact Default.of_ascii (P := fun c => c.isDigit = true → c.toLower ≠ 'i' ∧ c.toLower ≠ 'n')
        (by decide) (toNat_lt_of_isDigit hc) hc
    · decide
  rw [Option.eq_none_iff_forall_ne_some]
  intro l hl
  rcases eq_of_word? hl with ⟨_, hword | hword⟩ | ⟨_, hword⟩
  · exact hlower.1 (List.cons.inj hword).1
  · exact hlower.1 (List.cons.inj hword).1
  · exact hlower.2 (List.cons.inj hword).1

/-! ## Literals -/

/-- The text is one of the literal. -/
def Spelled (cs : List Char) : FloatLiteral → Prop
  | .decimal negative d => IsDecimal cs negative d.value
  | .infinity negative => IsInfinity cs negative
  | .nan => IsNaN cs

/-- What is read as a literal is spelled as one. -/
theorem spelled_of_ofChars? {cs : List Char} {l : FloatLiteral} (h : ofChars? cs = some l) :
    l.Spelled cs := by
  unfold ofChars? at h
  obtain ⟨sign, hsign, hcs⟩ := exists_sign cs
  generalize takeSign cs = taken at h hsign hcs
  obtain ⟨negative, rest⟩ := taken
  dsimp only at h hsign hcs
  -- A word, or else a decimal.
  rcases Option.or_eq_some_iff.mp h with hword | ⟨_, hdecimal⟩
  · rcases eq_of_word? hword with ⟨rfl, hinf | hinfinity⟩ | ⟨rfl, hnan⟩
    · exact Or.inl ⟨sign, rest, hsign, hinf, hcs⟩
    · exact Or.inr ⟨sign, rest, hsign, hinfinity, hcs⟩
    · exact ⟨negative, sign, rest, hsign, hnan, hcs⟩
  · obtain ⟨m, x, q, e, d, hm, hx, rfl, rfl, hvalue⟩ := isDecimal_of_decimal? hdecimal
    exact ⟨sign, m, x, q, e, hsign, hm, hx, hcs, hvalue⟩

/-- A decimal behind a sign is read with its exact value. -/
theorem ofChars?_of_isDecimal {cs : List Char} {negative : Bool} {q : ℚ}
    (h : IsDecimal cs negative q) :
    ∃ d, ofChars? cs = some (.decimal negative d) ∧ d.value = q := by
  obtain ⟨sign, m, x, q', e, hsign, hm, hx, rfl, rfl⟩ := h
  obtain ⟨d, hdecimal, hvalue⟩ := decimal?_append hm hx negative
  -- The sign is followed by a digit or a point.
  have hhead : ∀ c ∈ (m ++ x).head?, c ≠ '-' ∧ c ≠ '+' := by
    obtain ⟨c, m', rfl, hc⟩ := exists_head_of_isMantissa hm
    rintro _ ⟨⟩
    rcases hc with hc | rfl
    · exact ne_sign_of_isDigit hc
    · decide
  refine ⟨d, ?_, hvalue⟩
  unfold ofChars?
  rw [takeSign_append hsign hhead]
  dsimp only
  rw [word?_of_isMantissa hm, Option.none_or, hdecimal]

/-- A word behind a sign is read as a word. -/
theorem ofChars?_of_isSigned {word cs : List Char} {negative : Bool} {l : FloatLiteral}
    (h : IsSigned word cs negative)
    (hl : ∀ w, w.map Char.toLower = word → word? negative w = some l)
    (hminus : word.head? ≠ some '-') (hplus : word.head? ≠ some '+') : ofChars? cs = some l := by
  obtain ⟨sign, w, hsign, hw, rfl⟩ := h
  -- The word does not start with a sign, in either case.
  have hhead : ∀ c ∈ w.head?, c ≠ '-' ∧ c ≠ '+' := by
    intro c hc
    have hlower : c.toLower ∈ word.head? := by
      rw [← hw, List.head?_map]
      exact Option.mem_map_of_mem _ hc
    constructor
    · rintro rfl
      exact hminus hlower
    · rintro rfl
      exact hplus hlower
  unfold ofChars?
  rw [takeSign_append hsign hhead]
  dsimp only
  rw [hl w hw, Option.some_or]

theorem ofChars?_of_isInfinity {cs : List Char} {negative : Bool} (h : IsInfinity cs negative) :
    ofChars? cs = some (.infinity negative) := by
  rcases h with h | h
  · exact ofChars?_of_isSigned h (fun w hw => by simp only [word?, hw]) (by decide) (by decide)
  · exact ofChars?_of_isSigned h (fun w hw => by simp only [word?, hw]) (by decide) (by decide)

theorem ofChars?_of_isNaN {cs : List Char} (h : IsNaN cs) : ofChars? cs = some .nan := by
  obtain ⟨negative, h⟩ := h
  exact ofChars?_of_isSigned h (fun w hw => by simp only [word?, hw]) (by decide) (by decide)

/-- **The reader of floating-point literals accepts their language.** -/
theorem isFloat_iff {cs : List Char} : IsFloat cs ↔ ∃ l, ofChars? cs = some l := by
  constructor
  · rintro (⟨negative, q, h⟩ | ⟨negative, h⟩ | h)
    · obtain ⟨d, hd, _⟩ := ofChars?_of_isDecimal h
      exact ⟨_, hd⟩
    · exact ⟨_, ofChars?_of_isInfinity h⟩
    · exact ⟨_, ofChars?_of_isNaN h⟩
  · rintro ⟨l, h⟩
    have hspelled := spelled_of_ofChars? h
    cases l with
    | decimal negative d => exact Or.inl ⟨negative, _, hspelled⟩
    | infinity negative => exact Or.inr (Or.inl ⟨negative, hspelled⟩)
    | nan => exact Or.inr (Or.inr hspelled)

end FloatLiteral

end Numeral

end SchemaRegistry
