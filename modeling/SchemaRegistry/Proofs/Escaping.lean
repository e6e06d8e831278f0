import Mathlib.Data.Bool.AllAny
import Mathlib.Data.List.Basic
import Mathlib.Logic.ExistsUnique
import SchemaRegistry.Default.Escape

/-!
# The tokens of an escaped byte string

An escaped byte string is a sequence of tokens, each of which stands for one byte. Tokens may be
spelled alike where one ends and the next begins, so of all token lists for a text the *canonical*
one is meant, in which no token could have been longer. `unescape_tokens` says that every text has
exactly one canonical token list, and that unescaping gives its bytes. In the usual way of escaping
no token can be longer whatever comes next, so unescaping undoes it.
-/

namespace SchemaRegistry.Default

/-! ## Tokens -/

/-- The characters that a backslash makes an escape with, and the bytes of these escapes. -/
def simpleEscapes : List (Char × UInt8) :=
  [('n', 0x0a), ('r', 0x0d), ('t', 0x09), ('a', 0x07), ('b', 0x08), ('f', 0x0c), ('v', 0x0b),
    ('\\', 0x5c), ('\x27', 0x27), ('"', 0x22), ('?', 0x3f)]

/-- The digits of an octal escape. -/
def octalDigits : List Char := ['0', '1', '2', '3', '4', '5', '6', '7']

/-- The digits of a hexadecimal escape, in either case. -/
def hexDigits : List Char :=
  ['0', '1', '2', '3', '4', '5', '6', '7', '8', '9', 'a', 'b', 'c', 'd', 'e', 'f',
    'A', 'B', 'C', 'D', 'E', 'F']

/-- The value of a digit is its position among the digits, in which the last six come twice. -/
def digitValue (c : Char) : Nat :=
  if hexDigits.idxOf c < 16 then hexDigits.idxOf c else hexDigits.idxOf c - 6

/-- The number that digits spell in a base. -/
def numeral (base : Nat) (digits : List Char) : Nat :=
  digits.foldl (fun n c => base * n + digitValue c) 0

/-- At least one and at most `most` of the given digits. -/
structure DigitRun (digits : List Char) (most : Nat) where
  chars : List Char
  ne_nil : chars ≠ []
  length_le : chars.length ≤ most
  subset : chars ⊆ digits

/-- A stretch of an escaped text that stands for one byte. -/
inductive Token where
  | plain (c : Char) (h : c ≠ '\\')
  | simple (c : Char) (b : UInt8) (h : simpleEscapes.lookup c = some b)
  | octal (run : DigitRun octalDigits 3)
  | hex (x : Char) (hx : x = 'x' ∨ x = 'X') (run : DigitRun hexDigits 2)
  /-- A backslash that begins no escape. -/
  | lone

namespace Token

/-- The characters of a token. -/
def chars : Token → List Char
  | plain c _ => [c]
  | simple c _ _ => ['\\', c]
  | octal run => '\\' :: run.chars
  | hex x _ run => '\\' :: x :: run.chars
  | lone => ['\\']

/-- The byte that the token stands for, modulo 256 where there are greater numbers. -/
def byte : Token → UInt8
  | plain c _ => UInt8.ofNat c.toNat
  | simple _ b _ => b
  | octal run => UInt8.ofNat (numeral 8 run.chars)
  | hex _ _ run => UInt8.ofNat (numeral 16 run.chars)
  | lone => 0x5c

/-- In front of these characters the token is over: with the next of them it is no longer token, and
a backslash alone begins no escape with them. -/
def Ends : Token → List Char → Prop
  | octal run, next => run.chars.length < 3 → ∀ c ∈ next.head?, c ∉ octalDigits
  | hex _ _ run, next => run.chars.length < 2 → ∀ c ∈ next.head?, c ∉ hexDigits
  | lone, next => ∀ c rest, next = c :: rest → simpleEscapes.lookup c = none ∧ c ∉ octalDigits
      ∧ (c = 'x' ∨ c = 'X' → ∀ d ∈ rest.head?, d ∉ hexDigits)
  | _, _ => True

end Token

/-- The text of tokens one after another. -/
def spell (ts : List Token) : List Char := ts.flatMap Token.chars

/-- Each token is over where the next one begins. -/
def Canonical : List Token → Prop
  | [] => True
  | t :: ts => t.Ends (spell ts) ∧ Canonical ts

/-! ## Characters -/

/-- What holds of all ASCII characters can be found out by going through them. -/
theorem of_ascii {P : Char → Prop} (h : ∀ n < 128, P (Char.ofNat n)) {c : Char}
    (hc : c.toNat < 128) : P c := by
  have hchar := h c.toNat hc
  rwa [Char.ofNat_toNat] at hchar

/-- The test of a character and the list of digits say the same. -/
theorem isOctal_iff {c : Char} : isOctal c = true ↔ c ∈ octalDigits := by
  constructor
  · intro h
    have hascii : c.toNat < 128 := by
      simp only [isOctal, Bool.and_eq_true, decide_eq_true_eq, Char.le_def,
        UInt32.le_iff_toNat_le] at h
      exact Nat.lt_of_le_of_lt h.2 (by decide)
    exact of_ascii (P := fun c => isOctal c = true → c ∈ octalDigits) (by decide) hascii h
  · intro h
    have hall : octalDigits.all isOctal = true := by decide
    exact List.all_eq_true.mp hall c h

theorem isHex_iff {c : Char} : isHex c = true ↔ c ∈ hexDigits := by
  constructor
  · intro h
    -- The three ranges are below 128, where the digits can be gone through one by one.
    have hascii : c.toNat < 128 := by
      simp only [isHex, Char.isDigit, Bool.or_eq_true, Bool.and_eq_true, decide_eq_true_eq,
        Char.le_def, UInt32.le_iff_toNat_le] at h
      rcases h with (⟨_, h⟩ | ⟨_, h⟩) | ⟨_, h⟩
      all_goals exact Nat.lt_of_le_of_lt h (by decide)
    exact of_ascii (P := fun c => isHex c = true → c ∈ hexDigits) (by decide) hascii h
  · intro h
    have hall : hexDigits.all isHex = true := by decide
    exact List.all_eq_true.mp hall c h

/-- The table of one-character escapes is the one that is read. -/
theorem lookup_simpleEscapes (c : Char) : simpleEscapes.lookup c = simpleEscape? c := by
  unfold simpleEscape?
  split
  case h_12 =>
    rw [List.lookup_eq_none_iff]
    intro e he
    rw [bne_iff_ne]
    rintro rfl
    simp only [simpleEscapes, List.mem_cons, List.not_mem_nil, or_false] at he
    rcases he with rfl | rfl | rfl | rfl | rfl | rfl | rfl | rfl | rfl | rfl | rfl <;> contradiction
  all_goals rfl

/-! ## Digits -/

variable {digits : List Char} {most : Nat}

/-- Taking digits from the front stops where the run does. -/
theorem DigitRun.takeWhile_eq (run : DigitRun digits most) {p : Char → Bool}
    (hp : ∀ c, p c = true ↔ c ∈ digits) {next : List Char}
    (hnext : run.chars.length < most → ∀ c ∈ next.head?, c ∉ digits) :
    ((run.chars ++ next).take most).takeWhile p = run.chars := by
  have hall : ∀ c ∈ run.chars, p c = true := fun c hc => (hp c).mpr (run.subset hc)
  -- The run is followed by no digit, unless it is as long as it may be.
  have hstop : ((next.take (most - run.chars.length)).takeWhile p) = [] := by
    cases next with
    | nil => rw [List.take_nil, List.takeWhile_nil]
    | cons c rest =>
      by_cases hlong : run.chars.length < most
      · obtain ⟨left, hleft⟩ := Nat.exists_eq_add_of_lt hlong
        have hc : p c = false := by
          rw [← Bool.not_eq_true, hp]
          exact hnext hlong c rfl
        rw [show most - run.chars.length = left + 1 by omega, List.take_succ_cons,
          List.takeWhile_cons, hc]
        rfl
      · rw [Nat.sub_eq_zero_of_le (Nat.not_lt.mp hlong), List.take_zero, List.takeWhile_nil]
  rw [List.take_append, List.take_of_length_le run.length_le,
    List.takeWhile_append_of_pos hall, hstop, List.append_nil]

/-- The number that digits spell does not depend on who reads them. -/
theorem foldl_eq_numeral {base : Nat} {value : Char → Nat} {digits chars : List Char}
    (hvalue : ∀ c ∈ digits, value c = digitValue c) (hsub : chars ⊆ digits) :
    chars.foldl (fun n c => base * n + value c) 0 = numeral base chars :=
  List.foldl_ext _ _ _ fun _ c hc => by rw [hvalue c (hsub hc)]

/-- The byte of an octal run is its numeral, wrapped around. -/
theorem octalByte_eq (run : DigitRun octalDigits 3) :
    octalByte run.chars = UInt8.ofNat (numeral 8 run.chars) := by
  unfold octalByte
  rw [Nat.ofDigitChars_eq_foldl,
    foldl_eq_numeral (List.all_iff_forall_prop.mp (by decide)) run.subset]

theorem hexByte_eq (run : DigitRun hexDigits 2) :
    hexByte run.chars = UInt8.ofNat (numeral 16 run.chars) := by
  unfold hexByte
  rw [foldl_eq_numeral (List.all_iff_forall_prop.mp (by decide)) run.subset]

/-- As many digits as there are at the front of a text, up to a limit. -/
theorem exists_digits (digits : List Char) (most : Nat) (cs : List Char) :
    ∃ run next, cs = run ++ next ∧ run.length ≤ most ∧ run ⊆ digits
      ∧ (run.length < most → ∀ c ∈ next.head?, c ∉ digits) := by
  induction cs generalizing most with
  | nil => exact ⟨[], [], rfl, Nat.zero_le _, List.nil_subset _, by simp⟩
  | cons c cs ih =>
    cases most with
    -- The run is full.
    | zero => exact ⟨[], c :: cs, rfl, Nat.le_refl 0, List.nil_subset _, by simp⟩
    | succ most =>
      by_cases hc : c ∈ digits
      · obtain ⟨run, next, rfl, hlen, hsub, hnext⟩ := ih most
        exact ⟨c :: run, next, rfl, Nat.succ_le_succ hlen, List.cons_subset.mpr ⟨hc, hsub⟩,
          fun hlt => hnext (Nat.lt_of_succ_lt_succ hlt)⟩
      · refine ⟨[], c :: cs, rfl, Nat.zero_le _, List.nil_subset _, fun _ d hd => ?_⟩
        -- The run ends at `c`, which is no digit.
        cases hd
        exact hc

/-- A digit at the start begins a run of them, as long as can be. -/
theorem exists_run {digits : List Char} (most : Nat) (hmost : 0 < most) {cs : List Char} {c : Char}
    (hhead : cs.head? = some c) (hc : c ∈ digits) :
    ∃ (run : DigitRun digits most) (next : List Char), cs = run.chars ++ next
      ∧ (run.chars.length < most → ∀ c ∈ next.head?, c ∉ digits) := by
  obtain ⟨run, next, rfl, hlen, hsub, hnext⟩ := exists_digits digits most cs
  have hne : run ≠ [] := by
    rintro rfl
    exact hnext hmost c hhead hc
  exact ⟨⟨run, hne, hlen, hsub⟩, next, rfl, hnext⟩

/-! ## Escapes -/

theorem escape?_cons (c : Char) (rest : List Char) :
    escape? (c :: rest) = match simpleEscapes.lookup c with
      | some b => some (b, 1)
      | none =>
        if isOctal c then
          some (octalByte (((c :: rest).take 3).takeWhile isOctal),
            (((c :: rest).take 3).takeWhile isOctal).length)
        else if c = 'x' ∨ c = 'X' then
          if (rest.take 2).takeWhile isHex = [] then none
          else some (hexByte ((rest.take 2).takeWhile isHex),
            ((rest.take 2).takeWhile isHex).length + 1)
        else none := by
  rw [lookup_simpleEscapes]
  rfl

/-- A letter of the table makes an escape of one character. -/
theorem escape?_of_lookup {c : Char} {b : UInt8} (h : simpleEscapes.lookup c = some b)
    (rest : List Char) : escape? (c :: rest) = some (b, 1) := by
  rw [escape?_cons, h]

/-- An octal run makes an escape, unless it could be longer. -/
theorem escape?_octal (run : DigitRun octalDigits 3) {next : List Char}
    (hnext : run.chars.length < 3 → ∀ c ∈ next.head?, c ∉ octalDigits) :
    escape? (run.chars ++ next)
      = some (UInt8.ofNat (numeral 8 run.chars), run.chars.length) := by
  have hdigits := run.takeWhile_eq (fun c => isOctal_iff) hnext
  obtain ⟨c, cs, hchars⟩ := List.exists_cons_of_ne_nil run.ne_nil
  have hc : c ∈ octalDigits := run.subset (by rw [hchars]; exact List.mem_cons_self)
  have hlookup : ∀ c ∈ octalDigits, simpleEscapes.lookup c = none :=
    List.all_iff_forall_prop.mp (by decide)
  rw [← octalByte_eq]
  rw [hchars, List.cons_append] at hdigits ⊢
  rw [escape?_cons, hlookup c hc]
  dsimp only
  rw [if_pos (isOctal_iff.mpr hc), hdigits]

/-- Behind an `x` a hexadecimal run makes an escape, unless it could be longer. -/
theorem escape?_hex {x : Char} (hx : x = 'x' ∨ x = 'X') (run : DigitRun hexDigits 2)
    {next : List Char} (hnext : run.chars.length < 2 → ∀ c ∈ next.head?, c ∉ hexDigits) :
    escape? (x :: (run.chars ++ next))
      = some (UInt8.ofNat (numeral 16 run.chars), run.chars.length + 1) := by
  have hlookup : simpleEscapes.lookup x = none := by rcases hx with rfl | rfl <;> decide
  have hoctal : isOctal x = false := by rcases hx with rfl | rfl <;> decide
  rw [escape?_cons, hlookup]
  dsimp only
  rw [hoctal, if_neg Bool.false_ne_true, if_pos hx, run.takeWhile_eq (fun c => isHex_iff) hnext,
    if_neg run.ne_nil, hexByte_eq]

/-- Nothing that may follow a lone backslash would make an escape with it. -/
theorem escape?_eq_none {next : List Char} (h : Token.lone.Ends next) : escape? next = none := by
  cases next with
  | nil => rfl
  | cons c rest =>
    obtain ⟨hlookup, hoctal, hhex⟩ := h c rest rfl
    rw [escape?_cons, hlookup]
    dsimp only
    rw [if_neg (mt isOctal_iff.mp hoctal)]
    split
    · rename_i hx
      rw [if_pos]
      -- After an `x` the digits are wanting.
      cases rest with
      | nil => rfl
      | cons d rest =>
        have hd : isHex d = false := by
          rw [← Bool.not_eq_true, isHex_iff]
          exact hhex hx d rfl
        rw [List.take_succ_cons, List.takeWhile_cons, hd]
        rfl
    · rfl

/-! ## One token -/

/-- The byte of the token at the front of a text, and what follows the token. -/
def front? : List Char → Option (UInt8 × List Char)
  | [] => none
  | c :: rest =>
    if c = '\\' then
      match escape? rest with
      | some (b, length) => some (b, rest.drop length)
      | none => some (plainByte '\\', rest)
    else some (plainByte c, rest)

theorem front?_of_escape {rest : List Char} {b : UInt8} {length : Nat}
    (h : escape? rest = some (b, length)) : front? ('\\' :: rest) = some (b, rest.drop length) := by
  rw [front?, if_pos rfl, h]

theorem front?_of_lone {rest : List Char} (h : escape? rest = none) :
    front? ('\\' :: rest) = some (0x5c, rest) := by
  rw [front?, if_pos rfl, h]
  rfl

/-- A text is unescaped front by front. -/
theorem unescapeChars_of_front? {cs next : List Char} {b : UInt8}
    (h : front? cs = some (b, next)) : unescapeChars cs = b :: unescapeChars next := by
  fun_cases unescapeChars cs with
  | case1 => cases h
  | case2 rest b' length hescape => rw [front?_of_escape hescape] at h; cases h; rfl
  | case3 rest hescape => rw [front?_of_lone hescape] at h; cases h; rfl
  | case4 c rest hc =>
    rw [front?, if_neg hc] at h
    cases h
    rfl

namespace Token

/-- In front of what ends it, the token is the one that is read. -/
theorem front?_chars {t : Token} {next : List Char} (h : t.Ends next) :
    front? (t.chars ++ next) = some (t.byte, next) := by
  -- An octal or hexadecimal run is taken as a whole because no digit may follow it.
  cases t with
  | plain c hc => exact if_neg hc
  | simple c b hb => exact front?_of_escape (escape?_of_lookup hb next)
  | octal run =>
    refine (front?_of_escape (escape?_octal run h)).trans ?_
    rw [List.drop_left]
    rfl
  | hex x hx run =>
    refine (front?_of_escape (escape?_hex hx run h)).trans ?_
    rw [List.drop_succ_cons, List.drop_left]
    rfl
  | lone => exact front?_of_lone (escape?_eq_none h)

/-- Which token it is shows in the character behind the backslash. -/
theorem chars_injective {t t' : Token} (h : t.chars = t'.chars) : t = t' := by
  have hoctal : ∀ c ∈ octalDigits, simpleEscapes.lookup c = none ∧ c ≠ 'x' ∧ c ≠ 'X' :=
    List.all_iff_forall_prop.mp (by decide)
  cases t <;> cases t' <;> grind [chars, DigitRun, DigitRun.ne_nil, DigitRun.subset]

/-- A token that ends where it should can be taken off any text that is not empty. -/
theorem exists_ends {cs : List Char} (h : cs ≠ []) :
    ∃ (t : Token) (next : List Char), cs = t.chars ++ next ∧ t.Ends next := by
  obtain ⟨c, rest, rfl⟩ := List.exists_cons_of_ne_nil h
  -- The cases are those of `escape?`, in its order.
  by_cases hc : c = '\\'
  · subst hc
    cases rest with
    | nil => exact ⟨lone, [], rfl, nofun⟩
    | cons c rest =>
      cases hlookup : simpleEscapes.lookup c with
      | some b => exact ⟨simple c b hlookup, rest, rfl, trivial⟩
      | none =>
        by_cases hoctal : c ∈ octalDigits
        · have hhead : (c :: rest).head? = some c := rfl
          obtain ⟨run, next, hrun, hnext⟩ := exists_run 3 (by decide) hhead hoctal
          exact ⟨octal run, next, congrArg (List.cons '\\') hrun, hnext⟩
        · by_cases hhex : (c = 'x' ∨ c = 'X') ∧ ∃ d ∈ rest.head?, d ∈ hexDigits
          · obtain ⟨hx, d, hhead, hd⟩ := hhex
            obtain ⟨run, next, rfl, hnext⟩ := exists_run 2 (by decide) hhead hd
            exact ⟨hex c hx run, next, rfl, hnext⟩
          -- No escape sequence starts here, so the backslash stands for itself.
          · refine ⟨lone, c :: rest, rfl, ?_⟩
            rintro _ _ ⟨⟩
            exact ⟨hlookup, hoctal, fun hx d hhead hd => hhex ⟨hx, d, hhead, hd⟩⟩
  · exact ⟨plain c hc, rest, rfl, trivial⟩

theorem chars_ne_nil (t : Token) : t.chars ≠ [] := by
  cases t <;> exact List.cons_ne_nil _ _

end Token

/-! ## All tokens -/

/-- Unescaping a canonical list of tokens gives the byte of each. -/
theorem unescapeChars_spell {ts : List Token} (h : Canonical ts) :
    unescapeChars (spell ts) = ts.map Token.byte := by
  induction ts with
  | nil => rw [spell, List.flatMap_nil, unescapeChars, List.map_nil]
  | cons t ts ih =>
    obtain ⟨hends, hrest⟩ := h
    have hspell : spell (t :: ts) = t.chars ++ spell ts := List.flatMap_cons
    rw [hspell, unescapeChars_of_front? (Token.front?_chars hends), ih hrest, List.map_cons]

/-- Every text is spelled by a canonical list of tokens. -/
theorem exists_canonical (cs : List Char) : ∃ ts, Canonical ts ∧ spell ts = cs := by
  -- On the length, for the rest that a token leaves is shorter.
  induction hlen : cs.length using Nat.strongRecOn generalizing cs with
  | ind n ih =>
    by_cases hnil : cs = []
    · exact ⟨[], trivial, hnil.symm⟩
    · obtain ⟨t, next, rfl, hends⟩ := Token.exists_ends hnil
      have hpos := List.length_pos_iff.mpr t.chars_ne_nil
      have hshorter : next.length < n := by
        rw [← hlen, List.length_append]
        omega
      obtain ⟨ts, hcanonical, rfl⟩ := ih next.length hshorter next rfl
      exact ⟨t :: ts, ⟨hends, hcanonical⟩, List.flatMap_cons⟩

/-- Canonical lists of tokens are spelled differently. -/
theorem spell_injective {ts ts' : List Token} (h : Canonical ts) (h' : Canonical ts')
    (heq : spell ts = spell ts') : ts = ts' := by
  induction ts generalizing ts' with
  | nil =>
    cases ts' with
    | nil => rfl
    | cons t' ts' => exact absurd (List.append_eq_nil_iff.mp heq.symm).1 t'.chars_ne_nil
  | cons t ts ih =>
    cases ts' with
    | nil => exact absurd (List.append_eq_nil_iff.mp heq).1 t.chars_ne_nil
    | cons t' ts' =>
      -- Reading one token leaves the same rest on both sides.
      have hcons : t.chars ++ spell ts = t'.chars ++ spell ts' := heq
      have hfront := Token.front?_chars h.1
      rw [hcons, Token.front?_chars h'.1] at hfront
      have hrest : spell ts' = spell ts := (Prod.mk.inj (Option.some.inj hfront)).2
      rw [hrest, List.append_cancel_right_eq] at hcons
      rw [Token.chars_injective hcons, ih h.2 h'.2 hrest.symm]

/-! ## Escaping -/

/-- The usual escape of a byte: a letter, a quote or a backslash behind a backslash for some,
otherwise the character itself if there is one that can be seen, and three octal digits if not. -/
def escapeByte (b : UInt8) : List Char :=
  match b.toNat with
  | 0x0a => ['\\', 'n']
  | 0x0d => ['\\', 'r']
  | 0x09 => ['\\', 't']
  | 0x22 => ['\\', '"']
  | 0x27 => ['\\', '\x27']
  | 0x5c => ['\\', '\\']
  | n =>
    if 0x20 ≤ n ∧ n ≤ 0x7e then [Char.ofNat n]
    else ['\\', Nat.digitChar (n / 64), Nat.digitChar (n / 8 % 8), Nat.digitChar (n % 8)]

/-- A text for these bytes. -/
def escape (bytes : List UInt8) : String := String.ofList (bytes.flatMap escapeByte)

theorem digitChar_octal : ∀ n < 8,
    Nat.digitChar n ∈ octalDigits ∧ digitValue (Nat.digitChar n) = n := by
  decide

/-- Three digits that spell a number below 512. -/
def octalRun (n : Nat) (h : n < 512) : DigitRun octalDigits 3 where
  chars := [Nat.digitChar (n / 64), Nat.digitChar (n / 8 % 8), Nat.digitChar (n % 8)]
  ne_nil := List.cons_ne_nil _ _
  length_le := Nat.le_refl 3
  subset := by
    have h64 := (digitChar_octal (n / 64) (by omega)).1
    have h8 := (digitChar_octal (n / 8 % 8) (by omega)).1
    have h1 := (digitChar_octal (n % 8) (by omega)).1
    exact List.cons_subset.mpr ⟨h64, List.cons_subset.mpr ⟨h8, List.cons_subset.mpr
      ⟨h1, List.nil_subset _⟩⟩⟩

/-- Three octal digits read back as the number that they are written for. -/
theorem numeral_octalRun {n : Nat} (h : n < 512) : numeral 8 (octalRun n h).chars = n := by
  have h64 := (digitChar_octal (n / 64) (by omega)).2
  have h8 := (digitChar_octal (n / 8 % 8) (by omega)).2
  have h1 := (digitChar_octal (n % 8) (by omega)).2
  simp only [numeral, octalRun, List.foldl_cons, List.foldl_nil, h64, h8, h1]
  omega

/-- The escape of a byte is a token for it, which is over whatever comes next. -/
theorem exists_token (b : UInt8) :
    ∃ t : Token, t.chars = escapeByte b ∧ t.byte = b ∧ ∀ next, t.Ends next := by
  have hsimple (c : Char) (n : Nat) (hn : b.toNat = n)
      (hlookup : simpleEscapes.lookup c = some (UInt8.ofNat n)) :
      ∃ t : Token, t.chars = ['\\', c] ∧ t.byte = b ∧ ∀ next, t.Ends next := by
    rw [← hn, UInt8.ofNat_toNat] at hlookup
    exact ⟨.simple c b hlookup, rfl, rfl, fun _ => trivial⟩
  -- Six bytes have letters of their own; the others are seen as they are, or written in octal.
  unfold escapeByte
  split
  · exact hsimple _ _ ‹_› rfl
  · exact hsimple _ _ ‹_› rfl
  · exact hsimple _ _ ‹_› rfl
  · exact hsimple _ _ ‹_› rfl
  · exact hsimple _ _ ‹_› rfl
  · exact hsimple _ _ ‹_› rfl
  · rename_i n _ _ _ _ _ hbackslash
    -- What is seen is ASCII, where a byte and its character have the same number.
    have hlt : b.toNat < 256 := b.toNat_lt
    have hascii : ∀ n < 128, (Char.ofNat n).toNat = n := by decide
    split
    · rename_i hseen
      have hchar : (Char.ofNat b.toNat).toNat = b.toNat :=
        hascii b.toNat (by omega)
      refine ⟨.plain (Char.ofNat b.toNat) ?_, rfl, ?_, fun _ => trivial⟩
      · intro h
        rw [h] at hchar
        exact hbackslash hchar.symm
      · show UInt8.ofNat (Char.ofNat b.toNat).toNat = b
        rw [hchar]
        exact UInt8.ofNat_toNat
    -- Three octal digits are all that there can be, so anything may follow.
    · refine ⟨.octal (octalRun b.toNat (by omega)), rfl, ?_, fun _ h => absurd h (Nat.lt_irrefl 3)⟩
      show UInt8.ofNat (numeral 8 _) = b
      rw [numeral_octalRun]
      exact UInt8.ofNat_toNat

/-- Where each byte is written as a token for it that is over whatever comes next, unescaping undoes
the writing. -/
theorem unescapeChars_flatMap {write : UInt8 → List Char}
    (hwrite : ∀ b, ∃ t : Token, t.chars = write b ∧ t.byte = b ∧ ∀ next, t.Ends next)
    (bytes : List UInt8) : unescapeChars (bytes.flatMap write) = bytes := by
  have htokens : ∃ ts, Canonical ts ∧ spell ts = bytes.flatMap write
      ∧ ts.map Token.byte = bytes := by
    induction bytes with
    | nil => exact ⟨[], trivial, rfl, rfl⟩
    | cons b bytes ih =>
      -- The new token ends well before anything, in particular before those of the other bytes.
      obtain ⟨ts, hcanonical, hspell, hbytes⟩ := ih
      obtain ⟨t, hchars, hbyte, hends⟩ := hwrite b
      refine ⟨t :: ts, ⟨hends _, hcanonical⟩, ?_, ?_⟩
      · rw [List.flatMap_cons, ← hchars, ← hspell]
        rfl
      · rw [List.map_cons, hbyte, hbytes]
  obtain ⟨ts, hcanonical, hspell, hbytes⟩ := htokens
  rw [← hspell, unescapeChars_spell hcanonical, hbytes]

/-- Whatever is escaped comes back. -/
theorem unescape_escape (bytes : List UInt8) : unescape (escape bytes) = bytes := by
  unfold unescape escape
  rw [String.toList_ofList, unescapeChars_flatMap exists_token]

/--
**Unescaping reads the longest tokens.**

Every text is spelled by exactly one canonical list of tokens, and unescaping gives the bytes that
these tokens stand for. So it gives back whatever bytes have been escaped in the usual way.
-/
theorem unescape_tokens :
    (∀ s : String, (∃! ts, Canonical ts ∧ spell ts = s.toList)
        ∧ ∃ ts, Canonical ts ∧ spell ts = s.toList ∧ unescape s = ts.map Token.byte)
      ∧ ∀ bytes, unescape (escape bytes) = bytes := by
  refine ⟨fun s => ?_, unescape_escape⟩
  obtain ⟨ts, hcanonical, hspell⟩ := exists_canonical s.toList
  refine ⟨⟨ts, ⟨hcanonical, hspell⟩, fun ts' h => ?_⟩, ts, hcanonical, hspell, ?_⟩
  · exact spell_injective h.1 hcanonical (h.2.trans hspell.symm)
  · unfold unescape
    rw [← hspell, unescapeChars_spell hcanonical]

end SchemaRegistry.Default
