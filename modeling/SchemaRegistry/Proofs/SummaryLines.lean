import SchemaRegistry.Proofs.ValueText
import SchemaRegistry.Registry.View

/-!
# The lines of a summary

A row is the line of a member without its line feed. What is shown in it is set apart by spaces
only, and a type may be shown as two words; but the first of them says so, and what follows the name
of a field is its default to the end of the line. So a row can be taken apart if names are words
(`Row.text_inj`). Rows have no line feeds in them and are not empty, so blocks end at their empty
lines, and a text stands for one list of blocks (`Block.unlines_lines_inj`).
-/

namespace SchemaRegistry

/-- There is neither a space nor a line feed in the text. -/
def IsWord (s : String) : Prop := ' ' ∉ s.toList ∧ '\n' ∉ s.toList

instance (s : String) : Decidable (IsWord s) := inferInstanceAs (Decidable (_ ∧ _))

namespace Summary

/-! ## Types -/

/-- A type is shown as one word, or as a name behind the word for references that lead nowhere. -/
inductive IsTypeText : String → Prop where
  | word {s : String} (hs : IsWord s) (hne : s ≠ "unresolved") : IsTypeText s
  | unresolved {n : String} (hn : IsWord n) : IsTypeText ("unresolved " ++ n)

theorem toList_unresolved (n : String) :
    ("unresolved " ++ n).toList = "unresolved".toList ++ ' ' :: n.toList := by
  rw [String.toList_append]
  rfl

/-- A type text ends before the space, even though an unresolved one has a space inside. -/
theorem IsTypeText.cut {a b : String} {rest rest' : List Char} (ha : IsTypeText a)
    (hb : IsTypeText b) (h : a.toList ++ ' ' :: rest = b.toList ++ ' ' :: rest') :
    a = b ∧ rest = rest' := by
  have hmark : ' ' ∉ "unresolved".toList := by decide
  cases ha with
  | word hs hne =>
    cases hb with
    | word ht =>
      obtain ⟨hchars, hrest⟩ := append_mark_inj hs.1 ht.1 h
      exact ⟨String.toList_injective hchars, hrest⟩
    | unresolved hn =>
      -- A word that ends where the mark does would be the mark, which is no word.
      rw [toList_unresolved, List.append_assoc] at h
      exact absurd (String.toList_injective (append_mark_inj hs.1 hmark h).1) hne
  | @unresolved n hn =>
    rw [toList_unresolved, List.append_assoc] at h
    cases hb with
    | word ht hne =>
      exact absurd (String.toList_injective (append_mark_inj hmark ht.1 h).1).symm hne
    | @unresolved n' hn' =>
      rw [toList_unresolved, List.append_assoc] at h
      obtain ⟨hchars, hrest⟩ := append_mark_inj hn.1 hn'.1 (append_mark_inj hmark hmark h).2
      exact ⟨by rw [String.toList_injective hchars], hrest⟩

theorem IsTypeText.newline_notMem {s : String} (h : IsTypeText s) : '\n' ∉ s.toList := by
  cases h with
  | word hs => exact hs.2
  | unresolved hn =>
    rw [String.toList_append, List.mem_append, not_or]
    exact ⟨by decide, hn.2⟩

/-! ## Fields -/

/-- What is shown of a field. -/
structure Row where
  number : Int
  label : Label
  type : String
  name : String
  default : Option String

namespace Row

/-- What is shown of a field whose type is read as `v`. -/
def ofField (s : Store) (f : Field) (v : TypeView) : Row where
  number := f.number
  label := f.label
  type := v.describe s
  name := f.name
  default := f.default.map Value.text

/-- What a row shows of a default, given the text of its value. -/
def defaultText : Option String → String
  | some text => " [default = " ++ text ++ "]"
  | none => ""

/-- The row as it is written. Its parts are set apart by single spaces. -/
def text (r : Row) : String :=
  "  " ++ toString r.number ++ ": " ++ r.label.keyword ++ " " ++ r.type ++ " " ++ r.name
    ++ defaultText r.default

/-- A line of the summary is the text of its row. -/
theorem fieldLine_eq (s : Store) (f : Field) (v : TypeView) :
    fieldLine s f v = (ofField s f v).text ++ "\n" := by
  unfold fieldLine text ofField
  cases f.default <;> rfl

/-- The row has its parts where they are looked for. -/
structure Plain (r : Row) : Prop where
  type : IsTypeText r.type
  name : IsWord r.name
  default : ∀ t, r.default = some t → '\n' ∉ t.toList

/-- A default is quoted, so only the names matter. -/
theorem plain_ofField {s : Store} {f : Field} {v : TypeView} (htype : IsTypeText (v.describe s))
    (hname : IsWord f.name) : (ofField s f v).Plain := by
  refine ⟨htype, hname, fun t ht => ?_⟩
  obtain ⟨x, _, rfl⟩ := Option.map_eq_some_iff.mp ht
  exact x.newline_notMem_text

variable {r r' : Row}

/-- The parts of a row, each with the mark behind it. -/
theorem toList_text (r : Row) : r.text.toList = ' ' :: ' ' :: ((toString r.number).toList
    ++ ':' :: ' ' :: (r.label.keyword.toList ++ ' ' :: (r.type.toList
      ++ ' ' :: (r.name.toList ++ (defaultText r.default).toList)))) := by
  simp [text]

theorem toList_defaultText (t : String) :
    (defaultText (some t)).toList = ' ' :: ("[default = ".toList ++ (t.toList ++ [']'])) := by
  simp [defaultText]

theorem defaultText_injective : Function.Injective defaultText := by
  intro t t' h
  have hchars := congrArg String.toList h
  -- Only a default that is there puts out text.
  cases t with
  | none =>
    cases t' with
    | none => rfl
    | some t' => rw [toList_defaultText] at hchars; cases hchars
  | some t =>
    cases t' with
    | none => rw [toList_defaultText] at hchars; cases hchars
    | some t' =>
      rw [toList_defaultText, toList_defaultText] at hchars
      have hrest := List.append_cancel_left (List.cons.inj hchars).2
      rw [String.toList_injective (List.append_inj' hrest rfl).1]

/-- Where the name ends shows from the space of the default, or from there being no more. -/
theorem cut_name {n n' : String} {t t' : Option String} (hn : IsWord n) (hn' : IsWord n')
    (h : n.toList ++ (defaultText t).toList = n'.toList ++ (defaultText t').toList) :
    n = n' ∧ t = t' := by
  -- With one more space at the end, there is one behind the name, with a default or without.
  have hmark (t : Option String) : ∃ rest, (defaultText t).toList ++ [' '] = ' ' :: rest := by
    cases t with
    | none => exact ⟨[], rfl⟩
    | some t => exact ⟨_, by rw [toList_defaultText, List.cons_append]⟩
  obtain ⟨rest, hrest⟩ := hmark t
  obtain ⟨rest', hrest'⟩ := hmark t'
  have hspaced : n.toList ++ ' ' :: rest = n'.toList ++ ' ' :: rest' := by
    rw [← hrest, ← hrest', ← List.append_assoc, ← List.append_assoc, h]
  have hname := (append_mark_inj hn.1 hn'.1 hspaced).1
  rw [hname] at h
  exact ⟨String.toList_injective hname,
    defaultText_injective (String.toList_injective (List.append_cancel_left h))⟩

theorem keyword_inj {l l' : Label} (h : l.keyword = l'.keyword) : l = l' := by
  cases l <;> cases l' <;> first | rfl | exact absurd h (by decide)

/-- **A row can be taken apart.** -/
theorem text_inj (h : r.Plain) (h' : r'.Plain) (heq : r.text = r'.text) : r = r' := by
  have hchars := congrArg String.toList heq
  rw [toList_text, toList_text] at hchars
  -- The number ends at its colon and the label at a space.
  have hcolon (n : Int) : ':' ∉ (toString n).toList :=
    Numeral.notMem_toString_int (by decide) (by decide) n
  have hspace (l : Label) : ' ' ∉ l.keyword.toList := by cases l <;> decide
  obtain ⟨hnumber, hrest⟩ := append_mark_inj (hcolon _) (hcolon _)
    (List.cons.inj (List.cons.inj hchars).2).2
  obtain ⟨hlabel, hrest⟩ := append_mark_inj (hspace _) (hspace _) (List.cons.inj hrest).2
  -- The type may have a space inside, and the name is followed by nothing or a default.
  obtain ⟨htype, hrest⟩ := h.type.cut h'.type hrest
  obtain ⟨hname, hdefault⟩ := cut_name h.name h'.name hrest
  cases r
  cases r'
  cases Int.repr_inj.mp (String.toList_injective hnumber)
  cases keyword_inj (String.toList_injective hlabel)
  cases htype
  cases hname
  cases hdefault
  rfl

theorem text_ne_empty (r : Row) : r.text ≠ "" := by
  intro h
  have hchars := congrArg String.toList h
  rw [toList_text] at hchars
  cases hchars

/-- A plain row stays on one line. -/
theorem newline_notMem_text (h : r.Plain) : '\n' ∉ r.text.toList := by
  have hnumber : '\n' ∉ (toString r.number).toList :=
    Numeral.notMem_toString_int (by decide) (by decide) _
  have hlabel : '\n' ∉ r.label.keyword.toList := by cases r.label <;> decide
  -- Of the parts only the default could be long, and it is quoted.
  have hdefault : '\n' ∉ (defaultText r.default).toList := by
    cases ht : r.default with
    | none => exact List.not_mem_nil
    | some t =>
      rw [toList_defaultText]
      simp only [List.mem_cons, List.mem_append, List.not_mem_nil, or_false, not_or]
      exact ⟨by decide, by decide, h.default t ht, by decide⟩
  rw [toList_text]
  simp only [List.mem_cons, List.mem_append, not_or]
  exact ⟨by decide, by decide, hnumber, by decide, by decide, hlabel, by decide,
    h.type.newline_notMem, by decide, h.name.2, hdefault⟩

end Row

/-! ## Values -/

/-- The line of an enum value. -/
def valueRow (v : EnumValue) : String := "  " ++ v.name ++ " = " ++ toString v.number

/-- A line on an enum value is its row. -/
theorem valueLine_eq (v : EnumValue) : valueLine v = valueRow v ++ "\n" := by
  show "  " ++ v.name ++ (" = " ++ toString v.number ++ "\n") = _
  simp only [valueRow, String.append_assoc]

theorem toList_valueRow (v : EnumValue) : (valueRow v).toList
    = ' ' :: ' ' :: (v.name.toList ++ ' ' :: '=' :: ' ' :: (toString v.number).toList) := by
  simp [valueRow]

/-- A row tells the value that it is about. -/
theorem valueRow_inj {v w : EnumValue} (hv : IsWord v.name) (hw : IsWord w.name)
    (h : valueRow v = valueRow w) : v = w := by
  have hchars := congrArg String.toList h
  rw [toList_valueRow, toList_valueRow] at hchars
  obtain ⟨hname, hrest⟩ := append_mark_inj hv.1 hw.1 (List.cons.inj (List.cons.inj hchars).2).2
  have hnumber := (List.cons.inj (List.cons.inj hrest).2).2
  cases v
  cases w
  cases String.toList_injective hname
  cases Int.repr_inj.mp (String.toList_injective hnumber)
  rfl

theorem valueRow_ne_empty (v : EnumValue) : valueRow v ≠ "" := by
  intro h
  have hchars := congrArg String.toList h
  rw [toList_valueRow] at hchars
  cases hchars

theorem newline_notMem_valueRow {v : EnumValue} (hv : IsWord v.name) :
    '\n' ∉ (valueRow v).toList := by
  have hnumber : '\n' ∉ (toString v.number).toList :=
    Numeral.notMem_toString_int (by decide) (by decide) _
  rw [toList_valueRow]
  simp only [List.mem_cons, List.mem_append, not_or]
  exact ⟨by decide, by decide, hv.2, by decide, by decide, by decide, hnumber⟩

/-! ## Blocks -/

/-- The lines, each with a line feed behind it. -/
def unlines (lines : List String) : String := String.join (lines.map fun line => line ++ "\n")

theorem unlines_append (lines lines' : List String) :
    unlines (lines ++ lines') = unlines lines ++ unlines lines' := by
  rw [unlines, List.map_append, String.join_append]
  rfl

/-- Lines can be read off the text that joins them. -/
theorem unlines_inj {lines lines' : List String} (h : ∀ line ∈ lines, '\n' ∉ line.toList)
    (h' : ∀ line ∈ lines', '\n' ∉ line.toList) (heq : unlines lines = unlines lines') :
    lines = lines' := by
  -- Texts are compared as lists of characters, where each line ends at a mark.
  have hlists (lines : List String) : (unlines lines).toList
      = (lines.map String.toList).flatMap fun cs => cs ++ ['\n'] := by
    rw [unlines, String.toList_join, List.flatMap_map, List.flatMap_map]
    exact List.flatMap_congr fun line _ => String.toList_append
  have hchars := congrArg String.toList heq
  rw [hlists, hlists] at hchars
  refine List.map_injective_iff.mpr (fun _ _ h => String.toList_injective h)
    ((isPrefixCode_mark '\n').flatMap_injective (fun cs hcs => ?_) (fun cs hcs => ?_) hchars)
  · obtain ⟨line, hline, rfl⟩ := List.mem_map.mp hcs
    exact h line hline
  · obtain ⟨line, hline, rfl⟩ := List.mem_map.mp hcs
    exact h' line hline

/-- Behind the word that says what is declared, a header has the name. -/
theorem header_inj {word n n' : String} (h : word ++ n = word ++ n') : n = n' := by
  have hchars := congrArg String.toList h
  rw [String.toList_append, String.toList_append] at hchars
  exact String.toList_injective (List.append_cancel_left hchars)

/-- A header is a line, and not an empty one. -/
theorem plain_header {word n : String} (hn : IsWord n) (hne : word ≠ "")
    (hnewline : '\n' ∉ word.toList) : word ++ n ≠ "" ∧ '\n' ∉ (word ++ n).toList := by
  rw [String.toList_append, List.mem_append, not_or]
  exact ⟨fun h => hne (String.append_eq_empty_iff.mp h).1, hnewline, hn.2⟩

/-- A header line and a line for each member. -/
structure Block where
  header : String
  rows : List String

namespace Block

/-- The block of a message whose fields are read as these views. -/
def ofMessage (s : Store) (m : Message) (views : List (Field × TypeView)) : Block where
  header := "message " ++ m.name
  rows := views.map fun fv => (Row.ofField s fv.1 fv.2).text

/-- The block of an enum. -/
def ofEnum (e : Enumeration) : Block where
  header := "enum " ++ e.name
  rows := e.values.toList.map valueRow

/-- Whether the block is that of a message, by the first letter of its header. -/
def isMessage (b : Block) : Bool := b.header.toList.head? = some 'm'

/-- A header that starts like that of a message is that of one. -/
theorem isMessage_of_header {b : Block} {n : String} (h : b.header = "message " ++ n) :
    b.isMessage = true := by
  unfold isMessage
  rw [h, String.toList_append]
  rfl

theorem not_isMessage_of_header {b : Block} {n : String} (h : b.header = "enum " ++ n) :
    b.isMessage = false := by
  have hother : some 'e' ≠ some 'm' := by decide
  unfold isMessage
  rw [h, String.toList_append]
  exact decide_eq_false hother

/-- The lines of the block, with the empty line that ends it. -/
def lines (b : Block) : List String := b.header :: b.rows ++ [""]

theorem unlines_lines (b : Block) :
    unlines b.lines = b.header ++ "\n" ++ unlines b.rows ++ "\n" := by
  rw [lines, unlines_append, unlines, List.map_cons, String.join_cons]
  rfl

/-- The summary of a message is the lines of its block. -/
theorem messageBlock_eq {r : Registry} {s : Store} {m : Message} {views : List (Field × TypeView)}
    (h : r.fieldViews m = .ok views) :
    messageBlock r s m = .ok (unlines (ofMessage s m views).lines) := by
  have hlines : (views.map fun fv => fieldLine s fv.1 fv.2)
      = (ofMessage s m views).rows.map fun line => line ++ "\n" := by
    rw [ofMessage, List.map_map]
    exact List.map_congr_left fun fv _ => Row.fieldLine_eq s fv.1 fv.2
  unfold messageBlock
  rw [h, unlines_lines, unlines, ← hlines]
  rfl

/-- The summary of an enum is the lines of its block. -/
theorem enumBlock_eq (e : Enumeration) : enumBlock e = unlines (ofEnum e).lines := by
  have hlines : e.values.toList.map valueLine
      = (ofEnum e).rows.map fun line => line ++ "\n" := by
    rw [ofEnum, List.map_map]
    exact List.map_congr_left fun v _ => valueLine_eq v
  rw [unlines_lines, enumBlock, hlines]
  rfl

theorem unlines_flatMap_lines (bs : List Block) :
    unlines (bs.flatMap lines) = String.join (bs.map fun b => unlines b.lines) := by
  induction bs with
  | nil => rfl
  | cons b bs ih =>
    rw [List.flatMap_cons, unlines_append, ih, List.map_cons, String.join_cons]

/-- Each line but the one that ends the block has something on it, and no line feed in it. -/
def Plain (b : Block) : Prop := ∀ line ∈ b.header :: b.rows, line ≠ "" ∧ '\n' ∉ line.toList

/-- Each line of a plain block is one line. -/
theorem Plain.newline_notMem {b : Block} (h : b.Plain) {line : String} (hline : line ∈ b.lines) :
    '\n' ∉ line.toList := by
  rcases List.mem_append.mp hline with hline | hline
  · exact (h line hline).2
  · rw [List.mem_singleton.mp hline]
    decide

/-- **Blocks can be told apart by their text.** -/
theorem unlines_lines_inj {bs bs' : List Block} (h : ∀ b ∈ bs, b.Plain) (h' : ∀ b ∈ bs', b.Plain)
    (heq : unlines (bs.flatMap lines) = unlines (bs'.flatMap lines)) : bs = bs' := by
  -- Lines end at line feeds, and blocks at empty lines; neither is found inside.
  have hline {bs : List Block} (h : ∀ b ∈ bs, b.Plain) :
      ∀ line ∈ bs.flatMap lines, '\n' ∉ line.toList := fun line hline => by
    obtain ⟨b, hb, hmem⟩ := List.mem_flatMap.mp hline
    exact (h b hb).newline_notMem hmem
  have hmark {bs : List Block} (h : ∀ b ∈ bs, b.Plain) :
      ∀ ls ∈ bs.map fun b => b.header :: b.rows, "" ∉ ls := fun ls hls hempty => by
    obtain ⟨b, hb, rfl⟩ := List.mem_map.mp hls
    exact (h b hb "" hempty).1 rfl
  have hlists (bs : List Block) : bs.flatMap lines
      = (bs.map fun b => b.header :: b.rows).flatMap fun ls => ls ++ [""] := by
    rw [List.flatMap_map]
    rfl
  have hlines := unlines_inj (hline h) (hline h') heq
  rw [hlists, hlists] at hlines
  refine List.map_injective_iff.mpr (fun b b' hb => ?_)
    ((isPrefixCode_mark "").flatMap_injective (hmark h) (hmark h') hlines)
  obtain ⟨hheader, hrows⟩ := List.cons.inj hb
  cases b
  cases b'
  cases hheader
  cases hrows
  rfl

end Block

end Summary

end SchemaRegistry
