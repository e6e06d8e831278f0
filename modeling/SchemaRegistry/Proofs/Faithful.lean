import SchemaRegistry.Proofs.Dangling
import SchemaRegistry.Proofs.SummaryLines
import SchemaRegistry.Proofs.Unseen
import SchemaRegistry.Proofs.WellTyped

/-!
# A summary tells what is in the registry

Two registries with the same summary may differ in what it does not show, but not in what it shows:
names, rows and values can be read off the text again (`summary_faithful`), provided that all names
are words. Defaults may be any texts. They are quoted, and so they can neither end a line nor be
taken for another one.

`Shown` ties a descriptor to the lines it is shown by. Each descriptor has such lines, whatever the
history (`exists_block`), and descriptors shown by the same lines are the same for a reader
(`Shown.sameRow`); so it is left to the lines that a text stands for one list of blocks.
-/

namespace SchemaRegistry

open Summary

/-! ## Names in a registry -/

/-- All names in the registry are words: the full names of messages and enums, with the package in
front, the names of fields and values, and those that references are stored by. -/
structure Progress.Plain (p : Progress) : Prop where
  messages : ∀ m ∈ p.registry.messageList p.store, IsWord m.name
  fields : ∀ m ∈ p.registry.messageList p.store, ∀ f ∈ m.fields.toList,
    IsWord f.name ∧ ∀ n ∈ f.type.typeName, IsWord n
  enums : ∀ e ∈ p.registry.enumList p.store, IsWord e.name
  values : ∀ e ∈ p.registry.enumList p.store, ∀ v ∈ e.values.toList, IsWord v.name

/-- What summaries show of both fields is the same, and so are their defaults, unless these are
floating-point numbers. -/
structure Field.SameRow (p q : Progress) (f g : Field) : Prop where
  row : ∃ v w, p.registry.view f.type = .ok v ∧ q.registry.view g.type = .ok w
    ∧ Row.ofField p.store f v = Row.ofField q.store g w
  default : ∀ x, f.default = some x → x.isFloating = false → g.default = some x

/-- A pass brings in no new names. -/
theorem Progress.Plain.resolve {p : Progress} (h : p.Plain) : p.resolve.Plain := by
  refine ⟨?_, ?_, ?_, ?_⟩
  · rw [resolve_registry, messageList_resolve]
    intro _ hresolved
    obtain ⟨m, hm, rfl⟩ := List.mem_map.mp hresolved
    exact h.messages m hm
  · rw [resolve_registry, messageList_resolve]
    intro _ hresolved _ hfield
    obtain ⟨m, hm, rfl⟩ := List.mem_map.mp hresolved
    rw [Registry.resolveMessage, Members.toList_map] at hfield
    obtain ⟨f, hf, rfl⟩ := List.mem_map.mp hfield
    refine ⟨(h.fields m hm f hf).1, fun n hn => ?_⟩
    unfold Registry.resolveField at hn
    cases ht : p.registry.resolved? f.type with
    | none =>
      rw [ht] at hn
      exact (h.fields m hm f hf).2 n hn
    | some t =>
      -- A reference that is bound has no name any more.
      rw [ht] at hn
      rcases Registry.resolved?_eq_some ht with ⟨_, _, _, _, _, rfl⟩ | ⟨_, _, _, _, _, rfl⟩
      · cases hn
      · cases hn
  · rw [resolve_registry, enumList_resolve]
    exact h.enums
  · rw [resolve_registry, enumList_resolve]
    exact h.values

/-! ## Full names have dots -/

/-- A full name has a dot in it, whatever its parts are. -/
theorem dot_mem_qualify (path name : String) : '.' ∈ (qualify path name).toList := by
  unfold qualify
  rw [String.toList_append, String.toList_append]
  exact List.mem_append_left _ (List.mem_append_right _ (by decide))

namespace Progress

theorem dot_mem_messageNames (steps : List Step) :
    ∀ n ∈ (after steps).messageNames, '.' ∈ n.toList := by
  rw [(tells_after steps).messageNames]
  intro n hn
  obtain ⟨pd, _, rfl⟩ := List.mem_map.mp hn
  exact dot_mem_qualify _ _

theorem dot_mem_enumNames (steps : List Step) :
    ∀ n ∈ (after steps).enumNames, '.' ∈ n.toList := by
  unfold enumNames
  rw [enumList_after]
  intro n hn
  obtain ⟨e, he, rfl⟩ := List.mem_map.mp hn
  obtain ⟨s, _, hs⟩ := List.mem_flatMap.mp he
  rw [Visit.flatMap_enums] at hs
  obtain ⟨pd, _, rfl⟩ := List.mem_map.mp hs
  exact dot_mem_qualify _ _

end Progress

/-! ## Types -/

/-- The keyword of a scalar is a word. -/
theorem Scalar.isTypeText (k : Scalar) : IsTypeText k.keyword :=
  .word (by cases k <;> decide) (by cases k <;> decide)

theorem Scalar.keyword_inj {k k' : Scalar} (h : k.keyword = k'.keyword) : k = k' := by
  cases k <;> cases k' <;> first | rfl | exact absurd h (by decide)

/-- A full name is shown as it is, and it is not the word for references that lead nowhere. -/
theorem isTypeText_of_dot {n : String} (hn : IsWord n) (hdot : '.' ∈ n.toList) : IsTypeText n :=
  .word hn fun h => absurd (h ▸ hdot) (by decide)

namespace Progress

variable {steps : List Step}

/-- The name of a registered message can be shown as a type. -/
theorem Plain.isTypeText_message (h : (after steps).Plain) {n : String}
    (hn : n ∈ (after steps).messageNames) : IsTypeText n := by
  obtain ⟨m, hm, rfl⟩ := List.mem_map.mp hn
  exact isTypeText_of_dot (h.messages m hm) (dot_mem_messageNames steps _ hn)

theorem Plain.isTypeText_enum (h : (after steps).Plain) {n : String}
    (hn : n ∈ (after steps).enumNames) : IsTypeText n := by
  obtain ⟨e, he, rfl⟩ := List.mem_map.mp hn
  exact isTypeText_of_dot (h.enums e he) (dot_mem_enumNames steps _ hn)

/-- The type of every registered field is shown by a text that can be cut off. -/
theorem exists_typeText (h : (after steps).Plain) {m : Message} {f : Field}
    (hm : m ∈ (after steps).registry.messageList (after steps).store) (hf : f ∈ m.fields.toList) :
    ∃ v, (after steps).registry.view f.type = .ok v
      ∧ IsTypeText (v.describe (after steps).store) := by
  obtain ⟨d, hstands⟩ := (tells_after steps).exists_stands hm hf
  have hfits := fits_after steps
  -- A name that leads nowhere is one that the field stores.
  have hdangling {k : Kind} (hv : (after steps).registry.view f.type
      = .ok (.bare k (some d.getTypeName))) : IsTypeText ("unresolved " ++ d.getTypeName) :=
    .unresolved ((h.fields m hm f hf).2 _ (Registry.typeName_of_view hv rfl))
  by_cases hmessage : d.getType = 11
  · rcases hstands.type.view_message hfits hmessage with ⟨ref, href, hname, hv⟩ | ⟨_, hv⟩
    · refine ⟨_, hv, ?_⟩
      rw [TypeView.describe_ofMessage hname]
      exact h.isTypeText_message (Catalog.name_mem href hname)
    · exact ⟨_, hv, hdangling hv⟩
  by_cases henum : d.getType = 14
  · rcases hstands.type.view_enum hfits henum with ⟨ref, href, hname, hv⟩ | ⟨_, hv⟩
    · refine ⟨_, hv, ?_⟩
      rw [TypeView.describe_ofEnum hname]
      exact h.isTypeText_enum (Catalog.name_mem href hname)
    · exact ⟨_, hv, hdangling hv⟩
  · obtain ⟨k, _, hv⟩ := hstands.type.view_scalar hmessage henum
    exact ⟨_, hv, k.isTypeText⟩

/-- A registered default is a value of a scalar type. -/
theorem exists_suits {m : Message} {f : Field} {x : Value}
    (hm : m ∈ (after steps).registry.messageList (after steps).store) (hf : f ∈ m.fields.toList)
    (hx : f.default = some x) : ∃ k s, f.type = .scalar k ∧ x.Suits s k := by
  obtain ⟨pd, _, built, ⟨_, fs, hfs, hdecl⟩, hbecomes⟩ :=
    exists_of_mem_forall₂ (descends_after steps) hm
  obtain ⟨g, hg, hgf⟩ := exists_of_mem_forall₂ hbecomes.fields hf
  rw [hfs, Members.toList_ofList] at hg
  obtain ⟨d, _, hgd⟩ := exists_of_mem_forall₂ hdecl hg
  obtain ⟨k, s, hk, _, _, hsuits⟩ := (hgd.defaultSuits hgf).suits x hx
  exact ⟨k, s, hk, hsuits⟩

end Progress

/-! ## Descriptors and their lines -/

/-- The field is shown by the line. -/
structure Field.Shown (p : Progress) (f : Field) (line : String) : Prop where
  row : ∃ v, p.registry.view f.type = .ok v ∧ (Row.ofField p.store f v).Plain
    ∧ line = (Row.ofField p.store f v).text
  default : ∀ x, f.default = some x → ∃ k s, f.type = .scalar k ∧ x.Suits s k

/-- The message is shown by the block. -/
structure Message.Shown (p : Progress) (m : Message) (b : Block) : Prop where
  header : b.header = "message " ++ m.name
  rows : List.Forall₂ (Field.Shown p) m.fields.toList b.rows

/-- The enum is shown by the block. -/
structure Enumeration.Shown (e : Enumeration) (b : Block) : Prop where
  header : b.header = "enum " ++ e.name
  rows : List.Forall₂ (fun v line => IsWord v.name ∧ line = valueRow v) e.values.toList b.rows

/-- **Fields shown by one line are the same for a reader.** -/
theorem Field.Shown.sameRow {p q : Progress} {f g : Field} {line : String} (hf : f.Shown p line)
    (hg : g.Shown q line) : Field.SameRow p q f g := by
  obtain ⟨v, hv, hplain, hline⟩ := hf.row
  obtain ⟨w, hw, hplain', hline'⟩ := hg.row
  have hrow := Row.text_inj hplain hplain' (hline.symm.trans hline')
  refine ⟨⟨v, w, hv, hw, hrow⟩, fun x hx hfloating => ?_⟩
  have hdefault : f.default.map Value.text = g.default.map Value.text := (Row.mk.inj hrow).2.2.2.2
  rw [hx] at hdefault
  obtain ⟨y, hy, htext⟩ := Option.map_eq_some_iff.mp hdefault.symm
  -- Fields with defaults are of scalar types, and these are shown by their keywords.
  obtain ⟨k, s, hk, hsuits⟩ := hf.default x hx
  obtain ⟨k', s', hk', hsuits'⟩ := hg.default y hy
  rw [hk] at hv
  rw [hk'] at hw
  cases hv
  cases hw
  have hkeyword : k.keyword = k'.keyword := (Row.mk.inj hrow).2.2.1
  cases Scalar.keyword_inj hkeyword
  rw [hy, (hsuits.alike hsuits').eq_of_text hfloating htext.symm]

namespace Message.Shown

variable {p q : Progress} {m m' : Message} {b : Block}

/-- No line of the block is empty, and none has a line feed in it. -/
theorem plain (h : m.Shown p b) (hm : IsWord m.name) : b.Plain := by
  rintro line (_ | ⟨_, hline⟩)
  · rw [h.header]
    exact plain_header hm (by decide) (by decide)
  · obtain ⟨f, _, hf⟩ := exists_of_mem_forall₂ h.rows hline
    obtain ⟨v, _, hplain, rfl⟩ := hf.row
    exact ⟨Row.text_ne_empty _, Row.newline_notMem_text hplain⟩

/-- Messages shown by one block have one name, and their fields are shown alike. -/
theorem same (h : m.Shown p b) (h' : m'.Shown q b) : m.name = m'.name
    ∧ List.Forall₂ (Field.SameRow p q) m.fields.toList m'.fields.toList :=
  ⟨header_inj (h.header.symm.trans h'.header),
    forall₂_comp (fun _ _ _ hf hg => hf.sameRow hg) h.rows h'.rows.flip⟩

end Message.Shown

namespace Enumeration.Shown

variable {e e' : Enumeration} {b : Block}

theorem plain (h : e.Shown b) (he : IsWord e.name) : b.Plain := by
  rintro line (_ | ⟨_, hline⟩)
  · rw [h.header]
    exact plain_header he (by decide) (by decide)
  · obtain ⟨v, _, hv, rfl⟩ := exists_of_mem_forall₂ h.rows hline
    exact ⟨valueRow_ne_empty v, newline_notMem_valueRow hv⟩

theorem same (h : e.Shown b) (h' : e'.Shown b) :
    e.name = e'.name ∧ e.values.toList = e'.values.toList := by
  refine ⟨header_inj (h.header.symm.trans h'.header), ?_⟩
  rw [← List.forall₂_eq_eq_eq]
  refine forall₂_comp (fun v line w hv hw => ?_) h.rows h'.rows.flip
  exact valueRow_inj hv.1 hw.1 (hv.2.symm.trans hw.2)

end Enumeration.Shown

/-! ## The blocks of a registry -/

/-- An enum of words is shown by its block. -/
theorem Enumeration.shown_ofEnum {e : Enumeration} (h : ∀ v ∈ e.values.toList, IsWord v.name) :
    e.Shown (.ofEnum e) := by
  refine ⟨rfl, ?_⟩
  rw [Block.ofEnum, List.forall₂_map_right_iff, List.forall₂_same]
  exact fun v hv => ⟨h v hv, rfl⟩

namespace Progress

variable {steps : List Step}

/-- A message of words is shown by a block. -/
theorem exists_block (h : (after steps).Plain) {m : Message}
    (hm : m ∈ (after steps).registry.messageList (after steps).store) :
    ∃ b : Block, messageBlock (after steps).registry (after steps).store m = .ok (unlines b.lines)
      ∧ m.Shown (after steps) b := by
  have : Nonempty TypeView := ⟨.ofMessage 0⟩
  -- Every field has a view, so that the rows can be listed.
  choose! view hview htype using fun f => exists_typeText (f := f) h hm
  have hviews : (after steps).registry.fieldViews m
      = .ok (m.fields.toList.map fun f => (f, view f)) :=
    mapM_of_ok fun f hf => by rw [hview f hf]; rfl
  refine ⟨_, Block.messageBlock_eq hviews, rfl, ?_⟩
  rw [Block.ofMessage, List.map_map, List.forall₂_map_right_iff, List.forall₂_same]
  intro f hf
  have hplain := Row.plain_ofField (htype f hf) (h.fields m hm f hf).1
  exact ⟨⟨view f, hview f hf, hplain, rfl⟩, fun x hx => exists_suits hm hf hx⟩

/-- The summary is a text of blocks, one for each message and then one for each enum. -/
theorem exists_blocks (h : (after steps).Plain) :
    ∃ blocks blocks' : List Block,
      render (after steps).registry (after steps).store
          = .ok (unlines ((blocks ++ blocks').flatMap Block.lines))
        ∧ List.Forall₂ (Message.Shown (after steps))
            ((after steps).registry.messageList (after steps).store) blocks
        ∧ List.Forall₂ Enumeration.Shown
            ((after steps).registry.enumList (after steps).store) blocks'
        ∧ ∀ b ∈ blocks ++ blocks', b.Plain := by
  have : Nonempty Block := ⟨⟨"", []⟩⟩
  choose! block hblock hshown using fun m => exists_block (m := m) h
  have hshown' : ∀ e ∈ (after steps).registry.enumList (after steps).store,
      e.Shown (.ofEnum e) := fun e he => Enumeration.shown_ofEnum (h.values e he)
  -- The text is the blocks one after another; each of them is plain.
  refine ⟨_, _, ?_, List.forall₂_map_right_iff.mpr (List.forall₂_same.mpr hshown),
    List.forall₂_map_right_iff.mpr (List.forall₂_same.mpr hshown'), fun b hb => ?_⟩
  · unfold render
    rw [mapM_of_ok hblock, funext Block.enumBlock_eq, List.flatMap_append, unlines_append,
      Block.unlines_flatMap_lines, Block.unlines_flatMap_lines, List.map_map, List.map_map]
    rfl
  · rcases List.mem_append.mp hb with hb | hb
    · obtain ⟨m, hm, rfl⟩ := List.mem_map.mp hb
      exact (hshown m hm).plain (h.messages m hm)
    · obtain ⟨e, he, rfl⟩ := List.mem_map.mp hb
      exact (hshown' e he).plain (h.enums e he)

/-- All blocks of messages are told to be such. -/
theorem filter_isMessage_messages {p : Progress} {ms : List Message} {blocks : List Block}
    (h : List.Forall₂ (Message.Shown p) ms blocks) : blocks.filter Block.isMessage = blocks :=
  List.filter_eq_self.mpr fun b hb => by
    obtain ⟨m, _, hm⟩ := exists_of_mem_forall₂ h hb
    exact Block.isMessage_of_header hm.header

/-- No block of an enum is told to be that of a message. -/
theorem filter_isMessage_enums {es : List Enumeration} {blocks : List Block}
    (h : List.Forall₂ Enumeration.Shown es blocks) : blocks.filter Block.isMessage = [] :=
  List.filter_eq_nil_iff.mpr fun b hb => by
    obtain ⟨e, _, he⟩ := exists_of_mem_forall₂ h hb
    rw [Block.not_isMessage_of_header he.header]
    exact Bool.false_ne_true

/-- The headers tell which blocks are those of messages. -/
theorem blocks_eq_of_append {p q : Progress} {ms ms' : List Message} {es es' : List Enumeration}
    {blocks blocks' eblocks eblocks' : List Block}
    (hms : List.Forall₂ (Message.Shown p) ms blocks)
    (hes : List.Forall₂ Enumeration.Shown es eblocks)
    (hms' : List.Forall₂ (Message.Shown q) ms' blocks')
    (hes' : List.Forall₂ Enumeration.Shown es' eblocks')
    (h : blocks ++ eblocks = blocks' ++ eblocks') : blocks = blocks' ∧ eblocks = eblocks' := by
  -- Message blocks can be told from enum blocks, so the first part is what a filter keeps.
  have hmessages := congrArg (List.filter Block.isMessage) h
  rw [List.filter_append, List.filter_append, filter_isMessage_messages hms,
    filter_isMessage_enums hes, filter_isMessage_messages hms', filter_isMessage_enums hes',
    List.append_nil, List.append_nil] at hmessages
  rw [hmessages] at h
  exact ⟨hmessages, List.append_cancel_left h⟩

/--
**The summary is faithful.**

Take two histories of imports and passes after which all names in the registries are words, and let
the summaries be the same text. Then the registries have messages of the same names in the same
order, and field by field number, label, type, name and default are shown alike; and the default
values are the same, but for floating-point numbers, which need not be. The enums are the same too,
with their values. The text has a block for each message and each enum: a header line, as many lines
as there are members, and one empty line. No default adds a line or takes one away.
-/
theorem summary_faithful (steps steps' : List Step) (hp : (after steps).Plain)
    (hq : (after steps').Plain)
    (h : render (after steps).registry (after steps).store
      = render (after steps').registry (after steps').store) :
    let p := after steps
    let q := after steps'
    List.Forall₂ (fun m m' => m.name = m'.name
        ∧ List.Forall₂ (Field.SameRow p q) m.fields.toList m'.fields.toList)
      (p.registry.messageList p.store) (q.registry.messageList q.store)
    ∧ List.Forall₂ (fun e e' => e.name = e'.name ∧ e.values.toList = e'.values.toList)
      (p.registry.enumList p.store) (q.registry.enumList q.store)
    ∧ ∃ blocks blocks' : List Block,
        render p.registry p.store = .ok (unlines ((blocks ++ blocks').flatMap Block.lines))
        ∧ (∀ b ∈ blocks ++ blocks', b.Plain)
        ∧ List.Forall₂ (fun m b => b.header = "message " ++ m.name
            ∧ b.rows.length = m.fields.toList.length) (p.registry.messageList p.store) blocks
        ∧ List.Forall₂ (fun e b => b.header = "enum " ++ e.name
            ∧ b.rows.length = e.values.toList.length) (p.registry.enumList p.store) blocks' := by
  intro p q
  obtain ⟨ms, es, htext, hms, hes, hplain⟩ := exists_blocks hp
  obtain ⟨ms', es', htext', hms', hes', hplain'⟩ := exists_blocks hq
  -- The text tells the blocks, and the blocks tell what they were made of.
  have hsame := Block.unlines_lines_inj hplain hplain'
    (Except.ok.inj (htext.symm.trans (h.trans htext')))
  obtain ⟨rfl, rfl⟩ := blocks_eq_of_append hms hes hms' hes' hsame
  refine ⟨forall₂_comp (fun _ _ _ hm hm' => hm.same hm') hms hms'.flip,
    forall₂_comp (fun _ _ _ he he' => he.same he') hes hes'.flip,
    ms, es, htext, hplain, hms.imp fun _ _ hm => ⟨hm.header, hm.rows.length_eq.symm⟩,
    hes.imp fun _ _ he => ⟨he.header, he.rows.length_eq.symm⟩⟩

/-- A message with a default that looks like the end of its block and another block behind it, and
with a reference that leads nowhere. -/
def forgedSample : FileDecl where
  name := some "forged.proto"
  package := some "a"
  messages :=
    [{ MessageDecl.empty with
       name := some "M"
       fields :=
         [⟨some "s", some 1, some 1, some 9, none, some "x\"]\n\nenum .a.E\n", none⟩,
          ⟨some "n", some 2, some 2, some 5, none, some "-7", none⟩,
          ⟨some "m", some 3, some 3, some 11, some ".a.M", none, none⟩,
          ⟨some "o", some 4, none, some 14, some ".a.O", none, none⟩] }]
  enums := [⟨some "E", [⟨some "ON", some 1⟩]⟩]

/-- The summary of the sample is the same after a pass. However much of a summary the default holds,
there are four lines for fields in the block of the message, and one for a value in that of the
enum. -/
theorem summary_faithful_forgedSample :
    let p := after [.importFile forgedSample]
    let q := after [.importFile forgedSample, .resolve]
    p.Plain ∧ q.Plain ∧ render p.registry p.store = render q.registry q.store
      ∧ ∃ blocks blocks' : List Block,
        render p.registry p.store = .ok (unlines ((blocks ++ blocks').flatMap Block.lines))
          ∧ (blocks.map fun b => b.rows.length) = [4]
          ∧ (blocks'.map fun b => b.rows.length) = [1] := by
  intro p q
  have hp : p.Plain := ⟨by decide, by decide, by decide, by decide⟩
  have hq : q.Plain := hp.resolve
  have hrender : render p.registry p.store = render q.registry q.store :=
    (render_resolve (fits_after [.importFile forgedSample])).symm
  obtain ⟨_, _, blocks, blocks', htext, _, hms, hes⟩ :=
    summary_faithful [.importFile forgedSample] [.importFile forgedSample, .resolve] hp hq hrender
  exact ⟨hp, hq, hrender, blocks, blocks', htext,
    map_eq_of_forall₂ (fun m b hb => hb.2) hms, map_eq_of_forall₂ (fun e b hb => hb.2) hes⟩

end Progress

end SchemaRegistry
