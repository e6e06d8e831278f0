import SchemaRegistry.Proofs.Binding
import SchemaRegistry.Proofs.Journal
import SchemaRegistry.Proofs.Timing

/-!
# The last one counts

Names and numbers may be given again and again, and every look-up then answers with the last one
that has them. To say last of what, a `Ledger` keeps what has been added to what and registered
where, in plain lists and without any index. `last_wins` compares it with what a session leads to:
the lists are the same, but for references that have been bound, and every index agrees with a
search of its list from the end.

For a message or an enum this is a matter of one index and one list (`FindsLast`), which stay
together when a member is added and when the members change in other respects than the key.
-/

namespace SchemaRegistry

/-! ## One index -/

/-- By the index the last item that has a key is found, and it has no position out of range. -/
structure FindsLast {α κ : Type} [DecidableEq κ] [Hashable κ] (key : α → κ)
    (index : Std.HashMap κ Nat) (items : Array α) : Prop where
  find : ∀ k : κ, (index[k]? >>= fun i => items[i]?) = items.toList.reverse.find? fun a => key a = k
  lt_size : ∀ (k : κ) (i : Nat), index[k]? = some i → i < items.size

namespace FindsLast

variable {α κ : Type} [DecidableEq κ] [Hashable κ] {key : α → κ} {index : Std.HashMap κ Nat}
  {items : Array α}

theorem empty (key : α → κ) : FindsLast key ∅ #[] := ⟨by simp, by simp⟩

/-- An item that is added takes over its key. -/
theorem push (h : FindsLast key index items) (a : α) :
    FindsLast key (index.insert (key a) items.size) (items.push a) where
  find := by
    intro k
    rw [Std.HashMap.getElem?_insert, Array.toList_push, List.reverse_append,
      List.reverse_singleton, List.singleton_append, List.find?_cons]
    -- The new item is the last one of its key.
    by_cases hk : key a = k
    · simp [hk]
    · -- All positions that the index had are before that of the new item.
      have hold : (index[k]? >>= fun i => (items.push a)[i]?)
          = index[k]? >>= fun i => items[i]? := by
        cases hi : index[k]? with
        | none => rfl
        | some i =>
          show (items.push a)[i]? = items[i]?
          rw [Array.getElem?_push, if_neg (Nat.ne_of_lt (h.lt_size k i hi))]
      simpa [hk, hold] using h.find k
  lt_size := by
    intro k i hi
    rw [Std.HashMap.getElem?_insert] at hi
    rw [Array.size_push]
    split at hi
    · rw [← Option.some.inj hi]; exact Nat.lt_succ_self _
    · exact Nat.lt_succ_of_lt (h.lt_size k i hi)

/-- A change that keeps keys keeps what each of them finds. -/
theorem map (h : FindsLast key index items) {f : α → α} (hf : ∀ a, key (f a) = key a) :
    FindsLast key index (items.map f) where
  find := by
    intro k
    -- The function keeps keys, so that it may be applied before the search or after.
    calc (index[k]? >>= fun i => (items.map f)[i]?)
        = (index[k]? >>= fun i => items[i]?).map f := by cases index[k]? <;> simp
      _ = (items.toList.reverse.find? fun a => key a = k).map f := by rw [h.find k]
      _ = (items.map f).toList.reverse.find? fun a => key a = k := by
        rw [Array.toList_map, ← List.map_reverse, List.find?_map]
        simp only [Function.comp_def, hf]
  lt_size := by
    intro k i hi
    rw [Array.size_map]
    exact h.lt_size k i hi

end FindsLast

/-! ## Members -/

section

variable {α : Type} [Member α]

/-- Under a name or a number the last of the members that has it is found, nothing if there is none,
and no index has a position out of range. -/
structure Members.LastWins (ms : Members α) : Prop where
  findName? : ∀ n, ms.findName? n = ms.toList.reverse.find? fun a => Member.name a = n
  findNumber? : ∀ k, ms.findNumber? k = ms.toList.reverse.find? fun a => Member.number a = k
  byName_lt : ∀ (n : String) (i : Nat), ms.byName[n]? = some i → i < ms.toList.length
  byNumber_lt : ∀ (k : Int) (i : Nat), ms.byNumber[k]? = some i → i < ms.toList.length

namespace Members.LastWins

variable {ms : Members α}

theorem byName (h : ms.LastWins) : FindsLast Member.name ms.byName ms.items :=
  ⟨h.findName?, h.byName_lt⟩

theorem byNumber (h : ms.LastWins) : FindsLast Member.number ms.byNumber ms.items :=
  ⟨h.findNumber?, h.byNumber_lt⟩

theorem of_findsLast (h : FindsLast Member.name ms.byName ms.items)
    (h' : FindsLast Member.number ms.byNumber ms.items) : ms.LastWins :=
  ⟨h.find, h'.find, h.lt_size, h'.lt_size⟩

theorem empty : (Members.empty : Members α).LastWins := .of_findsLast (.empty _) (.empty _)

theorem push (h : ms.LastWins) (a : α) : (ms.push a).LastWins :=
  .of_findsLast (h.byName.push a) (h.byNumber.push a)

/-- Members that are added one after another are found by their last. -/
theorem ofList (as : List α) : (Members.ofList as).LastWins := by
  have key : ∀ ms : Members α, ms.LastWins → (as.foldl Members.push ms).LastWins := by
    induction as with
    | nil => exact fun _ h => h
    | cons a as ih => exact fun _ h => ih _ (h.push a)
  exact key _ empty

/-- Members that keep names and numbers are found as before. -/
theorem map (h : ms.LastWins) {f : α → α} (hname : ∀ a, Member.name (f a) = Member.name a)
    (hnumber : ∀ a, Member.number (f a) = Member.number a) : (ms.map f).LastWins :=
  .of_findsLast (h.byName.map hname) (h.byNumber.map hnumber)

end Members.LastWins

end

/-! ## Messages, enums and registries -/

/-- The message has this name and the fields that were added to it, in order. -/
structure Message.Holds (m : Message) (name : String) (added : List Field) : Prop where
  name : m.name = name
  fields : List.Forall₂ Field.Becomes added m.fields.toList
  lastWins : m.fields.LastWins

namespace Message.Holds

variable {m : Message} {name : String} {added : List Field}

theorem ofList (name : String) (fields : List Field) :
    Holds ⟨name, .ofList fields⟩ name fields where
  name := rfl
  fields := by
    rw [Members.toList_ofList]
    exact List.forall₂_same.mpr fun f _ => .refl f
  lastWins := .ofList fields

/-- A field that is added comes last. -/
theorem addField (h : Holds m name added) (f : Field) :
    Holds (m.addField f) name (added ++ [f]) where
  name := h.name
  fields := by
    show List.Forall₂ _ _ (m.fields.push f).toList
    rw [Members.toList_push]
    exact List.rel_append h.fields (.cons (.refl f) .nil)
  lastWins := h.lastWins.push f

/-- A pass changes types, and so neither the order of fields nor what finds them. -/
theorem resolveMessage (h : Holds m name added) (r : Registry) :
    Holds (r.resolveMessage m) name added where
  name := h.name
  fields := forall₂_comp (fun _ _ _ hf hf' => hf.trans hf') h.fields
    (Message.Becomes.resolveMessage r m).fields
  lastWins := h.lastWins.map (fun _ => rfl) fun _ => rfl

end Message.Holds

/-- The enum has this name and the values that were added to it, in order. -/
structure Enumeration.Holds (e : Enumeration) (name : String) (added : List EnumValue) : Prop where
  name : e.name = name
  values : e.values.toList = added
  lastWins : e.values.LastWins

theorem Enumeration.Holds.ofList (name : String) (values : List EnumValue) :
    Holds ⟨name, .ofList values⟩ name values :=
  ⟨rfl, Members.toList_ofList values, .ofList values⟩

theorem Enumeration.Holds.addValue {e : Enumeration} {name : String} {added : List EnumValue}
    (h : Holds e name added) (v : EnumValue) : Holds (e.addValue v) name (added ++ [v]) where
  name := h.name
  values := by
    show (e.values.push v).toList = _
    rw [Members.toList_push, h.values]
  lastWins := h.lastWins.push v

/-- The catalog lists these references. Under a name it finds the last one that leads to a
descriptor of that name, and nothing if there is none. -/
structure Catalog.LastWins (c : Catalog) (nameOf : Nat → Option String) (refs : List Nat) :
    Prop where
  toList : c.toList = refs
  named : ∀ ref ∈ refs, ∃ n, nameOf ref = some n
  find? : ∀ n, c.find? n = refs.reverse.find? fun ref => nameOf ref = some n
  position?_lt : ∀ n i, c.position? n = some i → i < refs.length

/-- An index that is right finds the last registration of each name. -/
theorem Catalog.Indexed.lastWins {c : Catalog} {nameOf : Nat → Option String}
    (h : c.Indexed nameOf) : c.LastWins nameOf c.toList where
  toList := rfl
  named := h.named
  find? := by
    intro n
    cases hpos : c.position? n with
    | some i =>
      rw [find?_reverse_of_isLast ((h.position n i).mp hpos)]
      unfold Catalog.find?
      rw [hpos]
      exact Array.getElem?_toList.symm
    | none =>
      -- A name without a position is the name of no entry.
      have hfind : c.find? n = none := by unfold Catalog.find?; rw [hpos]; rfl
      have hmem := h.find?_eq_none_iff.mp hfind
      rw [hfind, eq_comm, List.find?_eq_none]
      intro ref href hname
      refine hmem (List.mem_map.mpr ⟨ref, List.mem_reverse.mp href, ?_⟩)
      simpa using hname
  position?_lt := by
    intro n i hi
    have hlt := ((h.position n i).mp hi).lt_length
    rwa [List.length_map] at hlt

/-- The registry lists these messages and enums, and the last of a name counts. -/
structure Registry.Holds (r : Registry) (s : Store) (messageRefs enumRefs : List Nat) : Prop where
  messages : r.messages.LastWins s.messageName? messageRefs
  enums : r.enums.LastWins s.enumName? enumRefs
  size : r.size = messageRefs.length + enumRefs.length

/-! ## The ledger -/

/-- What has been made, what was added to it, and what has been registered where. -/
structure Ledger where
  /-- The name of each message, and the fields that were added to it. -/
  messages : List (String × List Field)
  enums : List (String × List EnumValue)
  /-- The messages registered in the registry of a name. -/
  messageRefs : String → List Nat
  enumRefs : String → List Nat

namespace Ledger

/-- Nothing is listed. -/
def empty : Ledger := ⟨[], [], fun _ => [], fun _ => []⟩

/-- Puts down what the registry of a name lists from now on. -/
def relist (l : Ledger) (name : String) (messageRefs enumRefs : List Nat) : Ledger :=
  { l with
    messageRefs := Function.update l.messageRefs name messageRefs
    enumRefs := Function.update l.enumRefs name enumRefs }

theorem relist_messageRefs (l : Ledger) (name other : String) (messageRefs enumRefs : List Nat) :
    (l.relist name messageRefs enumRefs).messageRefs other
      = if name = other then messageRefs else l.messageRefs other := by
  show Function.update l.messageRefs name messageRefs other = _
  simp only [Function.update_apply, eq_comm]

theorem relist_enumRefs (l : Ledger) (name other : String) (messageRefs enumRefs : List Nat) :
    (l.relist name messageRefs enumRefs).enumRefs other
      = if name = other then enumRefs else l.enumRefs other := by
  show Function.update l.enumRefs name enumRefs other = _
  simp only [Function.update_apply, eq_comm]

/-- Lists a message once more in the registry of a name. -/
def registerMessage (l : Ledger) (name : String) (ref : Nat) : Ledger :=
  l.relist name (l.messageRefs name ++ [ref]) (l.enumRefs name)

/-- Lists an enum once more in the registry of a name. -/
def registerEnum (l : Ledger) (name : String) (ref : Nat) : Ledger :=
  l.relist name (l.messageRefs name) (l.enumRefs name ++ [ref])

/-- Puts down an edit. A pass adds nothing to anything. -/
def record (l : Ledger) : Edit → Ledger
  | .message name fields into =>
    let made := { l with messages := l.messages ++ [(name, fields)] }
    match into with
    | none => made
    | some target => made.registerMessage target l.messages.length
  | .enum name values into =>
    let made := { l with enums := l.enums ++ [(name, values)] }
    match into with
    | none => made
    | some target => made.registerEnum target l.enums.length
  | .field ref f => { l with messages := l.messages.modify ref fun m => (m.1, m.2 ++ [f]) }
  | .value ref v => { l with enums := l.enums.modify ref fun e => (e.1, e.2 ++ [v]) }
  | .registerMessage target ref => l.registerMessage target ref
  | .registerEnum target ref => l.registerEnum target ref
  | .clear target => l.relist target [] []
  | .resolve _ => l

/-- The ledger tells what is there. -/
structure Describes (l : Ledger) (c : Contents) : Prop where
  messages : List.Forall₂ (fun a m => Message.Holds m a.1 a.2) l.messages c.store.messages.toList
  enums : List.Forall₂ (fun a e => Enumeration.Holds e a.1 a.2) l.enums c.store.enums.toList
  messageRefs : ∀ name, (c.registry name).messages.toList = l.messageRefs name
  enumRefs : ∀ name, (c.registry name).enums.toList = l.enumRefs name

end Ledger

/-- Lists related element by element stay so when elements at one position are changed alike. -/
theorem forall₂_modify {α β : Type} {R : α → β → Prop} {f : α → α} {g : β → β}
    (hfg : ∀ a b, R a b → R (f a) (g b)) {as : List α} {bs : List β} (h : List.Forall₂ R as bs)
    (i : Nat) : List.Forall₂ R (as.modify i f) (bs.modify i g) := by
  induction h generalizing i with
  | nil => rw [List.modify_nil, List.modify_nil]; exact .nil
  | cons hab hrest ih =>
    cases i with
    | zero => exact .cons (hfg _ _ hab) hrest
    | succ i => exact .cons hab (ih i)

/-- Lists are related element by element if their elements are so at each position. -/
theorem forall₂_of_getElem? {α β : Type} {R : α → β → Prop} {as : List α} {bs : List β}
    (hlen : as.length = bs.length)
    (h : ∀ (i : Nat) a b, as[i]? = some a → bs[i]? = some b → R a b) : List.Forall₂ R as bs := by
  refine List.forall₂_iff_get.mpr ⟨hlen, fun i ha hb => h i _ _ ?_ ?_⟩
  · exact List.getElem?_eq_getElem ha
  · exact List.getElem?_eq_getElem hb

namespace Ledger.Describes

variable {l : Ledger} {c : Contents}

theorem empty : Describes .empty .empty := ⟨.nil, .nil, fun _ => rfl, fun _ => rfl⟩

theorem length_messages (h : Describes l c) : l.messages.length = c.store.messages.size :=
  h.messages.length_eq

theorem length_enums (h : Describes l c) : l.enums.length = c.store.enums.size :=
  h.enums.length_eq

/-- A new message is listed at the end, with the fields it is built with. -/
theorem addMessage (h : Describes l c) (name : String) (fields : List Field) :
    Describes { l with messages := l.messages ++ [(name, fields)] }
      { c with store := c.store.addMessage ⟨name, .ofList fields⟩ } where
  messages := by
    show List.Forall₂ _ _ (c.store.messages.push _).toList
    rw [Array.toList_push]
    exact List.rel_append h.messages (.cons (.ofList name fields) .nil)
  enums := h.enums
  messageRefs := h.messageRefs
  enumRefs := h.enumRefs

theorem addEnum (h : Describes l c) (name : String) (values : List EnumValue) :
    Describes { l with enums := l.enums ++ [(name, values)] }
      { c with store := c.store.addEnum ⟨name, .ofList values⟩ } where
  messages := h.messages
  enums := by
    show List.Forall₂ _ _ (c.store.enums.push _).toList
    rw [Array.toList_push]
    exact List.rel_append h.enums (.cons (.ofList name values) .nil)
  messageRefs := h.messageRefs
  enumRefs := h.enumRefs

/-- A registry is changed, and the ledger told what it lists then. -/
theorem change (h : Describes l c) (target : String) {f : Registry → Registry}
    {messageRefs enumRefs : List Nat}
    (hm : (f (c.registry target)).messages.toList = messageRefs)
    (he : (f (c.registry target)).enums.toList = enumRefs) :
    Describes (l.relist target messageRefs enumRefs) (c.change target f) where
  messages := h.messages
  enums := h.enums
  messageRefs := by
    intro name
    rw [Contents.change_registry, relist_messageRefs]
    split
    -- Only the registry that is changed has new entries.
    · rename_i heq; subst heq; exact hm
    · exact h.messageRefs name
  enumRefs := by
    intro name
    rw [Contents.change_registry, relist_enumRefs]
    split
    · rename_i heq; subst heq; exact he
    · exact h.enumRefs name

theorem registerMessage (h : Describes l c) (target name : String) (ref : Nat) :
    Describes (l.registerMessage target ref) (c.change target (·.addMessage name ref)) :=
  h.change target ((Catalog.toList_add _ _ _).trans (by rw [h.messageRefs])) (h.enumRefs target)

theorem registerEnum (h : Describes l c) (target name : String) (ref : Nat) :
    Describes (l.registerEnum target ref) (c.change target (·.addEnum name ref)) :=
  h.change target (h.messageRefs target) ((Catalog.toList_add _ _ _).trans (by rw [h.enumRefs]))

/-- A field that is added to a message is listed with it, wherever it is registered. -/
theorem addField (h : Describes l c) (ref : Nat) (f : Field) :
    Describes (l.record (.field ref f)) (Edit.perform c (.field ref f)) where
  messages := by
    show List.Forall₂ _ _ (c.store.messages.modify ref _).toList
    rw [Array.toList_modify]
    exact forall₂_modify (fun _ _ hm => hm.addField f) h.messages ref
  enums := h.enums
  messageRefs := h.messageRefs
  enumRefs := h.enumRefs

theorem addValue (h : Describes l c) (ref : Nat) (v : EnumValue) :
    Describes (l.record (.value ref v)) (Edit.perform c (.value ref v)) where
  messages := h.messages
  enums := by
    show List.Forall₂ _ _ (c.store.enums.modify ref _).toList
    rw [Array.toList_modify]
    exact forall₂_modify (fun _ _ he => he.addValue v) h.enums ref
  messageRefs := h.messageRefs
  enumRefs := h.enumRefs

/-- A pass may bind references, which the ledger does not tell. -/
theorem resolve (h : Describes l c) (target : String) :
    Describes l (Edit.perform c (.resolve target)) where
  messages := by
    let p := Progress.start c.store (c.registry target)
    -- Each message is as it was, or has been resolved as a whole.
    have hpass : List.Forall₂ (fun m m' => m' = m ∨ m' = (c.registry target).resolveMessage m)
        c.store.messages.toList p.resolve.store.messages.toList := by
      refine forall₂_of_getElem? (Progress.size_resolve p).symm fun ref m m' hm hm' => ?_
      rw [Array.getElem?_toList] at hm hm'
      have hat := Progress.message?_resolve p ref
      unfold Store.message? at hat
      rw [hm', show p.store.messages[ref]? = some m from hm] at hat
      split at hat
      · exact Or.inr (Option.some.inj hat)
      · exact Or.inl (Option.some.inj hat)
    refine forall₂_comp (fun a m m' ha hm' => ?_) h.messages hpass
    rcases hm' with rfl | rfl
    · exact ha
    · exact ha.resolveMessage _
  enums := by
    show List.Forall₂ _ _ (Progress.resolve _).store.enums.toList
    rw [Progress.resolve_enums]
    exact h.enums
  messageRefs := h.messageRefs
  enumRefs := h.enumRefs

/-- **Preserved by every edit.** -/
theorem record (h : Describes l c) (e : Edit) : Describes (l.record e) (e.perform c) := by
  cases e with
  | message name fields into =>
    -- The message is made first; a registration then refers to it by the number it was given.
    have hmade := h.addMessage name fields
    cases into with
    | none => exact hmade
    | some target =>
      show (Ledger.registerMessage _ target l.messages.length).Describes _
      rw [h.length_messages]
      exact hmade.registerMessage target name _
  | enum name values into =>
    have hmade := h.addEnum name values
    cases into with
    | none => exact hmade
    | some target =>
      show (Ledger.registerEnum _ target l.enums.length).Describes _
      rw [h.length_enums]
      exact hmade.registerEnum target name _
  | field ref f => exact h.addField ref f
  | value ref v => exact h.addValue ref v
  | registerMessage target ref => exact h.registerMessage target _ ref
  | registerEnum target ref => exact h.registerEnum target _ ref
  | clear target => exact h.change target (f := fun _ => .empty) rfl rfl
  | resolve target => exact h.resolve target

/-- The ledger goes along with any run of edits. -/
theorem foldl (h : Describes l c) (es : List Edit) :
    Describes (es.foldl Ledger.record l) (es.foldl Edit.perform c) := by
  induction es generalizing l c with
  | nil => exact h
  | cons e es ih => exact ih (h.record e)

end Ledger.Describes

/-! ## Sessions -/

namespace Workspace

/-- What a session puts down. -/
def ledger (session : List (String × Change)) : Ledger :=
  (journal session).foldl Ledger.record .empty

/--
**The last one counts, always.**

After any session, with descriptors made by hand or by imports, registered once or several times and
in several registries, and with failures on the way: every message has exactly the fields that were
added to it, in the order in which they were, and under a name or a number the last of them that has
it is found, or none if there is none; so for every enum and its values. Every registry lists
exactly what was registered in it, in that order, and these are as many as it has. Under a name it
finds the last one registered that leads to a descriptor of this name, or none if there is none. And
no index has a position that is out of range.
-/
theorem last_wins (session : List (String × Change)) :
    let w := after session
    let l := ledger session
    List.Forall₂ (fun a m => Message.Holds m a.1 a.2) l.messages w.store.messages.toList
      ∧ List.Forall₂ (fun a e => Enumeration.Holds e a.1 a.2) l.enums w.store.enums.toList
      ∧ ∀ name, (w.registry name).Holds w.store (l.messageRefs name) (l.enumRefs name) := by
  intro w l
  -- The ledger describes what the journal wrote, edit by edit.
  have h : l.Describes w.contents := by
    rw [contents_after]
    exact Ledger.Describes.empty.foldl (journal session)
  refine ⟨h.messages, h.enums, fun name => ?_⟩
  have hfits := (sound_after session).registries name
  have hm : (w.registry name).messages.toList = l.messageRefs name := h.messageRefs name
  have he : (w.registry name).enums.toList = l.enumRefs name := h.enumRefs name
  refine ⟨?_, ?_, ?_⟩
  · rw [← hm]
    exact hfits.messages.lastWins
  · rw [← he]
    exact hfits.enums.lastWins
  · rw [← hm, ← he]
    rfl

end Workspace

end SchemaRegistry
