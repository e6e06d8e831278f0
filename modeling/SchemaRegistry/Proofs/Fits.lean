import SchemaRegistry.Proofs.Indexed
import SchemaRegistry.Proofs.Walk

/-!
# Registries that fit their store

A registry holds references, and they mean something only over the store that they were made for. It
*fits* a store when every reference leads to a descriptor and both indices go by the names found
there.

A store never loses or renames a descriptor (`Store.Extends`), so a registry that fits it keeps
fitting whatever happens to the store on behalf of other registries. What remains to be shown of a
step is that it keeps the registry it works on fitting, which is what `Progress.Leads` adds.
-/

namespace SchemaRegistry

/-!
## Tables

Messages and enums stand in a table each. What adding and changing entries does to a table is shown
once, for entries of any kind.
-/

section Tables

variable {α β : Type} {t : Array α} {i : Nat}

/-- What is added to a table leaves the entries before it as they are. -/
theorem entry_push {a b : α} (h : t[i]? = some b) : (t.push a)[i]? = some b := by
  have hlt : i < t.size := (Array.getElem?_eq_some_iff.mp h).choose
  rw [Array.getElem?_push, if_neg (Nat.ne_of_lt hlt)]
  exact h

/-- A part that the change of an entry keeps is the same in all entries afterwards. -/
theorem map_entry_modify {f : α → α} {part : α → β} (hf : ∀ a, part (f a) = part a) (ref i : Nat) :
    (t.modify ref f)[i]?.map part = t[i]?.map part := by
  rw [Array.getElem?_modify]
  split
  · rw [Option.map_map, show part ∘ f = part from funext hf]
  · rfl

/-- If an entry is kept, so is every part of it. -/
theorem map_entry_mono {x y : Option α} {part : α → β} {b : β} (h : ∀ a, x = some a → y = some a)
    (hb : x.map part = some b) : y.map part = some b := by
  obtain ⟨a, ha, rfl⟩ := Option.map_eq_some_iff.mp hb
  rw [h a ha, Option.map_some]

/-- What is added to a table and registered comes behind what was registered before. -/
theorem Catalog.Indexed.filterMap_add {c : Catalog} {label : α → String}
    (h : c.Indexed fun ref => t[ref]?.map label) (name : String) (a : α) :
    (c.add name t.size).toList.filterMap (fun ref => (t.push a)[ref]?)
      = c.toList.filterMap (fun ref => t[ref]?) ++ [a] := by
  -- The new entry does not show through an old reference: these lead to the entries before it.
  rw [Catalog.toList_add, List.filterMap_append, h.filterMap_eq fun ref b hb => entry_push hb,
    List.filterMap_cons_some (b := a) Array.getElem?_push_size]
  rfl

end Tables

namespace Store

/-- The name of the message at a reference. -/
def messageName? (s : Store) (ref : Nat) : Option String := (s.message? ref).map Message.name

/-- The name of the enum at a reference. -/
def enumName? (s : Store) (ref : Nat) : Option String := (s.enum? ref).map Enumeration.name

/-- Everything in `s` is in `s'` as well, under its old reference and name. -/
structure Extends (s s' : Store) : Prop where
  messages : ∀ ref n, s.messageName? ref = some n → s'.messageName? ref = some n
  enums : ∀ ref n, s.enumName? ref = some n → s'.enumName? ref = some n

namespace Extends

variable {s s' s'' : Store}

theorem refl (s : Store) : Extends s s := ⟨fun _ _ h => h, fun _ _ h => h⟩

theorem trans (h : Extends s s') (h' : Extends s' s'') : Extends s s'' :=
  ⟨fun ref n hn => h'.messages ref n (h.messages ref n hn),
    fun ref n hn => h'.enums ref n (h.enums ref n hn)⟩

end Extends

/-- Everything in `s` is in `s'` just as it was. -/
structure Keeps (s s' : Store) : Prop where
  messages : ∀ ref m, s.message? ref = some m → s'.message? ref = some m
  enums : ∀ ref e, s.enum? ref = some e → s'.enum? ref = some e

namespace Keeps

variable {s s' s'' : Store}

theorem refl (s : Store) : Keeps s s := ⟨fun _ _ h => h, fun _ _ h => h⟩

theorem trans (h : Keeps s s') (h' : Keeps s' s'') : Keeps s s'' :=
  ⟨fun ref m hm => h'.messages ref m (h.messages ref m hm),
    fun ref e he => h'.enums ref e (h.enums ref e he)⟩

/-- What is left as it was has its old name. -/
theorem toExtends (h : Keeps s s') : Extends s s' where
  messages := fun ref _ => map_entry_mono (h.messages ref)
  enums := fun ref _ => map_entry_mono (h.enums ref)

end Keeps

/-! ## What each operation does to the descriptors -/

theorem message?_updateMessage (s : Store) (ref other : Nat) (f : Message → Message) :
    (s.updateMessage ref f).message? other =
      if ref = other then (s.message? other).map f else s.message? other :=
  Array.getElem?_modify

/-- Adding a message touches nothing that is there. -/
theorem keeps_addMessage (s : Store) (m : Message) : Keeps s (s.addMessage m) where
  messages := fun _ _ => entry_push
  enums := fun _ _ h => h

theorem keeps_addEnum (s : Store) (e : Enumeration) : Keeps s (s.addEnum e) where
  messages := fun _ _ h => h
  enums := fun _ _ => entry_push

/-- A message may change, but not its name. -/
theorem extends_updateMessage (s : Store) (ref : Nat) {f : Message → Message}
    (hf : ∀ m, (f m).name = m.name) : Extends s (s.updateMessage ref f) where
  messages := fun other _ => (map_entry_modify hf ref other).trans
  enums := fun _ _ h => h

theorem extends_updateEnum (s : Store) (ref : Nat) {f : Enumeration → Enumeration}
    (hf : ∀ e, (f e).name = e.name) : Extends s (s.updateEnum ref f) where
  messages := fun _ _ h => h
  enums := fun other _ => (map_entry_modify hf ref other).trans

/-- The reference of a new message is the number of those before. -/
theorem messageName?_addMessage_self (s : Store) (m : Message) :
    (s.addMessage m).messageName? s.messages.size = some m.name :=
  congrArg (Option.map Message.name) Array.getElem?_push_size

theorem enumName?_addEnum_self (s : Store) (e : Enumeration) :
    (s.addEnum e).enumName? s.enums.size = some e.name :=
  congrArg (Option.map Enumeration.name) Array.getElem?_push_size

end Store

/-! ## Registries -/

namespace Registry

/-- Every reference leads to a descriptor, and both indices are those of the names found there. -/
structure Fits (s : Store) (r : Registry) : Prop where
  messages : r.messages.Indexed s.messageName?
  enums : r.enums.Indexed s.enumName?

variable {s s' : Store} {r : Registry}

theorem fits_empty (s : Store) : Fits s empty := ⟨Catalog.indexed_empty _, Catalog.indexed_empty _⟩

/-- A registry keeps fitting as its store grows. -/
theorem Fits.mono (h : Fits s r) (hs : s.Extends s') : Fits s' r :=
  ⟨h.messages.mono hs.messages, h.enums.mono hs.enums⟩

/-- A message is registered under the name that it has. -/
theorem Fits.addMessage (h : Fits s r) {name : String} {ref : Nat}
    (href : s.messageName? ref = some name) : Fits s (r.addMessage name ref) :=
  ⟨h.messages.add href, h.enums⟩

theorem Fits.addEnum (h : Fits s r) {name : String} {ref : Nat}
    (href : s.enumName? ref = some name) : Fits s (r.addEnum name ref) :=
  ⟨h.messages, h.enums.add href⟩

end Registry

/-! ## Loads -/

namespace Progress

/-- The registry fits the store. -/
def Fits (p : Progress) : Prop := p.registry.Fits p.store

/-- From `p` to `q` the store and the registry have only grown, and they still fit if they did
before. -/
structure Leads (p q : Progress) : Prop where
  store : p.store.Extends q.store
  messages : p.registry.messages.toList <+: q.registry.messages.toList
  enums : p.registry.enums.toList <+: q.registry.enums.toList
  fits : p.Fits → q.Fits

variable {p q q' : Progress}

theorem Leads.refl (p : Progress) : Leads p p :=
  ⟨.refl _, List.prefix_refl _, List.prefix_refl _, id⟩

theorem Leads.trans (h : Leads p q) (h' : Leads q q') : Leads p q' where
  store := h.store.trans h'.store
  messages := h.messages.trans h'.messages
  enums := h.enums.trans h'.enums
  fits := fun hp => h'.fits (h.fits hp)

/-- The events and the command lines do not matter. -/
theorem Leads.of_same (hs : q.store = p.store) (hr : q.registry = p.registry) : Leads p q where
  store := by rw [hs]; exact .refl _
  messages := hr ▸ List.prefix_refl _
  enums := hr ▸ List.prefix_refl _
  fits := by
    intro hp
    unfold Fits
    rw [hs, hr]
    exact hp

/-- Registering a message keeps the registry fitting. -/
theorem leads_registerMessage (p : Progress) (m : Message) : Leads p (p.registerMessage m) where
  store := (Store.keeps_addMessage p.store m).toExtends
  messages := ⟨_, (Catalog.toList_add _ _ _).symm⟩
  enums := List.prefix_refl _
  fits := fun h => (h.mono (Store.keeps_addMessage p.store m).toExtends).addMessage
    (Store.messageName?_addMessage_self p.store m)

theorem leads_registerEnum (p : Progress) (e : Enumeration) : Leads p (p.registerEnum e) where
  store := (Store.keeps_addEnum p.store e).toExtends
  messages := List.prefix_refl _
  enums := ⟨_, (Catalog.toList_add _ _ _).symm⟩
  fits := fun h => (h.mono (Store.keeps_addEnum p.store e).toExtends).addEnum
    (Store.enumName?_addEnum_self p.store e)

@[simp] theorem noteAll_store (p : Progress) (es : List Event) :
    (p.noteAll es).store = p.store := by
  induction es generalizing p with
  | nil => rfl
  | cons e es ih => exact ih (p.note e)

@[simp] theorem noteAll_registry (p : Progress) (es : List Event) :
    (p.noteAll es).registry = p.registry := by
  induction es generalizing p with
  | nil => rfl
  | cons e es ih => exact ih (p.note e)

theorem leads_perform (p : Progress) (v : Visit) : Leads p (v.perform p) := by
  cases v with
  | field d => exact .of_same (noteAll_store _ _) (noteAll_registry _ _)
  | enum path d => exact leads_registerEnum p _
  | message path d => exact leads_registerMessage p _
  | file d => exact .of_same rfl rfl

/-- A run of visits leads from one fitting registry to another. -/
theorem leads_performAll (vs : List Visit) (p : Progress) :
    Leads p (vs.foldl Visit.perform p) := by
  induction vs generalizing p with
  | nil => exact .refl p
  | cons v vs ih => exact (leads_perform p v).trans (ih _)

end Progress

/-- A walk leads from a load to one that it extends, wherever it stops. -/
theorem Follows.leads {α : Type} {a : Action DeclarationError α} {vs : List Visit} {x : α}
    (h : Follows a vs x) (p : Progress) : p.Leads (a.outcome p).2 := by
  rw [h p]
  exact Progress.leads_performAll _ p

end SchemaRegistry
