import Mathlib.Data.List.Nodup
import Mathlib.Data.Option.Basic
import SchemaRegistry.Proofs.History

/-!
# When a registry is resolved does not matter

A history may have passes anywhere between its imports. As long as no name is registered twice, all
but the last can be left out: an early pass binds some references and skips others, and the last one
binds those it skipped and would have bound the rest in the same way (`resolve_any_time`).

The proof runs the history beside its imports alone. The two registries are always equal, and the
messages are `Alike`: they come out the same once the final registry has resolved them. To the final
registry an early pass is invisible, since the early registry is `Within` it. This is where the
names must be unique, for a name registered again would have moved.
-/

namespace SchemaRegistry

namespace Progress

/-- The same registrations in both loads, and messages in which `g` sees no difference. -/
structure Alike {β : Type} (g : Message → β) (p q : Progress) : Prop where
  registry : p.registry = q.registry
  messages : p.store.messages.map g = q.store.messages.map g
  enums : p.store.enums = q.store.enums

namespace Alike

variable {β : Type} {g : Message → β} {p q : Progress}

theorem refl (p : Progress) : Alike g p p := ⟨rfl, rfl, rfl⟩

theorem size_eq (h : Alike g p q) : p.store.messages.size = q.store.messages.size := by
  simpa using congrArg Array.size h.messages

/-- A visit does the same to both. -/
theorem perform (h : Alike g p q) (v : Visit) : Alike g (v.perform p) (v.perform q) := by
  cases v with
  | field d =>
    refine ⟨?_, ?_, ?_⟩
    · simpa [Visit.perform] using h.registry
    · simpa [Visit.perform] using h.messages
    · simpa [Visit.perform] using h.enums
  | enum path d =>
    refine ⟨?_, h.messages, ?_⟩
    · simp [Visit.perform, registerEnum, h.registry, h.enums]
    · simp [Visit.perform, registerEnum, Store.addEnum, h.enums]
  | message path d =>
    -- The reference is the number of messages before, and this is the same in both.
    refine ⟨?_, ?_, h.enums⟩
    · simp [Visit.perform, registerMessage, h.registry, h.size_eq]
    · simp [Visit.perform, registerMessage, Store.addMessage, h.messages]
  | file d => exact ⟨h.registry, h.messages, h.enums⟩

theorem performAll (vs : List Visit) (h : Alike g p q) :
    Alike g (vs.foldl Visit.perform p) (vs.foldl Visit.perform q) := by
  induction vs generalizing p q with
  | nil => exact h
  | cons v vs ih => exact ih (h.perform v)

/-- A pass that `g` does not see. -/
theorem resolve_left (h : Alike g p q) (hg : ∀ m, g (p.registry.resolveMessage m) = g m) :
    Alike g p.resolve q := by
  refine ⟨(resolve_registry p).trans h.registry, ?_, (resolve_enums p).trans h.enums⟩
  rw [← h.messages]
  refine Array.ext_getElem? fun ref => ?_
  have hmsg := message?_resolve p ref
  unfold Store.message? at hmsg
  rw [Array.getElem?_map, Array.getElem?_map, hmsg]
  split
  · rw [Option.map_map, show g ∘ p.registry.resolveMessage = g from funext hg]
  · rfl

end Alike

/-- If `g` sees none of the passes, the history is alike with its imports. -/
theorem alike_after {β : Type} {g : Message → β} (steps : List Step)
    (hg : ∀ early, early <+: steps → ∀ m, g ((after early).registry.resolveMessage m) = g m) :
    Alike g (after steps) (after (steps.filter Step.isImport)) := by
  induction steps using List.reverseRecOn with
  | nil => exact .refl _
  | append_singleton steps s ih =>
    have h := ih fun early hpre => hg early (hpre.trans (List.prefix_append _ _))
    rw [after_snoc, List.filter_append, Step.run_eq]
    cases hs : s.isImport with
    | true =>
      -- The same visits on both sides, for no visit depends on what has been resolved.
      rw [if_pos rfl, List.filter_cons_of_pos hs, List.filter_nil, after_snoc, Step.run_eq,
        if_pos hs]
      exact h.performAll _
    | false =>
      -- The pass has no counterpart among the imports.
      rw [if_neg Bool.false_ne_true, List.filter_cons_of_neg (by simp [hs]), List.filter_nil,
        List.append_nil]
      exact h.resolve_left (hg steps (List.prefix_append _ _))

/-! ## The names -/

/-- The names can be read off the store alone. -/
theorem messageNames_eq (p : Progress) :
    p.messageNames = p.registry.messages.toList.filterMap
      fun ref => (p.store.messages.map Message.name)[ref]? := by
  unfold messageNames Registry.messageList
  rw [List.map_filterMap]
  refine List.filterMap_congr fun ref _ => ?_
  rw [Array.getElem?_map]
  rfl

/-- The passes rename nothing. -/
theorem names_after (steps : List Step) :
    (after steps).messageNames = (after (steps.filter Step.isImport)).messageNames
      ∧ (after steps).enumNames = (after (steps.filter Step.isImport)).enumNames := by
  have h : Alike Message.name _ _ := alike_after steps fun _ _ _ => rfl
  refine ⟨?_, ?_⟩
  · rw [messageNames_eq, messageNames_eq, h.registry, h.messages]
  · unfold enumNames Registry.enumList Store.enum?
    rw [h.registry, h.enums]

/-- While names stay unique, later registrations hide no earlier ones. -/
theorem within_of_leads {p q : Progress} (h : p.Leads q) (hp : p.Fits)
    (hm : q.messageNames.Nodup) (he : q.enumNames.Nodup) : p.registry.Within q.registry := by
  have hq := h.fits hp
  refine ⟨fun n i hi => ?_, fun n i hi => ?_⟩
  -- The messages, and in the same way the enums: a name is registered once, so its position stays.
  · refine hp.messages.position?_of_prefix hq.messages h.store.messages h.messages ?_ hi
    show (q.registry.messages.toList.map fun ref => (q.store.message? ref).map Message.name).Nodup
    rw [hq.messages.map_name]
    exact hm.map (Option.some_injective _)
  · refine hp.enums.position?_of_prefix hq.enums h.store.enums h.enums ?_ hi
    show (q.registry.enums.toList.map fun ref => (q.store.enum? ref).map Enumeration.name).Nodup
    rw [hq.enums.map_name]
    exact he.map (Option.some_injective _)

/-! ## The last pass -/

/-- Everything in the store is registered. -/
def Complete (p : Progress) : Prop :=
  ∀ ref, ref < p.store.messages.size → ref ∈ p.registry.messages.toList

/-- A visit that stores a message registers it too. -/
theorem Complete.perform {p : Progress} (h : p.Complete) (v : Visit) : (v.perform p).Complete := by
  cases v with
  | field d =>
    intro ref href
    simp only [Visit.perform, noteAll_store, noteAll_registry] at href ⊢
    exact h ref href
  | enum path d => exact h
  | message path d =>
    intro ref href
    have hsize : ref < p.store.messages.size + 1 := by
      simpa [Visit.perform, registerMessage, Store.addMessage] using href
    show ref ∈ (p.registry.messages.add _ p.store.messages.size).toList
    -- The message is stored at the end and registered right there.
    rw [Catalog.toList_add, List.mem_append, List.mem_singleton]
    rcases Nat.lt_succ_iff_lt_or_eq.mp hsize with hlt | heq
    · exact Or.inl (h ref hlt)
    · exact Or.inr heq
  | file d => exact h

theorem Complete.performAll {p : Progress} (h : p.Complete) (vs : List Visit) :
    (vs.foldl Visit.perform p).Complete := by
  induction vs generalizing p with
  | nil => exact h
  | cons v vs ih => exact ih (h.perform v)

theorem size_resolve (p : Progress) : p.resolve.store.messages.size = p.store.messages.size :=
  ((Alike.refl (g := fun _ => ()) p).resolve_left fun _ => rfl).size_eq

/-- Whatever a history stores is registered. -/
theorem complete_after (steps : List Step) : (after steps).Complete := by
  induction steps using List.reverseRecOn with
  | nil => exact fun ref href => absurd href (Nat.not_lt_zero ref)
  | append_singleton steps s ih =>
    rw [after_snoc, Step.run_eq]
    split
    · exact ih.performAll s.visits
    · intro ref href
      rw [size_resolve] at href
      rw [resolve_registry]
      exact ih ref href

/-- Where everything is registered, the pass resolves everything. -/
theorem Complete.messages_resolve {p : Progress} (h : p.Complete) :
    p.resolve.store.messages = p.store.messages.map p.registry.resolveMessage := by
  refine Array.ext_getElem? fun ref => ?_
  have hmsg := message?_resolve p ref
  unfold Store.message? at hmsg
  rw [Array.getElem?_map, hmsg]
  split
  · rfl
  · -- Beyond the end of the store.
    rename_i hnot
    have hout : p.store.messages.size ≤ ref := Nat.le_of_not_lt fun hlt => hnot (h ref hlt)
    rw [Array.getElem?_eq_none hout]
    rfl

/--
**The time of the passes is of no matter.**

Let the imports of a history register no message name twice and no enum name twice, some of them
failing part-way perhaps. Then, with a pass at the end, it leads to the same registry and the same
store as its imports one after another and one pass: the same lists and indices, and in every field
the same handle or the same name.
-/
theorem resolve_any_time (steps : List Step)
    (hm : (after (steps.filter Step.isImport)).messageNames.Nodup)
    (he : (after (steps.filter Step.isImport)).enumNames.Nodup) :
    let mixed := after (steps ++ [.resolve])
    let late := after (steps.filter Step.isImport ++ [.resolve])
    mixed.registry = late.registry ∧ mixed.store = late.store := by
  intro mixed late
  -- Names are not resolved, so the history registers no name twice either.
  obtain ⟨hmessages, henums⟩ := names_after steps
  rw [← hmessages] at hm
  rw [← henums] at he
  have hwithin : ∀ early, early <+: steps →
      (after early).registry.Within (after steps).registry := fun early hpre =>
    within_of_leads (leads_after hpre) (fits_after early) hm he
  -- To the final registry every pass on the way is as if it had not been made.
  have halike : Alike (after steps).registry.resolveMessage _ _ :=
    alike_after steps fun early hpre m => Registry.resolveMessage_absorb (hwithin early hpre) m
  have hmixed : mixed = (after steps).resolve := after_snoc steps .resolve
  have hlate : late = (after (steps.filter Step.isImport)).resolve := after_snoc _ .resolve
  rw [hmixed, hlate]
  refine ⟨?_, ?_⟩
  · rw [resolve_registry, resolve_registry]
    exact halike.registry
  · have hstore : (after steps).resolve.store.messages
        = (after (steps.filter Step.isImport)).resolve.store.messages := by
      rw [(complete_after steps).messages_resolve, (complete_after _).messages_resolve,
        halike.messages, halike.registry]
    have henum : (after steps).resolve.store.enums
        = (after (steps.filter Step.isImport)).resolve.store.enums := by
      rw [resolve_enums, resolve_enums, halike.enums]
    exact congrArg₂ Store.mk hstore henum

/-- Two messages that refer to each other, a pass between their files, and an import that fails at
a field of unknown type after it has registered a message. -/
def crossSample : List Step :=
  [.importFile { FileDecl.empty with
      package := some "shop"
      messages := [{ MessageDecl.empty with
        name := some "Order"
        fields := [{ FieldDecl.empty with type := some 11, typeName := some ".shop.Item" }] }] },
    .resolve,
    .importFile { FileDecl.empty with
      package := some "shop"
      messages := [{ MessageDecl.empty with
        name := some "Item"
        fields := [{ FieldDecl.empty with type := some 11, typeName := some ".shop.Order" }] }] },
    .importFiles [{ FileDecl.empty with
      package := some "shop"
      messages := [{ MessageDecl.empty with name := some "Left" },
        { MessageDecl.empty with
          name := some "Lost", fields := [{ FieldDecl.empty with type := some 99 }] }] }],
    .resolve]

theorem resolve_any_time_crossSample :
    let imports := crossSample.filter Step.isImport
    (after imports).messageNames = [".shop.Order", ".shop.Item", ".shop.Left"]
      ∧ (after imports).messageNames.Nodup
      ∧ (after imports).enumNames.Nodup
      ∧ (after (crossSample ++ [.resolve])).registry = (after (imports ++ [.resolve])).registry
      ∧ (after (crossSample ++ [.resolve])).store = (after (imports ++ [.resolve])).store := by
  intro imports
  have hnames : (after imports).messageNames = [".shop.Order", ".shop.Item", ".shop.Left"] := rfl
  have hm : (after imports).messageNames.Nodup := by rw [hnames]; decide
  have he : (after imports).enumNames.Nodup := by
    rw [show (after imports).enumNames = [] from rfl]
    exact List.nodup_nil
  exact ⟨hnames, hm, he, resolve_any_time crossSample hm he⟩

end Progress

end SchemaRegistry
