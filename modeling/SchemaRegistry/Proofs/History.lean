import SchemaRegistry.Proofs.Growth
import SchemaRegistry.Proofs.Resolution

/-!
# The histories of a registry

A history is any sequence of imports and resolution passes on one registry that is empty at first.
Imports may fail and leave what they did until then.

Every import of a history is a walk, so there are two kinds of step only: a stretch of visits, and
the pass (`Step.run_eq`). What is registered in the end is a matter of the visits alone, and
`declared` lists the declarations it comes from.
-/

namespace SchemaRegistry

/-- What may be done to a registry. -/
inductive Step where
  | importFile (f : FileDecl)
  | importFiles (fs : List FileDecl)
  | importMessage (path : String) (d : MessageDecl)
  | resolve

namespace Step

/-- Takes the step, and keeps what it did if it fails. -/
def run (p : Progress) : Step → Progress
  | importFile f => ((Import.importFile f).outcome p).2
  | importFiles fs => ((Import.importFiles fs).outcome p).2
  | importMessage path d => ((Import.importMessage path d).outcome p).2
  | resolve => p.resolve

/-- Whether the step is an import. The other steps are passes. -/
def isImport : Step → Bool
  | resolve => false
  | _ => true

/-- What is visited in a step; nothing in a pass. -/
def walk : Step → List Visit
  | importFile f => f.walk
  | importFiles fs => fs.flatMap FileDecl.walk
  | importMessage path d => d.walk path
  | resolve => []

/-- The visits that the step makes. -/
def visits (s : Step) : List Visit := Walk.reached s.walk

/-- A step is either a run of visits or a pass. -/
theorem run_eq (p : Progress) (s : Step) :
    s.run p = if s.isImport then s.visits.foldl Visit.perform p else p.resolve := by
  cases s with
  | importFile f => exact congrArg Prod.snd (Import.importFile_follows f p)
  | importFiles fs => exact congrArg Prod.snd (Import.importFiles_follows fs p)
  | importMessage path d => exact congrArg Prod.snd (Import.importMessage_follows path d p)
  | resolve => rfl

theorem visits_of_not_isImport {s : Step} (h : s.isImport = false) : s.visits = [] := by
  cases s with
  | resolve => rfl
  | _ => cases h

/-- The fields of a message are visited before the message, in every step. -/
theorem fieldsFirst (s : Step) : Walk.FieldsFirst s.walk := by
  cases s with
  | importFile f => exact Walk.fieldsFirst_file f
  | importFiles fs => exact Walk.fieldsFirst_files fs
  | importMessage path d => exact Walk.fieldsFirst_walk path d
  | resolve => exact .of_no_message (by simp [walk])

theorem leads_run (p : Progress) (s : Step) : p.Leads (s.run p) := by
  rw [run_eq]
  split
  · exact Progress.leads_performAll s.visits p
  · exact Progress.leads_resolve p

/-- The messages declared, each under its path, whose registration the steps come to. -/
def declared (steps : List Step) : List (String × MessageDecl) :=
  steps.flatMap fun s => s.visits.filterMap Visit.message?

theorem declared_snoc (steps : List Step) (s : Step) :
    declared (steps ++ [s]) = declared steps ++ s.visits.filterMap Visit.message? := by
  unfold declared
  rw [List.flatMap_append, List.flatMap_singleton]

end Step

namespace Progress

/-- Where a history leads. -/
def after (steps : List Step) : Progress := steps.foldl Step.run empty

/-- A history goes on from where it has led. -/
@[simp] theorem after_snoc (steps : List Step) (s : Step) :
    after (steps ++ [s]) = s.run (after steps) := by
  unfold after
  rw [List.foldl_append]
  rfl

/-- A history leads on to all that continue it. -/
theorem leads_after {steps steps' : List Step} (h : steps <+: steps') :
    (after steps).Leads (after steps') := by
  obtain ⟨rest, rfl⟩ := h
  induction rest using List.reverseRecOn with
  | nil => rw [List.append_nil]; exact .refl _
  | append_singleton rest s ih =>
    rw [← List.append_assoc, after_snoc]
    exact ih.trans (Step.leads_run _ s)

/-- **Every history leads to a registry that fits its store.** -/
theorem fits_after (steps : List Step) : (after steps).Fits :=
  (leads_after (List.nil_prefix (l := steps))).fits (Registry.fits_empty _)

/-- **What holds of every registered message**, compared with the declaration it comes from: what
holds of a message when it is built, is not lost when the load grows, and is kept by a pass. -/
theorem registered_after {R : Progress → String → MessageDecl → Message → Prop}
    (hbuilt : ∀ p path d m, Message.Declared path d m → R p path d m)
    (hgrow : ∀ p q path d m, p.Leads q → R p path d m → R q path d m)
    (hpass : ∀ p path d m, p.Fits → R p path d m → R p path d (p.registry.resolveMessage m))
    (steps : List Step) :
    List.Forall₂ (fun pd m => R (after steps) pd.1 pd.2 m) (Step.declared steps)
      ((after steps).registry.messageList (after steps).store) := by
  induction steps using List.reverseRecOn with
  | nil => exact .nil
  | append_singleton steps s ih =>
    have hfit := fits_after steps
    rw [after_snoc, Step.declared_snoc, Step.run_eq]
    cases hs : s.isImport with
    | true =>
      rw [if_pos rfl, (Appends.performAll s.visits (after steps)).messages hfit]
      -- The old messages are as they were, but what they refer to is looked up in the new load.
      refine List.rel_append (ih.imp fun pd m hm => ?_) ?_
      · exact hgrow _ _ _ _ _ (leads_performAll _ _) hm
      · exact (Walk.declared_reached s.fieldsFirst).imp fun pd m hm => hbuilt _ _ _ _ hm
    | false =>
      rw [if_neg Bool.false_ne_true, resolve_registry, messageList_resolve,
        Step.visits_of_not_isImport hs, List.filterMap_nil, List.append_nil,
        List.forall₂_map_right_iff]
      exact ih.imp fun pd m hm => hgrow _ _ _ _ _ (leads_resolve _) (hpass _ _ _ _ hfit hm)

/-- The registered enums are those that the visits register, as they were made. -/
theorem enumList_after (steps : List Step) :
    (after steps).registry.enumList (after steps).store
      = steps.flatMap fun s => s.visits.flatMap Visit.enums := by
  induction steps using List.reverseRecOn with
  | nil => rfl
  | append_singleton steps s ih =>
    rw [after_snoc, Step.run_eq, List.flatMap_append, List.flatMap_singleton]
    cases hs : s.isImport with
    | true =>
      rw [if_pos rfl, (Appends.performAll s.visits (after steps)).enums (fits_after steps), ih]
    | false =>
      rw [if_neg Bool.false_ne_true, resolve_registry, enumList_resolve, ih,
        Step.visits_of_not_isImport hs, List.flatMap_nil, List.append_nil]

/-! ## What is registered by name -/

/-- The names of the registered messages, in order of registration. -/
def messageNames (p : Progress) : List String := (p.registry.messageList p.store).map Message.name

/-- The names under which enums are registered, in order. -/
def enumNames (p : Progress) : List String := (p.registry.enumList p.store).map Enumeration.name

end Progress

end SchemaRegistry
