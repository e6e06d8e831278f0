import SchemaRegistry.Proofs.Loading
import SchemaRegistry.Proofs.Reading
import SchemaRegistry.Proofs.Session
import SchemaRegistry.Registry.View

/-!
# The resolution pass goes unseen

All that is reported of a registry is made from the views of its fields, and the pass changes none
of these (`view_resolveField`). So the dangling references and the summary come out the same before
and after it, and they do not show whether a load was resolved at its end.
-/

namespace SchemaRegistry

namespace Registry

variable {s s' : Store} {r : Registry}

/-- Each field is viewed as before. -/
theorem fieldViews_resolveMessage (h : r.Fits s) (m : Message) :
    r.fieldViews (r.resolveMessage m)
      = (r.fieldViews m).map (List.map fun fv => (r.resolveField fv.1, fv.2)) := by
  have hfields : (r.resolveMessage m).fields.toList = m.fields.toList.map r.resolveField :=
    Members.toList_map _ _
  unfold fieldViews
  rw [hfields]
  -- Views are collected from the first field on, and the first error ends it.
  induction m.fields.toList with
  | nil => rfl
  | cons f fs ih =>
    rw [List.map_cons, List.mapM_cons, List.mapM_cons, ih, view_resolveField h]
    cases r.view f.type with
    | error e => rfl
    | ok v =>
      generalize (fs.mapM _ : Except HandleError (List (Field × TypeView))) = rest
      cases rest <;> rfl

/-- The same fields of a message are dangling. -/
theorem danglingOf_resolveMessage (h : r.Fits s) (m : Message) :
    r.danglingOf (r.resolveMessage m) = r.danglingOf m := by
  unfold danglingOf
  rw [fieldViews_resolveMessage h]
  cases r.fieldViews m with
  | error e => rfl
  | ok fvs =>
    show Except.ok _ = Except.ok _
    rw [List.filterMap_map]
    rfl

/-- Names decide what a view shows. -/
theorem describe_congr (hm : ∀ ref, s'.messageName? ref = s.messageName? ref)
    (he : ∀ ref, s'.enumName? ref = s.enumName? ref) (v : TypeView) :
    v.describe s' = v.describe s := by
  -- A description depends on the store through names only.
  have h1 : v.messageName? s' = v.messageName? s := by
    unfold TypeView.messageName?
    cases v.message with
    | none => rfl
    | some ref => exact hm ref
  have h2 : v.enumName? s' = v.enumName? s := by
    unfold TypeView.enumName?
    cases v.enum with
    | none => rfl
    | some ref => exact he ref
  unfold TypeView.describe
  rw [h1, h2]

/-- The summary of a message does not change, since names do not. -/
theorem messageBlock_resolveMessage (h : r.Fits s)
    (hm : ∀ ref, s'.messageName? ref = s.messageName? ref)
    (he : ∀ ref, s'.enumName? ref = s.enumName? ref) (m : Message) :
    Summary.messageBlock r s' (r.resolveMessage m) = Summary.messageBlock r s m := by
  have hline : ∀ fv : Field × TypeView,
      Summary.fieldLine s' (r.resolveField fv.1) fv.2 = Summary.fieldLine s fv.1 fv.2 := by
    intro fv
    unfold Summary.fieldLine
    simp only [describe_congr hm he, resolveField]
  unfold Summary.messageBlock
  rw [fieldViews_resolveMessage h, resolveMessage_name]
  cases r.fieldViews m with
  -- The two texts go by different stores, and comparing them by `rfl` would write them out.
  | error e => simp only [Except.map, bind, Except.bind]
  | ok fvs => simp only [Except.map, bind, Except.bind, List.map_map, Function.comp_def, hline]

end Registry

/-! ## Before and after the pass -/

namespace Progress

/-- A pass does not change which fields are dangling. -/
theorem dangling_resolve {p : Progress} (h : p.Fits) :
    p.resolve.registry.dangling p.resolve.store = p.registry.dangling p.store := by
  have hsame : p.registry.danglingOf ∘ p.registry.resolveMessage = p.registry.danglingOf :=
    funext fun m => Registry.danglingOf_resolveMessage h m
  unfold Registry.dangling
  rw [resolve_registry, messageList_resolve, List.mapM_map, hsame]

/-- A pass does not change the summary. -/
theorem render_resolve {p : Progress} (h : p.Fits) :
    Summary.render p.resolve.registry p.resolve.store = Summary.render p.registry p.store := by
  have hsame : Summary.messageBlock p.registry p.resolve.store ∘ p.registry.resolveMessage
      = Summary.messageBlock p.registry p.store :=
    funext fun m => Registry.messageBlock_resolveMessage h (messageName?_resolve p)
      (enumName?_resolve p) m
  unfold Summary.render
  rw [resolve_registry, messageList_resolve, enumList_resolve, List.mapM_map, hsame]

end Progress

namespace Workspace

/-- What reading the type of a field in the registry of a name gives. The field is the one at a
position of the message at a reference, if there is one. -/
def readField (w : Workspace) (name : String) (ref i : Nat) :
    Option (Except HandleError TypeView) :=
  (w.store.message? ref >>= fun m => m.fields.items[i]?).map fun f =>
    (w.registry name).view f.type

theorem resolve_workspace (w : Workspace) (name : String) :
    (w.apply name .resolve).workspace = w.finish name (w.start name).resolve := rfl

/-- A field that is read through the workspace looks as before. -/
theorem readField_resolve {w : Workspace} (h : w.Sound) (name : String) (ref i : Nat) :
    (w.apply name .resolve).workspace.readField name ref i = w.readField name ref i := by
  have hfit : (w.registry name).Fits w.store := h.registries name
  have hstore : (w.finish name (w.start name).resolve).store.message? ref
      = (w.start name).resolve.store.message? ref := rfl
  unfold readField
  rw [resolve_workspace, registry_finish, hstore, Progress.message?_resolve,
    Progress.resolve_registry]
  split
  · -- The message is registered, and each of its fields has been resolved.
    cases hm : (w.start name).store.message? ref with
    | none => rw [show w.store.message? ref = none from hm]; rfl
    | some m =>
      rw [show w.store.message? ref = some m from hm]
      show ((m.fields.items.map (w.registry name).resolveField)[i]?).map _
        = m.fields.items[i]?.map _
      rw [Array.getElem?_map, Option.map_map]
      exact congrArg (fun g => Option.map g m.fields.items[i]?)
        (funext fun f => Registry.view_resolveField hfit f)
  · rfl

/--
**The resolution pass goes unseen.**

In whatever state a session has come to, and for whatever its registries and fields hold: after the
pass over a registry, every field reads in it as before, to the very descriptor or the very error,
whether it is a field of a message, registered there or not, or of none; and the dangling references
and the summary are what they were. So for any inputs, loading them with and without resolution ends
the same way, with the same summary and the same dangling references.
-/
theorem resolve_unseen :
    (∀ (session : List (String × Change)) (name : String),
      let w := after session
      let w' := (w.apply name .resolve).workspace
      (∀ ref i, w'.readField name ref i = w.readField name ref i)
        ∧ (∀ t, (w'.registry name).view t = (w.registry name).view t)
        ∧ (w'.registry name).dangling w'.store = (w.registry name).dangling w.store
        ∧ Summary.render (w'.registry name) w'.store
            = Summary.render (w.registry name) w.store)
      ∧ ∀ (host : Host) (inputs includeDirs : List String),
        let resolved := (Load.loadRegistry host inputs includeDirs true).outcome .empty
        let plain := (Load.loadRegistry host inputs includeDirs false).outcome .empty
        resolved.1 = plain.1
          ∧ resolved.2.registry.dangling resolved.2.store
            = plain.2.registry.dangling plain.2.store
          ∧ Summary.render resolved.2.registry resolved.2.store
            = Summary.render plain.2.registry plain.2.store := by
  refine ⟨fun session name => ?_, fun host inputs includeDirs => ?_⟩
  · have hw := sound_after session
    have hfit : ((after session).start name).Fits := hw.registries name
    refine ⟨readField_resolve hw name, ?_, ?_, ?_⟩
    · intro t
      rw [resolve_workspace, registry_finish, Progress.resolve_registry]
      rfl
    · rw [resolve_workspace, registry_finish]
      exact Progress.dangling_resolve hfit
    · rw [resolve_workspace, registry_finish]
      exact Progress.render_resolve hfit
  · -- The loads differ in the pass only, and it is not made if an input fails.
    have hleads := Load.leads_loadInputs host inputs includeDirs .empty
    have hfit := hleads.fits (Registry.fits_empty _)
    rw [Load.loadRegistry_eq, Load.loadRegistry_eq]
    simp only [Action.outcome_bind]
    cases hout : (Load.loadInputs host inputs includeDirs).outcome .empty with
    | mk result p =>
      rw [hout] at hfit
      cases result with
      | error e => exact ⟨rfl, rfl, rfl⟩
      | ok u => exact ⟨rfl, Progress.dangling_resolve hfit, Progress.render_resolve hfit⟩

end Workspace

end SchemaRegistry
