import SchemaRegistry.Proofs.Fits
import SchemaRegistry.Registry.Resolve

/-!
# What the resolution pass does to a store

The pass goes from reference to reference and changes the messages in place, and it may come to one
message several times. `message?_resolve` gives its effect at a glance: the messages registered are
resolved once each, and nothing else happens.

That a second visit does no more is a special case of `resolveMessage_absorb`: what an earlier
registry has resolved, a later one that still has its positions does not resolve differently. So an
early pass is swallowed by a late one, which is what makes the time of the passes a matter of
indifference.
-/

namespace SchemaRegistry

namespace Registry

/-- Every name that `r` knows has the same position in `r'`. -/
structure Within (r r' : Registry) : Prop where
  messages : ∀ n i, r.messages.position? n = some i → r'.messages.position? n = some i
  enums : ∀ n i, r.enums.position? n = some i → r'.enums.position? n = some i

theorem Within.refl (r : Registry) : Within r r := ⟨fun _ _ h => h, fun _ _ h => h⟩

/-- What a type becomes: a handle of its own class, under the name that it gave. -/
theorem resolved?_eq_some {r : Registry} {t t' : StoredType} (h : r.resolved? t = some t') :
    (∃ n i, t.kind = .unresolvedMessage ∧ t.typeName = some n ∧ r.messages.position? n = some i
        ∧ t' = .message i)
      ∨ (∃ n i, t.kind = .unresolvedEnum ∧ t.typeName = some n ∧ r.enums.position? n = some i
        ∧ t' = .enum i) := by
  unfold resolved? at h
  -- Only references by name become handles.
  cases hk : t.kind with
  | unresolvedMessage =>
    rw [hk] at h
    obtain ⟨i, hi, rfl⟩ := Option.map_eq_some_iff.mp h
    obtain ⟨n, hn, hpos⟩ := Option.bind_eq_some_iff.mp hi
    exact Or.inl ⟨n, i, rfl, hn, hpos, rfl⟩
  | unresolvedEnum =>
    rw [hk] at h
    obtain ⟨i, hi, rfl⟩ := Option.map_eq_some_iff.mp h
    obtain ⟨n, hn, hpos⟩ := Option.bind_eq_some_iff.mp hi
    exact Or.inr ⟨n, i, rfl, hn, hpos, rfl⟩
  | message => rw [hk] at h; simp at h
  | enum => rw [hk] at h; simp at h
  | scalar s => rw [hk] at h; simp at h

/-- A registry that knows more resolves the same references to the same handles. -/
theorem resolved?_of_within {r r' : Registry} (hw : Within r r') {t t' : StoredType}
    (h : r.resolved? t = some t') : r'.resolved? t = some t' := by
  rcases resolved?_eq_some h with ⟨n, i, hk, hn, hpos, rfl⟩ | ⟨n, i, hk, hn, hpos, rfl⟩
  · simp [resolved?, hk, hn, hw.messages n i hpos]
  · simp [resolved?, hk, hn, hw.enums n i hpos]

/-- A handle is left alone. -/
theorem resolved?_resolved {r r' : Registry} {t t' : StoredType} (h : r.resolved? t = some t') :
    r'.resolved? t' = none := by
  rcases resolved?_eq_some h with ⟨_, _, _, _, _, rfl⟩ | ⟨_, _, _, _, _, rfl⟩ <;> rfl

/-- Resolving first with a registry that knows less makes no difference. -/
theorem resolveField_absorb {r r' : Registry} (hw : Within r r') (f : Field) :
    r'.resolveField (r.resolveField f) = r'.resolveField f := by
  unfold resolveField
  cases h : r.resolved? f.type with
  | none => rfl
  | some t =>
    have h' := resolved?_of_within hw h
    simp [h', resolved?_resolved h]

/-- **A later pass swallows an earlier one.** -/
theorem resolveMessage_absorb {r r' : Registry} (hw : Within r r') (m : Message) :
    r'.resolveMessage (r.resolveMessage m) = r'.resolveMessage m := by
  have hcomp : r'.resolveField ∘ r.resolveField = r'.resolveField :=
    funext fun f => resolveField_absorb hw f
  simp [resolveMessage, Members.map, hcomp]

theorem resolveMessage_comp_self (r : Registry) :
    r.resolveMessage ∘ r.resolveMessage = r.resolveMessage :=
  funext fun m => resolveMessage_absorb (.refl r) m

/-- Resolution changes no names. -/
@[simp] theorem resolveMessage_name (r : Registry) (m : Message) :
    (r.resolveMessage m).name = m.name := rfl

/-! ## One message -/

@[simp] theorem resolveAt_registry (r : Registry) (p : Progress) (ref : Nat) :
    (r.resolveAt p ref).registry = p.registry := by
  unfold resolveAt
  split
  · rfl
  · rw [Progress.noteAll_registry]

@[simp] theorem resolveAt_enums (r : Registry) (p : Progress) (ref : Nat) :
    (r.resolveAt p ref).store.enums = p.store.enums := by
  unfold resolveAt
  split
  · rfl
  · rw [Progress.noteAll_store]; rfl

/-- One step of a pass changes one message. -/
theorem message?_resolveAt (r : Registry) (p : Progress) (ref other : Nat) :
    (r.resolveAt p ref).store.message? other =
      if ref = other then (p.store.message? other).map r.resolveMessage
      else p.store.message? other := by
  unfold resolveAt
  split
  · -- A reference that leads nowhere: nothing is done, and nothing is there to be resolved.
    rename_i hnone
    split
    · rename_i heq; rw [← heq, hnone]; rfl
    · rfl
  · rw [Progress.noteAll_store]
    exact Store.message?_updateMessage _ _ _ _

/-- A field that is resolved is warned about as it was: those that are warned about stay. -/
theorem warning?_resolveField (r : Registry) (f : Field) :
    r.warning? (r.resolveField f).type = r.warning? f.type := by
  unfold resolveField
  cases h : r.resolved? f.type with
  | none => rfl
  | some t =>
    -- What can be bound has no warning, and what has been bound has none.
    rcases resolved?_eq_some h with ⟨_, _, hk, _, _, rfl⟩ | ⟨_, _, hk, _, _, rfl⟩
    · simp [warning?, h, hk, StoredType.message]
    · simp [warning?, h, hk, StoredType.enum]

/-- A message that has been resolved has the warnings that it had. -/
theorem warnings_resolveMessage (r : Registry) (m : Message) :
    r.warnings (r.resolveMessage m) = r.warnings m := by
  unfold warnings
  show (m.fields.map r.resolveField).toList.filterMap _ = _
  rw [Members.toList_map, List.filterMap_map]
  exact List.filterMap_congr fun f _ => r.warning?_resolveField f

/-- The warnings for the message at a reference. -/
def warningsAt (r : Registry) (s : Store) (ref : Nat) : List Event :=
  ((s.message? ref).map r.warnings).getD []

theorem warningsAt_resolveAt (r : Registry) (p : Progress) (ref : Nat) :
    r.warningsAt (r.resolveAt p ref).store = r.warningsAt p.store := by
  funext other
  unfold warningsAt
  rw [message?_resolveAt]
  split
  · have hsame : r.warnings ∘ r.resolveMessage = r.warnings := funext r.warnings_resolveMessage
    rw [Option.map_map, hsame]
  · rfl

/-- The warnings at some indices are those of the messages found there. -/
theorem flatMap_warningsAt (r : Registry) (s : Store) (refs : List Nat) :
    refs.flatMap (r.warningsAt s) = (refs.filterMap s.message?).flatMap r.warnings := by
  induction refs with
  | nil => rfl
  | cons ref refs ih =>
    rw [List.flatMap_cons, ih, warningsAt]
    cases hm : s.message? ref with
    | none => rw [List.filterMap_cons_none hm]; rfl
    | some m => rw [List.filterMap_cons_some hm]; rfl

end Registry

/-! ## The whole pass -/

namespace Progress

/-- A pass changes the messages it visits and nothing else. -/
theorem foldl_resolveAt (r : Registry) (refs : List Nat) (p : Progress) :
    (refs.foldl r.resolveAt p).registry = p.registry
      ∧ (refs.foldl r.resolveAt p).store.enums = p.store.enums
      ∧ ∀ other, (refs.foldl r.resolveAt p).store.message? other =
          if other ∈ refs then (p.store.message? other).map r.resolveMessage
          else p.store.message? other := by
  induction refs generalizing p with
  | nil => simp
  | cons ref refs ih =>
    obtain ⟨h1, h2, h3⟩ := ih (r.resolveAt p ref)
    rw [List.foldl_cons]
    refine ⟨by rw [h1, Registry.resolveAt_registry], by rw [h2, Registry.resolveAt_enums], ?_⟩
    intro other
    rw [h3 other, Registry.message?_resolveAt]
    -- A message that is registered several times is resolved as often, to no effect.
    have htwice := r.resolveMessage_comp_self
    by_cases hr : ref = other
    · subst hr
      by_cases hm : ref ∈ refs <;> simp [hm, htwice]
    · have hr' : other ≠ ref := fun h => hr h.symm
      simp [hr, hr']

@[simp] theorem resolve_registry (p : Progress) : p.resolve.registry = p.registry :=
  (foldl_resolveAt _ _ p).1

@[simp] theorem resolve_enums (p : Progress) : p.resolve.store.enums = p.store.enums :=
  (foldl_resolveAt _ _ p).2.1

/-- **The effect of the pass.** Every registered message is resolved, once; the rest stays. -/
theorem message?_resolve (p : Progress) (ref : Nat) :
    p.resolve.store.message? ref =
      if ref ∈ p.registry.messages.toList then (p.store.message? ref).map p.registry.resolveMessage
      else p.store.message? ref :=
  (foldl_resolveAt _ _ p).2.2 ref

/-- A pass changes no names. -/
theorem messageName?_resolve (p : Progress) (ref : Nat) :
    p.resolve.store.messageName? ref = p.store.messageName? ref := by
  unfold Store.messageName?
  rw [message?_resolve]
  split
  · rw [Option.map_map]; rfl
  · rfl

theorem enumName?_resolve (p : Progress) (ref : Nat) :
    p.resolve.store.enumName? ref = p.store.enumName? ref := by
  unfold Store.enumName? Store.enum?
  rw [resolve_enums]

/-- The registered messages come out resolved, in their order. -/
theorem messageList_resolve (p : Progress) :
    p.registry.messageList p.resolve.store
      = (p.registry.messageList p.store).map p.registry.resolveMessage := by
  unfold Registry.messageList
  rw [List.map_filterMap]
  refine List.filterMap_congr fun ref href => ?_
  rw [message?_resolve, if_pos href]

theorem enumList_resolve (p : Progress) :
    p.registry.enumList p.resolve.store = p.registry.enumList p.store := by
  unfold Registry.enumList
  refine List.filterMap_congr fun ref _ => ?_
  unfold Store.enum?
  rw [resolve_enums]

/-- After a pass everything in the store is still at its index. -/
theorem extends_resolve (p : Progress) : p.store.Extends p.resolve.store :=
  ⟨fun ref n h => by rw [messageName?_resolve]; exact h,
    fun ref n h => by rw [enumName?_resolve]; exact h⟩

theorem leads_resolve (p : Progress) : p.Leads p.resolve where
  store := extends_resolve p
  messages := resolve_registry p ▸ List.prefix_refl _
  enums := resolve_registry p ▸ List.prefix_refl _
  fits := by
    intro h
    unfold Fits
    rw [resolve_registry]
    exact h.mono (extends_resolve p)

/-! ### What it tells -/

theorem noteAll_events (p : Progress) (es : List Event) :
    (p.noteAll es).events.toList = p.events.toList ++ es := by
  unfold noteAll
  induction es generalizing p with
  | nil => exact (List.append_nil _).symm
  | cons e es ih => simp [ih, note]

/-- One step of a pass notes the warnings of one message. -/
theorem events_resolveAt (r : Registry) (p : Progress) (ref : Nat) :
    (r.resolveAt p ref).events.toList = p.events.toList ++ r.warningsAt p.store ref := by
  unfold Registry.resolveAt Registry.warningsAt
  split
  · rename_i hnone; rw [hnone]; exact (List.append_nil _).symm
  · rename_i m hm; rw [hm, noteAll_events]; rfl

theorem events_foldl_resolveAt (r : Registry) (refs : List Nat) (p : Progress) :
    (refs.foldl r.resolveAt p).events.toList
      = p.events.toList ++ refs.flatMap (r.warningsAt p.store) := by
  induction refs generalizing p with
  | nil => exact (List.append_nil _).symm
  | cons ref refs ih =>
    rw [List.foldl_cons, ih, events_resolveAt, Registry.warningsAt_resolveAt, List.flatMap_cons,
      List.append_assoc]

/-- The pass warns of the references that it leaves, message by message. -/
theorem events_resolve (p : Progress) :
    p.resolve.events.toList
      = p.events.toList ++ (p.registry.messageList p.store).flatMap p.registry.warnings := by
  have h := events_foldl_resolveAt p.registry p.registry.messages.toList p
  rwa [Registry.flatMap_warningsAt] at h

end Progress

end SchemaRegistry
