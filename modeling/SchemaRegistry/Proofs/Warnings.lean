import SchemaRegistry.Proofs.Unseen
import SchemaRegistry.Proofs.Dangling

/-!
# What a pass warns of

A pass warns of the references that it cannot bind, and the list of dangling references is made by
reading every field. These are two walks over the fields, and the first one changes what the second
one reads. They agree because of what a pass leaves behind: its messages are *settled*, nothing more
in them can be bound. In a settled message the types that are still unresolved are those that the
pass warns of, and also those that read as dangling; and another pass does nothing but warn of them
again (`resolve_warns`).
-/

namespace SchemaRegistry

namespace StoredType

/-- The warning that the type is left unresolved. -/
def warning (t : StoredType) : Event :=
  if t.kind = .unresolvedMessage then .unknownMessageType t.typeName
  else .unknownEnumType t.typeName

/-- A reference that an import has made and that is still unresolved is warned of by its name. -/
theorem Stands.exists_warning {p : Progress} {d : FieldDecl} {t : StoredType} (h : t.Stands p d)
    (hk : t.kind.isUnresolved = true) : ∃ n, t.typeName = some n ∧ t.warning.message
      = (if t.kind = .unresolvedMessage then "Inconsistent schema; unknown message type "
        else "Inconsistent schema; unknown enum type ") ++ n := by
  cases h with
  | messageName hd => exact ⟨d.getTypeName, rfl, rfl⟩
  | enumName hd => exact ⟨d.getTypeName, rfl, rfl⟩
  | scalar hk' => cases hk
  | messageAt hd hi hn => cases hk
  | enumAt hd hi hn => cases hk

end StoredType

namespace Message

/-- The fields that store a reference by its name. -/
def unresolved (m : Message) : List Field :=
  m.fields.toList.filter fun f => f.type.kind.isUnresolved

/-- The reference of a field of the message, as a dangling one. -/
def asDangling (m : Message) (f : Field) : Registry.Dangling := ⟨m.name, f.name, f.type.typeName⟩

end Message

namespace Registry

variable {s : Store} {r : Registry} {t : StoredType} {m : Message}

/-! ## Settled messages -/

/-- Nothing in the message can be bound by `r`. -/
def Settled (r : Registry) (m : Message) : Prop :=
  ∀ f ∈ m.fields.toList, r.resolved? f.type = none

/-- A message that was resolved is settled. -/
theorem settled_resolveMessage (r : Registry) (m : Message) : r.Settled (r.resolveMessage m) := by
  intro f hf
  have hfields : (r.resolveMessage m).fields.toList = m.fields.toList.map r.resolveField :=
    Members.toList_map _ _
  rw [hfields] at hf
  obtain ⟨f₀, _, rfl⟩ := List.mem_map.mp hf
  unfold resolveField
  cases h : r.resolved? f₀.type with
  | none => exact h
  | some t => exact resolved?_resolved h

theorem warning?_of_settled (ht : r.resolved? t = none) :
    r.warning? t = if t.kind.isUnresolved then some t.warning else none := by
  unfold warning? StoredType.warning
  rw [ht]
  cases t.kind <;> rfl

/-- Each unresolved field of a settled message is warned about. -/
theorem Settled.warnings (h : r.Settled m) :
    r.warnings m = m.unresolved.map fun f => f.type.warning := by
  unfold Registry.warnings Message.unresolved
  rw [List.filterMap_congr fun f hf => warning?_of_settled (h f hf)]
  induction m.fields.toList with
  | nil => rfl
  | cons f fs ih =>
    cases hk : f.type.kind.isUnresolved <;> simp [hk, ih]

/-- A type that cannot be bound reads as a dangling reference if and only if it is unresolved. -/
theorem view_of_settled (h : r.Fits s) (ht : r.resolved? t = none) {v : TypeView}
    (hv : r.view t = .ok v) : v.isResolved = !t.kind.isUnresolved
      ∧ (t.kind.isUnresolved = true → v.typeName = t.typeName) := by
  cases hk : t.kind with
  | unresolvedMessage =>
    -- The index does not know the name, so there is nothing to be found under it.
    have hfind := h.messages.bind_find?_eq_none (by simpa [resolved?, hk] using ht)
    simp only [view, hk, hfind] at hv
    cases hv
    exact ⟨rfl, fun _ => rfl⟩
  | unresolvedEnum =>
    have hfind := h.enums.bind_find?_eq_none (by simpa [resolved?, hk] using ht)
    simp only [view, hk, hfind] at hv
    cases hv
    exact ⟨rfl, fun _ => rfl⟩
  | message =>
    simp only [view, hk] at hv
    cases hf : r.messages.follow t.handle with
    | error e => rw [hf] at hv; cases hv
    | ok ref => rw [hf] at hv; cases hv; exact ⟨rfl, fun h => by cases h⟩
  | enum =>
    simp only [view, hk] at hv
    cases hf : r.enums.follow t.handle with
    | error e => rw [hf] at hv; cases hv
    | ok ref => rw [hf] at hv; cases hv; exact ⟨rfl, fun h => by cases h⟩
  | scalar k =>
    simp only [view, hk] at hv
    cases hv
    exact ⟨rfl, fun h => by cases h⟩

/-- Each unresolved field of a settled message is dangling, and no other one. -/
theorem Settled.danglingOf (h : r.Settled m) (hr : r.Fits s)
    (hviews : ∀ f ∈ m.fields.toList, ∃ v, r.view f.type = .ok v) :
    r.danglingOf m = .ok (m.unresolved.map m.asDangling) := by
  obtain ⟨fvs, hread, hfvs⟩ := exists_mapM (f := fun f => do return (f, ← r.view f.type))
    (S := fun f g => g = f ∧ f ∈ m.fields.toList)
    (R := fun f fv => fv.1 = f ∧ fv.2.isResolved = !f.type.kind.isUnresolved
      ∧ (f.type.kind.isUnresolved = true → fv.2.typeName = f.type.typeName))
    (fun f g hfg => by
      obtain ⟨rfl, hg⟩ := hfg
      obtain ⟨v, hv⟩ := hviews g hg
      exact ⟨(g, v), by rw [hv]; rfl, rfl, view_of_settled hr (h g hg) hv⟩)
    (List.forall₂_same.mpr fun f hf => ⟨rfl, hf⟩)
  unfold Registry.danglingOf fieldViews
  rw [hread]
  refine congrArg Except.ok ?_
  -- Read and unread, field by field: it is on both lists, or on neither.
  unfold Message.unresolved
  clear hread
  generalize m.fields.toList = fs at hfvs
  induction hfvs with
  | nil => rfl
  | @cons f fv _ _ hfv _ ih =>
    obtain ⟨hfield, hresolved, hname⟩ := hfv
    cases hk : f.type.kind.isUnresolved with
    | true =>
      rw [List.filter_cons_of_pos (p := fun f : Field => f.type.kind.isUnresolved) hk,
        List.map_cons, ← ih]
      simp [hresolved, hk, hfield, hname hk, Message.asDangling]
    | false =>
      rw [List.filter_cons_of_neg (by simp [hk]), ← ih]
      simp [hresolved, hk]

/-- The fields of the registered messages that store a reference by its name, in order. -/
def unresolvedFields (r : Registry) (s : Store) : List (Message × Field) :=
  (r.messageList s).flatMap fun m => m.unresolved.map fun f => (m, f)

/-- The unresolved fields are those of the registered messages. -/
theorem mem_unresolvedFields {f : Field} : (m, f) ∈ r.unresolvedFields s ↔
    m ∈ r.messageList s ∧ f ∈ m.fields.toList ∧ f.type.kind.isUnresolved = true := by
  simp [unresolvedFields, Message.unresolved]

theorem unresolvedFields_eq_nil_iff : r.unresolvedFields s = [] ↔
    ∀ m ∈ r.messageList s, ∀ f ∈ m.fields.toList, f.type.kind.isUnresolved = false := by
  simp [unresolvedFields, Message.unresolved]

/-- In a settled registry the references that are left unresolved are the dangling ones. -/
theorem dangling_of_settled (hr : r.Fits s) (hsettled : ∀ m ∈ r.messageList s, r.Settled m)
    (hviews : ∀ m ∈ r.messageList s, ∀ f ∈ m.fields.toList, ∃ v, r.view f.type = .ok v) :
    r.dangling s = .ok ((r.unresolvedFields s).map fun mf => mf.1.asDangling mf.2) := by
  have hread := mapM_of_ok fun m hm => (hsettled m hm).danglingOf hr (hviews m hm)
  unfold dangling unresolvedFields
  rw [hread, List.map_flatMap, List.flatMap_def]
  refine congrArg (fun ds => Except.ok (List.flatten ds)) (List.map_congr_left fun m _ => ?_)
  rw [List.map_map]
  rfl

end Registry

namespace Progress

/-! ## Settled registries -/

variable {p : Progress}

/-- A second pass changes nothing. -/
theorem resolve_resolve_store (p : Progress) : p.resolve.resolve.store = p.resolve.store := by
  have hmessages : p.resolve.resolve.store.messages = p.resolve.store.messages := by
    refine Array.ext_getElem? fun ref => ?_
    show p.resolve.resolve.store.message? ref = p.resolve.store.message? ref
    rw [message?_resolve, message?_resolve, resolve_registry]
    split
    · rw [Option.map_map, Registry.resolveMessage_comp_self]
    · rfl
  show Store.mk _ _ = Store.mk _ _
  rw [hmessages, resolve_enums p.resolve]

/-- After a pass every registered message is settled. -/
theorem settled_of_mem (p : Progress) {m : Message}
    (hm : m ∈ p.registry.messageList p.resolve.store) : p.registry.Settled m := by
  rw [messageList_resolve] at hm
  obtain ⟨m₀, _, rfl⟩ := List.mem_map.mp hm
  exact p.registry.settled_resolveMessage m₀

/-- The warnings of a pass are those of the types that it leaves unresolved. -/
theorem events_resolve_left (p : Progress) :
    p.resolve.events.toList = p.events.toList
      ++ (p.registry.unresolvedFields p.resolve.store).map fun mf => mf.2.type.warning := by
  -- The warnings may be those of the messages after the pass, which does not change them.
  have hsame : (p.registry.messageList p.store).flatMap p.registry.warnings
      = (p.registry.messageList p.resolve.store).flatMap p.registry.warnings := by
    rw [messageList_resolve, List.flatMap_map]
    exact List.flatMap_congr fun m _ => (p.registry.warnings_resolveMessage m).symm
  rw [events_resolve, hsame]
  refine congrArg _ ?_
  unfold Registry.unresolvedFields
  rw [List.map_flatMap]
  refine List.flatMap_congr fun m hm => ?_
  rw [(p.settled_of_mem hm).warnings, List.map_map]
  rfl

/--
**A pass warns of what dangles, and it is idempotent.**

Take any registry that imports, failed ones among them, and passes have led to, and look at the
fields that still store a reference by its name after one more pass, message by message in order of
registration. These are the dangling references, and they are so before the pass as well as after
it. The pass gives one warning for each of them, in this order, which says that the message or the
enum of this name is unknown, according to the kind of the reference. Another pass after it changes
neither the store nor the registry and gives the same warnings again. And there is no warning if and
only if no registered message is left with an unresolved field.
-/
theorem resolve_warns (steps : List Step) :
    let p := after steps
    let q := p.resolve
    let left := q.registry.unresolvedFields q.store
    let warnings := left.map fun mf => mf.2.type.warning
    p.registry.dangling p.store = .ok (left.map fun mf => mf.1.asDangling mf.2)
      ∧ q.registry.dangling q.store = .ok (left.map fun mf => mf.1.asDangling mf.2)
      ∧ (∀ mf ∈ left, ∃ n, mf.2.type.typeName = some n ∧ mf.2.type.warning.message
          = (if mf.2.type.kind = .unresolvedMessage
            then "Inconsistent schema; unknown message type "
            else "Inconsistent schema; unknown enum type ") ++ n)
      ∧ q.events.toList = p.events.toList ++ warnings
      ∧ q.resolve.store = q.store
      ∧ q.resolve.registry = q.registry
      ∧ q.resolve.events.toList = q.events.toList ++ warnings
      ∧ (warnings = [] ↔ ∀ m ∈ q.registry.messageList q.store, ∀ f ∈ m.fields.toList,
          f.type.kind.isUnresolved = false) := by
  intro p q left warnings
  have hp : p.Fits := fits_after steps
  have hq : q.Fits := (leads_resolve p).fits hp
  have htells : q.Tells (Step.declared (steps ++ [.resolve])) := by
    have h := tells_after (steps ++ [.resolve])
    rwa [after_snoc] at h
  have hsettled : ∀ m ∈ q.registry.messageList q.store, q.registry.Settled m := by
    unfold q
    rw [resolve_registry]
    exact fun m hm => p.settled_of_mem hm
  have hdangling : q.registry.dangling q.store = .ok (left.map fun mf => mf.1.asDangling mf.2) :=
    -- Every registered field stands for a declared one, so it has a view.
    Registry.dangling_of_settled hq hsettled fun m hm f hf => by
      obtain ⟨d, hfield⟩ := htells.exists_stands hm hf
      obtain ⟨v, hv, _⟩ := hfield.exists_view hq
      exact ⟨v, hv⟩
  refine ⟨?_, hdangling, ?_, ?_, resolve_resolve_store p, resolve_registry q, ?_, ?_⟩
  · rw [← dangling_resolve hp]
    exact hdangling
  · rintro ⟨m, f⟩ hmf
    obtain ⟨hm, hf, hk⟩ := Registry.mem_unresolvedFields.mp hmf
    obtain ⟨d, hfield⟩ := htells.exists_stands hm hf
    exact hfield.type.exists_warning hk
  · have h := events_resolve_left p
    rwa [← resolve_registry p] at h
  · -- What the second pass leaves is what the first one left.
    have h := events_resolve_left q
    rwa [resolve_resolve_store] at h
  · rw [List.map_eq_nil_iff]
    exact Registry.unresolvedFields_eq_nil_iff

end Progress

end SchemaRegistry
