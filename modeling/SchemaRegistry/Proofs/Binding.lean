import Mathlib.Data.List.Forall2
import SchemaRegistry.Proofs.Resolution

/-!
# What may become of a field

Once a field has been added to a message, the resolution pass is all that ever changes it, and the
pass touches nothing but its type: the name of a reference may be bound to a position. `Becomes`
says this of types, of fields and of messages. It is a preorder, so it spans whole histories; and
nothing becomes of a type that is no name (`Becomes.eq_of_resolved`), so whatever is bound stays
bound.
-/

namespace SchemaRegistry

/-- What the type of a field may become: a name may be bound to a position of its own class. -/
inductive StoredType.Becomes (t : StoredType) : StoredType → Prop where
  | same : Becomes t t
  | message (i : Nat) (h : t.kind = .unresolvedMessage) : Becomes t (.message i)
  | enum (i : Nat) (h : t.kind = .unresolvedEnum) : Becomes t (.enum i)

namespace StoredType.Becomes

variable {t t' t'' : StoredType}

/-- **What is bound stays bound**, and so do the types that are no references at all. -/
theorem eq_of_resolved (h : Becomes t t') (ht : t.kind.isUnresolved = false) : t' = t := by
  cases h with
  | same => rfl
  | message i hk => rw [hk] at ht; cases ht
  | enum i hk => rw [hk] at ht; cases ht

/-- What is bound stays bound, so the steps after the first one change nothing more. -/
theorem trans (h : Becomes t t') (h' : Becomes t' t'') : Becomes t t'' := by
  cases h with
  | same => exact h'
  | message i hk => rw [h'.eq_of_resolved rfl]; exact .message i hk
  | enum i hk => rw [h'.eq_of_resolved rfl]; exact .enum i hk

/-- A pass binds a reference or leaves it. -/
theorem of_resolved? {r : Registry} (h : r.resolved? t = some t') : Becomes t t' := by
  rcases Registry.resolved?_eq_some h with ⟨_, i, hk, _, _, rfl⟩ | ⟨_, i, hk, _, _, rfl⟩
  · exact .message i hk
  · exact .enum i hk

end StoredType.Becomes

/-- `g` is `f`, but for a reference that may have been bound. -/
structure Field.Becomes (f g : Field) : Prop where
  type : f.type.Becomes g.type
  rest : g = { f with type := g.type }

namespace Field.Becomes

variable {f g g' : Field}

theorem refl (f : Field) : Becomes f f := ⟨.same, rfl⟩

theorem trans (h : Becomes f g) (h' : Becomes g g') : Becomes f g' := by
  refine ⟨h.type.trans h'.type, ?_⟩
  rw [h'.rest, h.rest]

theorem resolveField (r : Registry) (f : Field) : Becomes f (r.resolveField f) := by
  refine ⟨?_, rfl⟩
  unfold Registry.resolveField
  cases h : r.resolved? f.type with
  | none => exact .same
  | some t => exact .of_resolved? h

/-- Defaults are never touched. -/
theorem default_eq (h : Becomes f g) : g.default = f.default := by rw [h.rest]

end Field.Becomes

/-- Lists related element by element are so through a third one between them. -/
theorem forall₂_comp {α β γ : Type} {R : α → β → Prop} {S : β → γ → Prop} {T : α → γ → Prop}
    (hT : ∀ a b c, R a b → S b c → T a c) {as : List α} {bs : List β} {cs : List γ}
    (h : List.Forall₂ R as bs) (h' : List.Forall₂ S bs cs) : List.Forall₂ T as cs := by
  induction h generalizing cs with
  | nil => cases h'; exact .nil
  | cons hab _ ih =>
    cases h' with
    | cons hbc hrest => exact .cons (hT _ _ _ hab hbc) (ih hrest)

/-- The same message, in which references may have been bound. -/
structure Message.Becomes (m m' : Message) : Prop where
  name : m'.name = m.name
  fields : List.Forall₂ Field.Becomes m.fields.toList m'.fields.toList

namespace Message.Becomes

variable {m m' m'' : Message}

theorem refl (m : Message) : Becomes m m :=
  ⟨rfl, List.forall₂_same.mpr fun f _ => .refl f⟩

theorem trans (h : Becomes m m') (h' : Becomes m' m'') : Becomes m m'' :=
  ⟨h'.name.trans h.name, forall₂_comp (fun _ _ _ hf hf' => hf.trans hf') h.fields h'.fields⟩

theorem resolveMessage (r : Registry) (m : Message) : Becomes m (r.resolveMessage m) := by
  refine ⟨rfl, ?_⟩
  show List.Forall₂ _ _ (m.fields.map r.resolveField).toList
  rw [Members.toList_map, List.forall₂_map_right_iff, List.forall₂_same]
  exact fun f _ => .resolveField r f

end Message.Becomes

end SchemaRegistry
