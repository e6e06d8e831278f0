import SchemaRegistry.Proofs.Session

/-!
# What a pass changes, and what it leaves

The pass comes to the messages of a registry in their order and to some of them several times, and
what it writes is seen by all other registries that share them. The result depends neither on the
order nor on the repetitions. It is given here place by place, by what was there before and by the
index of the registry alone: a message that is registered somewhere in the registry is *bound* by
it, once, and all the rest of a workspace is left as it was (`resolve_effect`).
-/

namespace SchemaRegistry

/-! ## What is bound by a registry -/

/-- What becomes of a type in a pass over `r`: a name that its index knows gives way to the position
under this name, and everything else stays. -/
inductive StoredType.BoundBy (r : Registry) (t : StoredType) : StoredType → Prop where
  | message {n : String} {i : Nat} (hk : t.kind = .unresolvedMessage) (hn : t.typeName = some n)
      (hi : r.messages.position? n = some i) : BoundBy r t (.message i)
  | enum {n : String} {i : Nat} (hk : t.kind = .unresolvedEnum) (hn : t.typeName = some n)
      (hi : r.enums.position? n = some i) : BoundBy r t (.enum i)
  | same
      (hm : ∀ n, t.kind = .unresolvedMessage → t.typeName = some n → r.messages.position? n = none)
      (he : ∀ n, t.kind = .unresolvedEnum → t.typeName = some n → r.enums.position? n = none) :
      BoundBy r t t

/-- The field after a pass over `r`. Only its type may be another. -/
structure Field.BoundBy (r : Registry) (f g : Field) : Prop where
  type : f.type.BoundBy r g.type
  rest : g = { f with type := g.type }

/-- The message after a pass over `r`: the same fields, each of them bound, also those that no index
leads to, and the same indices. -/
structure Message.BoundBy (r : Registry) (m m' : Message) : Prop where
  name : m'.name = m.name
  fields : List.Forall₂ (Field.BoundBy r) m.fields.toList m'.fields.toList
  byName : m'.fields.byName = m.fields.byName
  byNumber : m'.fields.byNumber = m.fields.byNumber

namespace Registry

/-- A stored type is bound by the index of its own kind, or it stays as it is. -/
theorem boundBy_resolved? (r : Registry) (t : StoredType) :
    t.BoundBy r ((r.resolved? t).getD t) := by
  cases h : r.resolved? t with
  | some t' =>
    rcases resolved?_eq_some h with ⟨n, i, hk, hn, hpos, rfl⟩ | ⟨n, i, hk, hn, hpos, rfl⟩
    · exact .message hk hn hpos
    · exact .enum hk hn hpos
  | none =>
    -- No name is left that the index knows.
    refine .same (fun n hk hn => ?_) fun n hk hn => ?_
    · simpa [resolved?, hk, hn] using h
    · simpa [resolved?, hk, hn] using h

theorem boundBy_resolveField (r : Registry) (f : Field) : f.BoundBy r (r.resolveField f) :=
  ⟨r.boundBy_resolved? f.type, rfl⟩

theorem boundBy_resolveMessage (r : Registry) (m : Message) : m.BoundBy r (r.resolveMessage m) where
  name := rfl
  fields := by
    show List.Forall₂ _ _ (m.fields.map r.resolveField).toList
    rw [Members.toList_map, List.forall₂_map_right_iff, List.forall₂_same]
    exact fun f _ => r.boundBy_resolveField f
  byName := rfl
  byNumber := rfl

end Registry

/-! ## Workspaces -/

namespace Workspace

/--
**A pass binds the messages of its registry and touches nothing else.**

Take any workspace, with any number of registries over its descriptors. After a pass over one of
them, each message registered in it, whether once or several times and whether or not its name leads
to it, is as it was, except that its references by a name that the index of the registry knows are
handles: each has the position that the index holds, as a message or as an enum. Every message that
is not registered in it is as it was, and so are all enums, all registries with their lists and
indices, and what the ids stand for.
-/
theorem resolve_effect (w : Workspace) (name : String) :
    let r := w.registry name
    let w' := (w.apply name .resolve).workspace
    (∀ ref ∈ r.messages.toList,
        Option.Rel (Message.BoundBy r) (w.store.message? ref) (w'.store.message? ref))
      ∧ (∀ ref, ref ∉ r.messages.toList → w'.store.message? ref = w.store.message? ref)
      ∧ w'.store.enums = w.store.enums
      ∧ (∀ other, w'.registry other = w.registry other)
      ∧ w'.loose = w.loose := by
  intro r w'
  have hmessage (ref : Nat) : w'.store.message? ref =
      if ref ∈ r.messages.toList then (w.store.message? ref).map r.resolveMessage
      else w.store.message? ref :=
    Progress.message?_resolve (w.start name) ref
  refine ⟨fun ref href => ?_, fun ref href => ?_, Progress.resolve_enums _, fun other => ?_, rfl⟩
  · rw [hmessage, if_pos href]
    cases w.store.message? ref with
    | none => exact .none
    | some m => exact .some (r.boundBy_resolveMessage m)
  · rw [hmessage, if_neg href]
  · -- The registry is put back as it is, and no other one is written.
    have hsame : (w.start name).resolve.registry = w.registry name := Progress.resolve_registry _
    show (w.finish name (w.start name).resolve).registry other = _
    unfold finish
    rw [registry_setRegistry, hsame]
    split
    · rename_i heq; rw [heq]
    · rfl

end Workspace

end SchemaRegistry
