import SchemaRegistry.Proofs.Fits

/-!
# What a walk adds

`Progress.Appends` says which messages and enums a stretch of a walk has put behind those that were
registered before, and that it has left these alone. It holds of every walk (`performAll`), wherever
it stops; and the messages that come to be registered are those declared (`declared_reached`),
because the fields of a message are visited before the message itself.
-/

namespace SchemaRegistry

/-- `q` is `p` with these messages and enums registered after those that were there. -/
structure Progress.Appends (p q : Progress) (ms : List Message) (es : List Enumeration) : Prop where
  messages : p.Fits → q.registry.messageList q.store = p.registry.messageList p.store ++ ms
  enums : p.Fits → q.registry.enumList q.store = p.registry.enumList p.store ++ es
  kept : p.store.Keeps q.store

namespace Visit

/-- The message that the visit registers. -/
def messages (v : Visit) : List Message := (v.message?.map fun pd => pd.2.descriptor pd.1).toList

/-- The enum that the visit registers. -/
def enums (v : Visit) : List Enumeration :=
  (v.enum?.map fun pd => Enumeration.ofDecl pd.1 pd.2).toList

end Visit

namespace Progress.Appends

variable {p q q' : Progress} {ms ms' : List Message} {es es' : List Enumeration}

theorem refl (p : Progress) : Appends p p [] [] :=
  ⟨fun _ => by simp, fun _ => by simp, .refl _⟩

/-- What two stretches add comes one behind the other. -/
theorem trans (h : Appends p q ms es) (hl : p.Leads q) (h' : Appends q q' ms' es') :
    Appends p q' (ms ++ ms') (es ++ es') where
  messages := fun hp => by rw [h'.messages (hl.fits hp), h.messages hp, List.append_assoc]
  enums := fun hp => by rw [h'.enums (hl.fits hp), h.enums hp, List.append_assoc]
  kept := h.kept.trans h'.kept

/-- The events and the command lines do not matter. -/
theorem of_same (hs : q.store = p.store) (hr : q.registry = p.registry) : Appends p q [] [] where
  messages := fun _ => by rw [hs, hr, List.append_nil]
  enums := fun _ => by rw [hs, hr, List.append_nil]
  kept := by rw [hs]; exact .refl _

/-- The message comes last, and under its own reference. -/
theorem registerMessage (p : Progress) (m : Message) :
    Appends p (p.registerMessage m) [m] [] where
  messages := fun hp => hp.messages.filterMap_add m.name m
  enums := fun _ => (List.append_nil _).symm
  kept := Store.keeps_addMessage p.store m

theorem registerEnum (p : Progress) (e : Enumeration) : Appends p (p.registerEnum e) [] [e] where
  messages := fun _ => (List.append_nil _).symm
  enums := fun hp => hp.enums.filterMap_add e.name e
  kept := Store.keeps_addEnum p.store e

theorem perform (p : Progress) (v : Visit) : Appends p (v.perform p) v.messages v.enums := by
  cases v with
  | field d => exact .of_same (noteAll_store _ _) (noteAll_registry _ _)
  | enum path d => exact .registerEnum p _
  | message path d => exact .registerMessage p _
  | file d => exact .of_same rfl rfl

/-- **A walk adds what it visits**, and nothing else. -/
theorem performAll (vs : List Visit) (p : Progress) :
    Appends p (vs.foldl Visit.perform p) (vs.flatMap Visit.messages) (vs.flatMap Visit.enums) := by
  induction vs generalizing p with
  | nil => exact .refl p
  | cons v vs ih => exact (perform p v).trans (leads_perform p v) (ih _)

end Progress.Appends

theorem Visit.flatMap_messages (vs : List Visit) :
    vs.flatMap messages = (vs.filterMap message?).map fun pd => pd.2.descriptor pd.1 := by
  induction vs with
  | nil => rfl
  | cons v vs ih => cases v <;> simp [messages, message?, List.filterMap_cons, ih]

theorem Visit.flatMap_enums (vs : List Visit) :
    vs.flatMap enums = (vs.filterMap enum?).map fun pd => Enumeration.ofDecl pd.1 pd.2 := by
  induction vs with
  | nil => rfl
  | cons v vs ih => cases v <;> simp [enums, enum?, List.filterMap_cons, ih]

/-- The messages registered on a walk are complete, also if the walk does not come to its end. -/
theorem Walk.declared_reached {vs : List Visit} (h : FieldsFirst vs) :
    List.Forall₂ (fun pd m => Message.Declared pd.1 pd.2 m)
      ((reached vs).filterMap Visit.message?) ((reached vs).flatMap Visit.messages) := by
  rw [Visit.flatMap_messages, List.forall₂_map_right_iff, List.forall₂_same]
  intro pd hpd
  obtain ⟨v, hv, hvm⟩ := List.mem_filterMap.mp hpd
  cases v with
  | message path d =>
    cases hvm
    exact declared_of_mem_reached h hv
  | field d => cases hvm
  | enum path d => cases hvm
  | file d => cases hvm

end SchemaRegistry
