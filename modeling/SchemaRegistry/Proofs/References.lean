import SchemaRegistry.Proofs.History
import SchemaRegistry.Proofs.Reading

/-!
# A reference reads by its name

A field declared with a reference gives the name it refers to, and the resolution pass replaces the
name by a position. The name is gone then, and the position must go on standing for it through later
imports, through new registrations of the same name, and through imports that stop half-way.

`Stands` ties what a field stores to what was declared: it holds the declared name still, or a
position at which that very name is registered. Registries only grow and nothing in the store is
renamed, so what stands keeps standing (`Stands.mono`), and the pass turns one into the other
(`Stands.resolved`). From it follows how every field reads after any history (`after_reads`): by
whether its name is registered, and by nothing else.
-/

namespace SchemaRegistry

/-- What a field declared by `d` may have come to store in a load. -/
inductive StoredType.Stands (p : Progress) (d : FieldDecl) : StoredType → Prop where
  | scalar {k : Scalar} (hk : Scalar.ofNumber? d.getType = some k) : Stands p d (.scalar k)
  | messageName (hd : d.getType = 11) : Stands p d (.unresolvedMessage d.getTypeName)
  | messageAt {i ref : Nat} (hd : d.getType = 11) (hi : p.registry.messages.refs[i]? = some ref)
      (hn : p.store.messageName? ref = some d.getTypeName) : Stands p d (.message i)
  | enumName (hd : d.getType = 14) : Stands p d (.unresolvedEnum d.getTypeName)
  | enumAt {i ref : Nat} (hd : d.getType = 14) (hi : p.registry.enums.refs[i]? = some ref)
      (hn : p.store.enumName? ref = some d.getTypeName) : Stands p d (.enum i)

namespace StoredType

variable {p q : Progress} {d : FieldDecl} {t t' : StoredType}

/-- What a field stores at first. -/
theorem stands_of_ofNumber? (h : ofNumber? d.getType d.getTypeName = some t) : Stands p d t := by
  rcases ofNumber?_eq_some h with ⟨hd, rfl⟩ | ⟨hd, rfl⟩ | ⟨k, hk, rfl⟩
  · exact .messageName hd
  · exact .enumName hd
  · exact .scalar hk

/-- A position keeps its meaning. -/
theorem Stands.mono (h : Stands p d t) (hpq : p.Leads q) : Stands q d t := by
  cases h with
  | scalar hk => exact .scalar hk
  | messageName hd => exact .messageName hd
  | messageAt hd hi hn =>
    exact .messageAt hd (Catalog.getElem?_of_prefix hpq.messages hi) (hpq.store.messages _ _ hn)
  | enumName hd => exact .enumName hd
  | enumAt hd hi hn =>
    exact .enumAt hd (Catalog.getElem?_of_prefix hpq.enums hi) (hpq.store.enums _ _ hn)

/-- The pass puts the position of the name in the place of the name. -/
theorem Stands.resolved (h : Stands p d t) (hp : p.Fits)
    (ht : p.registry.resolved? t = some t') : Stands p d t' := by
  rcases Registry.resolved?_eq_some ht with ⟨n, i, hk, hn, hpos, rfl⟩ | ⟨n, i, hk, hn, hpos, rfl⟩
  · cases h with
    | messageName hd =>
      -- The index goes by the names in the store, so the position is one of the declared name.
      obtain ⟨ref, href, hname⟩ := hp.messages.ref_at hpos
      rw [← Option.some.inj hn] at hname
      exact .messageAt hd href hname
    | scalar hk' => cases hk
    | messageAt hd hi hn' => cases hk
    | enumName hd => cases hk
    | enumAt hd hi hn' => cases hk
  · cases h with
    | enumName hd =>
      obtain ⟨ref, href, hname⟩ := hp.enums.ref_at hpos
      rw [← Option.some.inj hn] at hname
      exact .enumAt hd href hname
    | scalar hk' => cases hk
    | messageAt hd hi hn' => cases hk
    | messageName hd => cases hk
    | enumAt hd hi hn' => cases hk

/-! ### What it reads as -/

/-- A field declared with a message reads as the message of its name, if there is one. -/
theorem Stands.view_message (h : Stands p d t) (hp : p.Fits) (hd : d.getType = 11) :
    (∃ ref ∈ p.registry.messages.toList, p.store.messageName? ref = some d.getTypeName
        ∧ p.registry.view t = .ok (.ofMessage ref))
      ∨ (d.getTypeName ∉ p.messageNames
        ∧ p.registry.view t = .ok (.bare .unresolvedMessage (some d.getTypeName))) := by
  cases h with
  | messageName _ =>
    -- Not resolved yet, or not to be resolved: the name is looked up now.
    refine (hp.messages.found_or_missing d.getTypeName).imp ?_ ?_
    · rintro ⟨ref, href, hname, hfind⟩
      exact ⟨ref, href, hname, by simp [Registry.view, unresolvedMessage, hfind]⟩
    · rintro ⟨hn, hfind⟩
      exact ⟨hn, by simp [Registry.view, unresolvedMessage, hfind]⟩
  | messageAt _ hi hn =>
    exact Or.inl ⟨_, Catalog.mem_of_getElem? hi, hn, Registry.view_message hi⟩
  | scalar hk => rw [hd] at hk; cases hk
  | enumName hd' => omega
  | enumAt hd' _ _ => omega

/-- An enum field views a registered enum of its name, or is unresolved if there is none. -/
theorem Stands.view_enum (h : Stands p d t) (hp : p.Fits) (hd : d.getType = 14) :
    (∃ ref ∈ p.registry.enums.toList, p.store.enumName? ref = some d.getTypeName
        ∧ p.registry.view t = .ok (.ofEnum ref))
      ∨ (d.getTypeName ∉ p.enumNames
        ∧ p.registry.view t = .ok (.bare .unresolvedEnum (some d.getTypeName))) := by
  cases h with
  | enumName _ =>
    refine (hp.enums.found_or_missing d.getTypeName).imp ?_ ?_
    · rintro ⟨ref, href, hname, hfind⟩
      exact ⟨ref, href, hname, by simp [Registry.view, unresolvedEnum, hfind]⟩
    · rintro ⟨hn, hfind⟩
      exact ⟨hn, by simp [Registry.view, unresolvedEnum, hfind]⟩
  | enumAt _ hi hn =>
    exact Or.inl ⟨_, Catalog.mem_of_getElem? hi, hn, Registry.view_enum hi⟩
  | scalar hk => rw [hd] at hk; cases hk
  | messageName hd' => omega
  | messageAt hd' _ _ => omega

/-- A field declared with any other type reads as that type, without a reference. -/
theorem Stands.view_scalar (h : Stands p d t) (hm : d.getType ≠ 11) (he : d.getType ≠ 14) :
    ∃ k, Scalar.ofNumber? d.getType = some k
      ∧ p.registry.view t = .ok (.bare (.scalar k) none) := by
  cases h with
  | scalar hk => exact ⟨_, hk, rfl⟩
  | messageName hd => exact absurd hd hm
  | messageAt hd _ _ => exact absurd hd hm
  | enumName hd => exact absurd hd he
  | enumAt hd _ _ => exact absurd hd he

end StoredType

/-- The field declared by `d`, whatever has become of the reference in it. -/
structure Field.Stands (p : Progress) (d : FieldDecl) (f : Field) : Prop where
  name : f.name = d.getName
  number : f.number = d.getNumber
  type : f.type.Stands p d

/-- The message declared by `d` under `path`, whatever has become of the references in it. -/
def Message.Stands (p : Progress) (path : String) (d : MessageDecl) (m : Message) : Prop :=
  m.name = qualify path d.getName ∧ List.Forall₂ (Field.Stands p) d.fields m.fields.toList

namespace Message

variable {p q : Progress} {path : String} {d : MessageDecl} {m : Message}

theorem Declared.stands (h : Declared path d m) (p : Progress) : Stands p path d m := by
  obtain ⟨hname, fs, hfs, hdecl⟩ := h
  refine ⟨hname, ?_⟩
  rw [hfs, Members.toList_ofList]
  exact hdecl.imp fun fd f hf => ⟨hf.name, hf.number, StoredType.stands_of_ofNumber? hf.type⟩

theorem Stands.mono (h : Stands p path d m) (hpq : p.Leads q) : Stands q path d m :=
  ⟨h.1, h.2.imp fun _ _ hf => ⟨hf.name, hf.number, hf.type.mono hpq⟩⟩

theorem Stands.resolve (h : Stands p path d m) (hp : p.Fits) :
    Stands p path d (p.registry.resolveMessage m) := by
  refine ⟨h.1, ?_⟩
  show List.Forall₂ _ _ (m.fields.map p.registry.resolveField).toList
  rw [Members.toList_map, List.forall₂_map_right_iff]
  refine h.2.imp fun fd f hf => ⟨hf.name, hf.number, ?_⟩
  unfold Registry.resolveField
  cases ht : p.registry.resolved? f.type with
  | none => exact hf.type
  | some t => exact hf.type.resolved hp ht

end Message

namespace Progress

/-- The registered messages are those declared, one by one. -/
def Tells (p : Progress) (pds : List (String × MessageDecl)) : Prop :=
  List.Forall₂ (fun pd m => Message.Stands p pd.1 pd.2 m) pds (p.registry.messageList p.store)

/-- Every field of a registered message stands for some declared field. -/
theorem Tells.exists_stands {p : Progress} {pds : List (String × MessageDecl)} (h : p.Tells pds)
    {m : Message} {f : Field} (hm : m ∈ p.registry.messageList p.store)
    (hf : f ∈ m.fields.toList) : ∃ d, Field.Stands p d f := by
  obtain ⟨pd, _, hmessage⟩ := exists_of_mem_forall₂ h hm
  obtain ⟨d, _, hfield⟩ := exists_of_mem_forall₂ hmessage.2 hf
  exact ⟨d, hfield⟩

/-- **Every reference stands for the name it was declared with**, after any history. -/
theorem tells_after (steps : List Step) : (after steps).Tells (Step.declared steps) :=
  registered_after (fun p _ _ _ h => h.stands p) (fun _ _ _ _ _ hpq h => h.mono hpq)
    (fun _ _ _ _ hp h => h.resolve hp) steps

end Progress

/-! ## How the fields read -/

/-- The field stores a position in range, of the class declared, and what is registered there has
the name declared. -/
def Field.Bound (p : Progress) (d : FieldDecl) (f : Field) : Prop :=
  (d.getType = 11 ∧ ∃ i ref : Nat, f.type = .message i
      ∧ p.registry.messages.refs[i]? = some ref ∧ p.store.messageName? ref = some d.getTypeName)
    ∨ (d.getType = 14 ∧ ∃ i ref : Nat, f.type = .enum i
      ∧ p.registry.enums.refs[i]? = some ref ∧ p.store.enumName? ref = some d.getTypeName)

/-- How the field declared by `d` reads, and what its handle is if it has one. -/
structure Field.Reads (p : Progress) (d : FieldDecl) (f : Field) : Prop where
  name : f.name = d.getName
  number : f.number = d.getNumber
  message : d.getType = 11 → d.getTypeName ∈ p.messageNames →
    ∃ ref ∈ p.registry.messages.toList, p.store.messageName? ref = some d.getTypeName
      ∧ p.registry.view f.type = .ok (.ofMessage ref)
  noMessage : d.getType = 11 → d.getTypeName ∉ p.messageNames →
    p.registry.view f.type = .ok (.bare .unresolvedMessage (some d.getTypeName))
  enum : d.getType = 14 → d.getTypeName ∈ p.enumNames →
    ∃ ref ∈ p.registry.enums.toList, p.store.enumName? ref = some d.getTypeName
      ∧ p.registry.view f.type = .ok (.ofEnum ref)
  noEnum : d.getType = 14 → d.getTypeName ∉ p.enumNames →
    p.registry.view f.type = .ok (.bare .unresolvedEnum (some d.getTypeName))
  scalar : d.getType ≠ 11 → d.getType ≠ 14 → ∃ k, Scalar.ofNumber? d.getType = some k
    ∧ p.registry.view f.type = .ok (.bare (.scalar k) none)
  handle : f.type.handle ≠ none → f.Bound p d

namespace Field

variable {p : Progress} {d : FieldDecl} {f : Field}

/-- A type with a handle is bound to a registration of the declared name. -/
theorem Stands.bound (h : f.Stands p d) (hf : f.type.handle ≠ none) : f.Bound p d := by
  have ht := h.type
  unfold Bound
  generalize f.type = t at ht hf
  cases ht with
  | scalar hk => exact absurd rfl hf
  | messageName hd => exact absurd rfl hf
  | messageAt hd hi hn => exact Or.inl ⟨hd, _, _, rfl, hi, hn⟩
  | enumName hd => exact absurd rfl hf
  | enumAt hd hi hn => exact Or.inr ⟨hd, _, _, rfl, hi, hn⟩

/-- A field that stands for a declaration reads as one in every progress that fits. -/
theorem Stands.reads (h : f.Stands p d) (hp : p.Fits) : f.Reads p d where
  name := h.name
  number := h.number
  message := by
    intro hd hn
    rcases h.type.view_message hp hd with hv | ⟨hno, _⟩
    · exact hv
    · exact absurd hn hno
  noMessage := by
    intro hd hno
    rcases h.type.view_message hp hd with ⟨ref, href, hname, _⟩ | ⟨_, hv⟩
    · exact absurd (Catalog.name_mem href hname) hno
    · exact hv
  enum := by
    intro hd hn
    rcases h.type.view_enum hp hd with hv | ⟨hno, _⟩
    · exact hv
    · exact absurd hn hno
  noEnum := by
    intro hd hno
    rcases h.type.view_enum hp hd with ⟨ref, href, hname, _⟩ | ⟨_, hv⟩
    · exact absurd (Catalog.name_mem href hname) hno
    · exact hv
  scalar := h.type.view_scalar
  handle := h.bound

end Field

namespace Progress

/--
**What a reference reads as depends only on which names are registered.**

After any history, with imports that failed or without, every registered message is one that was
declared, and its fields are those of its declaration. A field declared with a reference to a
message or an enum reads as one of the name declared if that name is registered, and as an
unresolved reference to that name if it is not; a field of another type reads as that type. Reading
never fails, and every handle stored is a position of its own class at which the name declared is
registered.
-/
theorem after_reads (steps : List Step) :
    let p := after steps
    (p.registry.messageList p.store).length = p.registry.messages.size
      ∧ List.Forall₂ (fun pd m => m.name = qualify pd.1 pd.2.getName
          ∧ List.Forall₂ (Field.Reads p) pd.2.fields m.fields.toList)
        (Step.declared steps) (p.registry.messageList p.store) := by
  intro p
  have hfit : p.Fits := fits_after steps
  refine ⟨hfit.messages.length_filterMap, (tells_after steps).imp fun pd m hm => ?_⟩
  exact ⟨hm.1, hm.2.imp fun d f hf => hf.reads hfit⟩

end Progress

end SchemaRegistry
