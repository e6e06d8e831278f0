import Mathlib.Data.List.Forall2
import SchemaRegistry.Descriptor.Basic

/-!
# What a descriptor owes to its declaration

A declaration leaves properties unset and gives labels and types by number; a descriptor has them
all. `Declared` says what each of them must be, property by property. The descriptors that are built
are declared in this sense (`declared_of_ofDecl`, `declared_descriptor`), and nothing is added to
them or left out.
-/

namespace SchemaRegistry

/-- The field is the one that `d` declares. -/
structure Field.Declared (d : FieldDecl) (f : Field) : Prop where
  name : f.name = d.getName
  number : f.number = d.getNumber
  label : Label.ofNumber? d.getLabel = some f.label
  type : StoredType.ofNumber? d.getType d.getTypeName = some f.type
  optional : f.optional = (d.isProto3Optional || f.label = .optional)
  /-- A text that is no value of the type leaves no default. -/
  default : f.default = d.default.bind fun text => (Default.parse text f.type).toOption

/-- The message is the one that `d` declares under `path`: the fields of `d`, in the order of `d`,
and each of them found by name and number. -/
def Message.Declared (path : String) (d : MessageDecl) (m : Message) : Prop :=
  m.name = qualify path d.getName
    ∧ ∃ fs : List Field, m.fields = .ofList fs ∧ List.Forall₂ Field.Declared d.fields fs

/-- The value is the one that `d` declares. -/
def EnumValue.Declared (d : EnumValueDecl) (v : EnumValue) : Prop :=
  v.name = d.getName ∧ v.number = d.getNumber

/-- The enum is the one that `d` declares under `path`, and its index is that of the declared
values. -/
def Enumeration.Declared (path : String) (d : EnumDecl) (e : Enumeration) : Prop :=
  e.name = qualify path d.getName
    ∧ ∃ vs : List EnumValue, e.values = .ofList vs ∧ List.Forall₂ EnumValue.Declared d.values vs

/-- What a declaration decides about its descriptor is the same in both lists. -/
theorem map_eq_of_forall₂ {α β γ : Type} {R : α → β → Prop} {f : α → γ} {g : β → γ}
    (hR : ∀ a b, R a b → g b = f a) {as : List α} {bs : List β} (h : List.Forall₂ R as bs) :
    bs.map g = as.map f := by
  induction h with
  | nil => rfl
  | cons hab _ ih => rw [List.map_cons, List.map_cons, hR _ _ hab, ih]

/-- Everything in the second list is related to something in the first. -/
theorem exists_of_mem_forall₂ {α β : Type} {R : α → β → Prop} {as : List α} {bs : List β} {b : β}
    (h : List.Forall₂ R as bs) (hb : b ∈ bs) : ∃ a ∈ as, R a b := by
  induction h with
  | nil => cases hb
  | cons hab _ ih =>
    rcases List.mem_cons.mp hb with rfl | hb
    · exact ⟨_, List.mem_cons_self, hab⟩
    · obtain ⟨a, ha, hR⟩ := ih hb
      exact ⟨a, List.mem_cons_of_mem _ ha, hR⟩

/-- The types that a declaration can give. -/
theorem StoredType.ofNumber?_eq_some {n : Int} {name : String} {t : StoredType}
    (h : ofNumber? n name = some t) :
    (n = 11 ∧ t = .unresolvedMessage name) ∨ (n = 14 ∧ t = .unresolvedEnum name)
      ∨ ∃ k, Scalar.ofNumber? n = some k ∧ t = .scalar k := by
  unfold ofNumber? at h
  split at h
  · rename_i hn
    exact Or.inl ⟨hn, (Option.some.inj h).symm⟩
  · split at h
    · rename_i hn
      exact Or.inr (Or.inl ⟨hn, (Option.some.inj h).symm⟩)
    · obtain ⟨k, hk, rfl⟩ := Option.map_eq_some_iff.mp h
      exact Or.inr (Or.inr ⟨k, hk, rfl⟩)

/-! ## What is built -/

/-- The field that `d` declares, if it can be built. -/
def FieldDecl.field? (d : FieldDecl) : Option Field := (Field.ofDecl d).toOption.map Prod.fst

/-- What is worth telling about building the field. -/
def FieldDecl.events (d : FieldDecl) : List Event :=
  match Field.ofDecl d with
  | .ok (_, es) => es
  | .error _ => []

/-- Why the field cannot be built. -/
def FieldDecl.fault? (d : FieldDecl) : Option DeclarationError :=
  match Field.ofDecl d with
  | .ok _ => none
  | .error e => some e

/-- The message with those of the fields of `d` that can be built. -/
def MessageDecl.descriptor (path : String) (d : MessageDecl) : Message :=
  ⟨qualify path d.getName, .ofList (d.fields.filterMap FieldDecl.field?)⟩

/-- A default that does not fit is none, and then there is an event for it. -/
theorem Field.readDefault_eq_ok {name : String} {type : StoredType} {text : Option String}
    {v : Option Value} {es : List Event} (h : readDefault name type text = .ok (v, es)) :
    v = text.bind fun s => (Default.parse s type).toOption := by
  cases text with
  | none => simp only [readDefault, Except.ok.injEq, Prod.mk.injEq] at h; exact h.1.symm
  | some s =>
    cases hp : Default.parse s type with
    | ok w =>
      simp only [readDefault, hp, Except.ok.injEq, Prod.mk.injEq] at h
      rw [Option.bind_some, hp, ← h.1]
      rfl
    | error e =>
      cases e with
      | badText bad =>
        -- The only error that is not passed on: the field goes without a default.
        simp only [readDefault, hp, Except.ok.injEq, Prod.mk.injEq] at h
        rw [Option.bind_some, hp, ← h.1]
        rfl
      -- These two make the field fail.
      | group => simp [readDefault, hp] at h
      | tooManyDigits count => simp [readDefault, hp] at h

/-- What is built is what is declared. -/
theorem Field.declared_of_ofDecl {d : FieldDecl} {f : Field} {es : List Event}
    (h : ofDecl d = .ok (f, es)) : Declared d f := by
  -- A field is built if its label, its type and its default can be read, tried in this order.
  unfold ofDecl at h
  cases hl : Label.ofNumber? d.getLabel with
  | none => rw [hl] at h; cases h
  | some label =>
    cases ht : StoredType.ofNumber? d.getType d.getTypeName with
    | none => rw [hl, ht] at h; cases h
    | some type =>
      cases hr : readDefault d.getName type d.default with
      | error e =>
        rw [hl, ht] at h
        dsimp only at h
        rw [hr] at h
        cases h
      | ok ve =>
        obtain ⟨v, es'⟩ := ve
        rw [hl, ht] at h
        dsimp only at h
        rw [hr] at h
        cases h
        exact ⟨rfl, rfl, hl, ht, rfl, readDefault_eq_ok hr⟩

/-- A declaration without a fault gives a field. -/
theorem FieldDecl.declared_of_fault?_eq_none {d : FieldDecl} (h : d.fault? = none) :
    ∃ f, d.field? = some f ∧ f.Declared d := by
  cases hd : Field.ofDecl d with
  | error e => simp [fault?, hd] at h
  | ok fe =>
    obtain ⟨f, es⟩ := fe
    exact ⟨f, by simp [field?, hd, Except.toOption], Field.declared_of_ofDecl hd⟩

/-- If every field can be built, no field is missing. -/
theorem MessageDecl.declared_fields {ds : List FieldDecl} (h : ∀ d ∈ ds, d.fault? = none) :
    List.Forall₂ Field.Declared ds (ds.filterMap FieldDecl.field?) := by
  induction ds with
  | nil => exact .nil
  | cons d ds ih =>
    obtain ⟨f, hf, hd⟩ := FieldDecl.declared_of_fault?_eq_none (h d List.mem_cons_self)
    rw [List.filterMap_cons_some hf]
    exact .cons hd (ih fun d' hd' => h d' (List.mem_cons_of_mem _ hd'))

theorem MessageDecl.declared_descriptor (path : String) {d : MessageDecl}
    (h : ∀ fd ∈ d.fields, fd.fault? = none) : (d.descriptor path).Declared path d :=
  ⟨rfl, _, rfl, declared_fields h⟩

theorem Enumeration.declared_ofDecl (path : String) (d : EnumDecl) :
    (ofDecl path d).Declared path d := by
  refine ⟨rfl, _, rfl, ?_⟩
  rw [List.forall₂_map_right_iff]
  exact List.forall₂_same.mpr fun v _ => ⟨rfl, rfl⟩

end SchemaRegistry
