import SchemaRegistry.Proofs.Flattening
import SchemaRegistry.Proofs.References
import SchemaRegistry.Registry.View

/-!
# Which references dangle

A reference dangles if its name is registered nowhere, and it makes no difference whether it has
been through a resolution pass. So the list of dangling references can be read off the declarations,
and it is always made to its end (`Tells.dangling`); and the same holds of the summary, which shows
these references too (`Tells.exists_render`).
-/

namespace SchemaRegistry

namespace FieldDecl

/-- The field refers to a message, or to an enum, of a name that is not among these. -/
def Dangles (messages enums : List String) (d : FieldDecl) : Prop :=
  (d.getType = 11 ∧ d.getTypeName ∉ messages) ∨ (d.getType = 14 ∧ d.getTypeName ∉ enums)

instance (messages enums : List String) (d : FieldDecl) : Decidable (d.Dangles messages enums) :=
  inferInstanceAs (Decidable (_ ∨ _))

variable {messages enums : List String} {d : FieldDecl}

theorem dangles_of_message (h : d.getType = 11) :
    d.Dangles messages enums ↔ d.getTypeName ∉ messages := by
  simp [Dangles, h]

theorem dangles_of_enum (h : d.getType = 14) :
    d.Dangles messages enums ↔ d.getTypeName ∉ enums := by
  simp [Dangles, h]

theorem not_dangles_of_scalar (hm : d.getType ≠ 11) (he : d.getType ≠ 14) :
    ¬ d.Dangles messages enums := by
  simp [Dangles, hm, he]

end FieldDecl

/-- The dangling references of a message declared under `path`, in field order. -/
def MessageDecl.dangling (messages enums : List String) (path : String) (d : MessageDecl) :
    List Registry.Dangling :=
  (d.fields.filter fun fd => fd.Dangles messages enums).map fun fd =>
    ⟨qualify path d.getName, fd.getName, some fd.getTypeName⟩

/-- Computations that all succeed do so one after another. -/
theorem exists_mapM {ε α β γ : Type} {f : β → Except ε γ} {S : α → β → Prop} {R : α → γ → Prop}
    (hf : ∀ a b, S a b → ∃ c, f b = .ok c ∧ R a c) {as : List α} {bs : List β}
    (h : List.Forall₂ S as bs) : ∃ cs, bs.mapM f = .ok cs ∧ List.Forall₂ R as cs := by
  induction h with
  | nil => exact ⟨[], rfl, .nil⟩
  | cons hab _ ih =>
    obtain ⟨c, hc, hac⟩ := hf _ _ hab
    obtain ⟨cs, hcs, hascs⟩ := ih
    exact ⟨c :: cs, by rw [List.mapM_cons, hc, hcs]; rfl, .cons hac hascs⟩

/-- A run over a list in which no element fails. -/
theorem mapM_of_ok {ε α β : Type} {f : α → Except ε β} {g : α → β} {as : List α}
    (h : ∀ a ∈ as, f a = .ok (g a)) : as.mapM f = .ok (as.map g) := by
  induction as with
  | nil => rfl
  | cons a as ih =>
    rw [List.mapM_cons, h a List.mem_cons_self, ih fun b hb => h b (List.mem_cons_of_mem _ hb)]
    rfl

/-! ## The views of the fields -/

namespace TypeView

/-- The view tells whether the reference declared by `d` dangles, and to which name. -/
structure Shows (messages enums : List String) (d : FieldDecl) (v : TypeView) : Prop where
  isResolved : v.isResolved = true ↔ ¬ d.Dangles messages enums
  typeName : d.Dangles messages enums → v.typeName = some d.getTypeName

variable {messages enums : List String} {d : FieldDecl} {v : TypeView}

/-- A view that has been followed belongs to a reference that does not dangle. -/
theorem Shows.of_resolved (hv : v.isResolved = true) (hd : ¬ d.Dangles messages enums) :
    v.Shows messages enums d :=
  ⟨⟨fun _ => hd, fun _ => hv⟩, fun h => absurd h hd⟩

/-- A view that has not been followed tells the name that it looked for. -/
theorem Shows.of_unresolved (hv : v.isResolved = false) (hn : v.typeName = some d.getTypeName)
    (hd : d.Dangles messages enums) : v.Shows messages enums d :=
  ⟨⟨fun h => absurd (hv.symm.trans h) Bool.false_ne_true, fun h => absurd hd h⟩, fun _ => hn⟩

end TypeView

variable {p : Progress} {path : String}

/-- Every type of a registered field can be viewed, and the view shows whether it dangles. -/
theorem Field.Stands.exists_view {d : FieldDecl} {f : Field} (h : f.Stands p d) (hp : p.Fits) :
    ∃ v, p.registry.view f.type = .ok v ∧ v.Shows p.messageNames p.enumNames d := by
  -- Only fields of message and enum type can dangle, each by the names of its own class.
  by_cases hm : d.getType = 11
  · rcases h.type.view_message hp hm with ⟨ref, href, hname, hv⟩ | ⟨hno, hv⟩
    · have hmem : d.getTypeName ∈ p.messageNames := Catalog.name_mem href hname
      exact ⟨_, hv, .of_resolved rfl fun hd => (FieldDecl.dangles_of_message hm).mp hd hmem⟩
    · exact ⟨_, hv, .of_unresolved rfl rfl ((FieldDecl.dangles_of_message hm).mpr hno)⟩
  by_cases he : d.getType = 14
  · rcases h.type.view_enum hp he with ⟨ref, href, hname, hv⟩ | ⟨hno, hv⟩
    · have hmem : d.getTypeName ∈ p.enumNames := Catalog.name_mem href hname
      exact ⟨_, hv, .of_resolved rfl fun hd => (FieldDecl.dangles_of_enum he).mp hd hmem⟩
    · exact ⟨_, hv, .of_unresolved rfl rfl ((FieldDecl.dangles_of_enum he).mpr hno)⟩
  · obtain ⟨k, _, hv⟩ := h.type.view_scalar hm he
    exact ⟨_, hv, .of_resolved rfl (FieldDecl.not_dangles_of_scalar hm he)⟩

/-- The views of all fields can be read. -/
theorem Message.Stands.exists_views {d : MessageDecl} {m : Message} (h : m.Stands p path d)
    (hp : p.Fits) :
    ∃ fvs, p.registry.fieldViews m = .ok fvs ∧ List.Forall₂ (fun fd fv =>
      fv.1.name = fd.getName ∧ fv.2.Shows p.messageNames p.enumNames fd) d.fields fvs := by
  refine exists_mapM (fun fd f hf => ?_) h.2
  obtain ⟨v, hv, hshows⟩ := hf.exists_view hp
  exact ⟨(f, v), by rw [hv]; rfl, hf.name, hshows⟩

/-- A registered message reports the dangling references that it declares. -/
theorem Message.Stands.danglingOf {d : MessageDecl} {m : Message} (h : m.Stands p path d)
    (hp : p.Fits) :
    p.registry.danglingOf m = .ok (d.dangling p.messageNames p.enumNames path) := by
  obtain ⟨fvs, hread, hfvs⟩ := h.exists_views hp
  unfold Registry.danglingOf
  rw [hread]
  refine congrArg Except.ok ?_
  unfold MessageDecl.dangling
  rw [h.1]
  -- Field by field, what is kept of the views is what is kept of the declarations.
  clear hread
  generalize d.fields = fds at hfvs
  induction hfvs with
  | nil => rfl
  | @cons fd fv _ _ hfv _ ih =>
    obtain ⟨hname, hshows⟩ := hfv
    by_cases hd : fd.Dangles p.messageNames p.enumNames
    · have hunresolved : fv.2.isResolved = false :=
        Bool.eq_false_iff.mpr fun hr => hshows.isResolved.mp hr hd
      rw [List.filter_cons_of_pos (by simpa using hd), List.map_cons, ← ih]
      simp [hunresolved, hname, hshows.typeName hd]
    · have hresolved := hshows.isResolved.mpr hd
      rw [List.filter_cons_of_neg (by simpa using hd), ← ih]
      simp [hresolved]

/-! ## The whole registry -/

namespace Progress

variable {pds : List (String × MessageDecl)}

/-- Messages are registered under the full names of their declarations. -/
theorem Tells.messageNames (h : p.Tells pds) :
    p.messageNames = pds.map fun pd => qualify pd.1 pd.2.getName :=
  map_eq_of_forall₂ (fun _ _ hm => hm.1) h

/-- **The dangling references are those of the declarations**, in order of registration. -/
theorem Tells.dangling (h : p.Tells pds) (hp : p.Fits) :
    p.registry.dangling p.store
      = .ok (pds.flatMap fun pd => pd.2.dangling p.messageNames p.enumNames pd.1) := by
  obtain ⟨found, hread, hfound⟩ := exists_mapM (f := p.registry.danglingOf)
    (R := fun pd ds => ds = pd.2.dangling p.messageNames p.enumNames pd.1)
    (fun _ _ hm => ⟨_, hm.danglingOf hp, rfl⟩) h
  unfold Registry.dangling
  rw [hread, List.flatMap_def, ← map_eq_of_forall₂ (g := id) (fun _ _ h => h) hfound, List.map_id]
  rfl

/-- There always is a summary. -/
theorem Tells.exists_render (h : p.Tells pds) (hp : p.Fits) :
    ∃ summary, Summary.render p.registry p.store = .ok summary := by
  obtain ⟨blocks, hread, _⟩ := exists_mapM (f := Summary.messageBlock p.registry p.store)
    (R := fun _ _ => True) (fun _ m hm => by
      obtain ⟨fvs, hviews, _⟩ := hm.exists_views hp
      unfold Summary.messageBlock
      rw [hviews]
      exact ⟨_, rfl, trivial⟩) h
  unfold Summary.render
  rw [hread]
  exact ⟨_, rfl⟩

end Progress

/-! ## Files -/

namespace FileDecl

/-- The names of the messages that the files declare at any depth. -/
def messageNames (files : List FileDecl) : List String :=
  (files.flatMap flatten).map fun sd => qualify sd.1.path sd.2.getName

/-- The full names of the enums declared in the files. -/
def enumNames (files : List FileDecl) : List String :=
  (files.flatMap flattenEnums).map fun sd => qualify sd.1.path sd.2.getName

/-- The dangling references in the files, those of inner messages first. -/
def dangling (files : List FileDecl) : List Registry.Dangling :=
  (files.flatMap flatten).flatMap fun sd =>
    sd.2.dangling (messageNames files) (enumNames files) sd.1.path

/-- Some field of some message refers to a type that the files do not declare. -/
def HasDangling (files : List FileDecl) : Prop :=
  ∃ sd ∈ files.flatMap flatten, ∃ d ∈ sd.2.fields, d.Dangles (messageNames files) (enumNames files)

/-- The list of what dangles says whether anything does. -/
theorem dangling_ne_nil_iff (files : List FileDecl) : dangling files ≠ [] ↔ HasDangling files := by
  unfold dangling HasDangling MessageDecl.dangling
  simp only [ne_eq, List.flatMap_eq_nil_iff, List.map_eq_nil_iff, List.filter_eq_nil_iff,
    decide_eq_true_eq, not_forall, not_not, exists_prop]

end FileDecl

namespace Progress

variable {files : List FileDecl}

/-- One import without a fault performs all visits of its files. -/
theorem after_importFiles (h : Walk.verdict (files.flatMap FileDecl.walk) = .ok ()) :
    after [.importFiles files] = (files.flatMap FileDecl.walk).foldl Visit.perform .empty := by
  show ((Import.importFiles files).outcome empty).2 = _
  rw [Import.importFiles_follows files empty, Walk.reached_eq_self h]

theorem tells_importFiles (h : Walk.verdict (files.flatMap FileDecl.walk) = .ok ()) :
    (after [.importFiles files]).Tells ((files.flatMap FileDecl.flatten).map Site.named) := by
  have htells := tells_after [.importFiles files]
  unfold Step.declared at htells
  rw [List.flatMap_singleton] at htells
  unfold Step.visits Step.walk at htells
  rwa [Walk.reached_eq_self h, messages_files] at htells

theorem messageNames_importFiles (h : Walk.verdict (files.flatMap FileDecl.walk) = .ok ()) :
    (after [.importFiles files]).messageNames = FileDecl.messageNames files := by
  rw [(tells_importFiles h).messageNames, List.map_map]
  rfl

theorem enumNames_importFiles (h : Walk.verdict (files.flatMap FileDecl.walk) = .ok ()) :
    (after [.importFiles files]).enumNames = FileDecl.enumNames files := by
  have henums := (Appends.performAll (files.flatMap FileDecl.walk) .empty).enums
    (Registry.fits_empty _)
  unfold enumNames
  rw [after_importFiles h, henums, List.map_append,
    map_eq_of_forall₂ (fun _ _ he => he.1) (declared_enums files)]
  rfl

theorem dangling_importFiles (h : Walk.verdict (files.flatMap FileDecl.walk) = .ok ()) :
    let p := after [.importFiles files]
    p.registry.dangling p.store = .ok (FileDecl.dangling files) := by
  intro p
  rw [(tells_importFiles h).dangling (fits_after _), messageNames_importFiles h,
    enumNames_importFiles h, List.flatMap_map]
  rfl

end Progress

end SchemaRegistry
