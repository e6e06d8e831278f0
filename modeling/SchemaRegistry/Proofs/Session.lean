import SchemaRegistry.Proofs.Resolution
import SchemaRegistry.Workspace

/-!
# The workspaces that sessions reach

A session is any run of changes: on several registries, with descriptors made by hand and shared
between them, with failures on the way. In all that can happen, every registry fits the store and
every id leads to a descriptor (`sound_after`).
-/

namespace SchemaRegistry

/-- The message, or the enum, is in the store. -/
def Loose.LeadsIn (s : Store) : Loose → Prop
  | .message ref => ∃ n, s.messageName? ref = some n
  | .enum ref => ∃ n, s.enumName? ref = some n

namespace Workspace

/-- The workspace that a session leads to. Each of its changes names the registry it is about. -/
def after (session : List (String × Change)) : Workspace :=
  session.foldl (fun w c => (w.apply c.1 c.2).workspace) empty

/-- All registries fit the store, and no id leads nowhere. -/
structure Sound (w : Workspace) : Prop where
  registries : ∀ name, (w.registry name).Fits w.store
  messages : ∀ id ref, w.messageRef? id = some ref → ∃ n, w.store.messageName? ref = some n
  enums : ∀ id ref, w.enumRef? id = some ref → ∃ n, w.store.enumName? ref = some n

variable {w : Workspace}

/-- Changing the registry of one name leaves those of other names. -/
theorem registry_setRegistry (w : Workspace) (name other : String) (r : Registry) :
    (w.setRegistry name r).registry other = if name = other then r else w.registry other := by
  unfold registry setRegistry
  rw [Std.HashMap.getD_insert]
  simp only [beq_iff_eq]

@[simp] theorem registry_finish (w : Workspace) (name : String) (p : Progress) :
    (w.finish name p).registry name = p.registry := by
  unfold finish
  rw [registry_setRegistry, if_pos rfl]

/-- Nothing is out of place where nothing is. -/
theorem sound_empty : Sound empty where
  registries := by
    intro name
    have : registry empty name = Registry.empty := by simp [registry, empty]
    rw [this]
    exact Registry.fits_empty _
  messages := by intro id ref h; simp [messageRef?, empty] at h
  enums := by intro id ref h; simp [enumRef?, empty] at h

/-- A store that has grown under the same registries and ids. -/
theorem Sound.withStore (h : Sound w) {s : Store} (hs : w.store.Extends s) :
    Sound { w with store := s } where
  registries := fun name => (h.registries name).mono hs
  messages := by
    intro id ref hid
    obtain ⟨n, hn⟩ := h.messages id ref hid
    exact ⟨n, hs.messages ref n hn⟩
  enums := by
    intro id ref hid
    obtain ⟨n, hn⟩ := h.enums id ref hid
    exact ⟨n, hs.enums ref n hn⟩

/-- A registry may be set if it fits the store. -/
theorem Sound.setRegistry (h : Sound w) {name : String} {r : Registry} (hr : r.Fits w.store) :
    Sound (w.setRegistry name r) where
  registries := by
    intro other
    rw [registry_setRegistry]
    split
    · exact hr
    · exact h.registries other
  messages := h.messages
  enums := h.enums

/-- The end of a step that worked on one registry, or on a new one in its place. -/
theorem Sound.finish (h : Sound w) {name : String} {r : Registry} {p : Progress}
    (hr : r.Fits w.store) (hp : (Progress.start w.store r).Leads p) : Sound (w.finish name p) :=
  (h.withStore hp.store).setRegistry (hp.fits hr)

/-! ## Descriptors kept under ids -/

theorem messageRef?_eq_some_iff {id : String} {ref : Nat} :
    w.messageRef? id = some ref ↔ w.loose[id]? = some (.message ref) := by
  unfold messageRef?
  cases w.loose[id]? with
  | none => simp
  | some l => cases l <;> simp

theorem enumRef?_eq_some_iff {id : String} {ref : Nat} :
    w.enumRef? id = some ref ↔ w.loose[id]? = some (.enum ref) := by
  unfold enumRef?
  cases w.loose[id]? with
  | none => simp
  | some l => cases l <;> simp

/-- What an id stands for is in the store. -/
theorem Sound.leadsIn (h : Sound w) {id : String} {l : Loose} (hl : w.loose[id]? = some l) :
    l.LeadsIn w.store := by
  cases l with
  | message ref => exact h.messages id ref (messageRef?_eq_some_iff.mpr hl)
  | enum ref => exact h.enums id ref (enumRef?_eq_some_iff.mpr hl)

/-- A descriptor that is in the store may be kept under any id. -/
theorem Sound.keep (h : Sound w) (id : String) {l : Loose} (hl : l.LeadsIn w.store) :
    Sound { w with loose := w.loose.insert id l } := by
  -- The id that is set leads to what was put in, every other one to what it did.
  have hleads (other : String) (l' : Loose) (hother : (w.loose.insert id l)[other]? = some l') :
      l'.LeadsIn w.store := by
    rw [Std.HashMap.getElem?_insert] at hother
    split at hother
    · rw [← Option.some.inj hother]
      exact hl
    · exact h.leadsIn hother
  exact ⟨h.registries,
    fun other ref hother => hleads other (.message ref) (messageRef?_eq_some_iff.mp hother),
    fun other ref hother => hleads other (.enum ref) (enumRef?_eq_some_iff.mp hother)⟩

theorem Sound.keepMessage (h : Sound w) (id : String) (m : Message) : Sound (w.keepMessage id m) :=
  (h.withStore (Store.keeps_addMessage w.store m).toExtends).keep id
    ⟨m.name, Store.messageName?_addMessage_self w.store m⟩

theorem Sound.keepEnum (h : Sound w) (id : String) (e : Enumeration) : Sound (w.keepEnum id e) :=
  (h.withStore (Store.keeps_addEnum w.store e).toExtends).keep id
    ⟨e.name, Store.enumName?_addEnum_self w.store e⟩

/-! ## The changes, one by one -/

/-- An import leaves the workspace sound, even when it breaks off. -/
theorem Sound.runImport (h : Sound w) (name : String) {a : Action DeclarationError Unit}
    {vs : List Visit} (ha : Follows a vs ()) : Sound (w.runImport name a).workspace :=
  h.finish (h.registries name) (ha.leads (w.start name))

/-- So does a registry that is made anew, which is kept only if all files were imported. -/
theorem Sound.replaceRegistry (h : Sound w) (name : String) (files : List FileDecl) :
    Sound (w.replaceRegistry name files).workspace := by
  have hp := (Import.importFiles_follows files).leads (.start w.store .empty)
  unfold Workspace.replaceRegistry
  cases hout : (Import.importFiles files).outcome (.start w.store .empty) with
  | mk result p =>
    rw [hout] at hp
    cases result with
    | ok u => exact h.finish (Registry.fits_empty _) hp
    -- The new registry is dropped, but its descriptors stay in the store.
    | error e => exact h.withStore hp.store

theorem Sound.buildMessage (h : Sound w) (id path : String) (d : MessageDecl) :
    Sound (w.buildMessage id path d).workspace := by
  unfold Workspace.buildMessage
  cases hout : (Import.buildMessage path d).outcome (.start w.store .empty) with
  | mk result p =>
    cases result with
    | ok m => exact h.keepMessage id m
    | error e => exact h

theorem Sound.addField (h : Sound w) (id : String) (f : Field) :
    Sound (w.addField id f).workspace := by
  unfold Workspace.addField
  split
  · exact h.withStore (Store.extends_updateMessage _ _ fun _ => rfl)
  · exact h

theorem Sound.addValue (h : Sound w) (id : String) (v : EnumValue) :
    Sound (w.addValue id v).workspace := by
  unfold Workspace.addValue
  split
  · exact h.withStore (Store.extends_updateEnum _ _ fun _ => rfl)
  · exact h

/-- The name under which a descriptor is registered is the one that it has now. -/
theorem eq_some_getD {x : Option String} (h : ∃ n, x = some n) : x = some (x.getD "") := by
  obtain ⟨n, rfl⟩ := h
  rfl

theorem Sound.registerMessage (h : Sound w) (name id : String) :
    Sound (w.registerMessage name id).workspace := by
  unfold Workspace.registerMessage
  split
  · rename_i ref href
    exact h.setRegistry ((h.registries name).addMessage (eq_some_getD (h.messages id ref href)))
  · exact h

theorem Sound.registerEnum (h : Sound w) (name id : String) :
    Sound (w.registerEnum name id).workspace := by
  unfold Workspace.registerEnum
  split
  · rename_i ref href
    exact h.setRegistry ((h.registries name).addEnum (eq_some_getD (h.enums id ref href)))
  · exact h

/-- **Preserved by every change**, whether it succeeds or not. -/
theorem sound_apply (h : Sound w) (name : String) (c : Change) :
    Sound (w.apply name c).workspace := by
  -- Each kind of change keeps the workspace sound by the lemma about it.
  cases c with
  | importFiles files => exact h.runImport name (Import.importFiles_follows files)
  | importMessage path d => exact h.runImport name (Import.importMessage_follows path d)
  | replace files => exact h.replaceRegistry name files
  | buildMessage id path d => exact h.buildMessage id path d
  | buildEnum id path d => exact h.keepEnum id _
  | newMessage id label => exact h.keepMessage id _
  | newEnum id label => exact h.keepEnum id _
  | addField id f => exact h.addField id f
  | addValue id v => exact h.addValue id v
  | registerMessage id => exact h.registerMessage name id
  | registerEnum id => exact h.registerEnum name id
  | resolve => exact h.finish (h.registries name) (Progress.leads_resolve (w.start name))

/-- The workspace is sound after every session. -/
theorem sound_after (session : List (String × Change)) : Sound (after session) := by
  have key : ∀ w, Sound w →
      Sound (session.foldl (fun w c => (w.apply c.1 c.2).workspace) w) := by
    induction session with
    | nil => exact fun w h => h
    | cons c cs ih => exact fun w h => ih _ (sound_apply h c.1 c.2)
  exact key empty sound_empty

end Workspace

end SchemaRegistry
