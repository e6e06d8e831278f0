import SchemaRegistry.Proofs.Binding
import SchemaRegistry.Proofs.Journal
import SchemaRegistry.Proofs.Reading

/-!
# Handles keep their meaning

A registry forgets nothing and moves nothing, so a position once handed out leads to the same
descriptor for as long as the registry lives, whatever is registered later and under whatever name.
And a field that holds a position holds it for good: neither a later pass nor a pass over another
registry that has the same message touches it. So what a reference has been bound to it stays bound
to (`handles_stay`).

Both facts are seen edit by edit. The only edit that does not continue a registry is the one that
puts a new registry in its place, and only a change that says so makes it.
-/

namespace SchemaRegistry

/-! ## Fields in their places -/

/-- Every field of `m` is in `m'` at its old place, as it was or with its reference bound. -/
def Message.Evolves (m m' : Message) : Prop :=
  ∀ (i : Nat) (f : Field), m.fields.items[i]? = some f →
    ∃ g, m'.fields.items[i]? = some g ∧ f.Becomes g

theorem Message.Evolves.refl (m : Message) : Evolves m m := fun _ f h => ⟨f, h, .refl f⟩

/-- A field that is added moves no other one. -/
theorem Message.evolves_addField (m : Message) (f : Field) : Evolves m (m.addField f) := by
  intro i g hg
  refine ⟨g, ?_, .refl g⟩
  -- The new field comes behind those that were there.
  have hlt : i < m.fields.items.size := (Array.getElem?_eq_some_iff.mp hg).choose
  show (m.fields.items.push f)[i]? = some g
  rw [Array.getElem?_push, if_neg (Nat.ne_of_lt hlt)]
  exact hg

/-- Resolution only moves fields along. -/
theorem Message.evolves_resolve (r : Registry) (m : Message) :
    Evolves m (r.resolveMessage m) := by
  intro i f hf
  refine ⟨r.resolveField f, ?_, .resolveField r f⟩
  show (m.fields.items.map r.resolveField)[i]? = _
  rw [Array.getElem?_map, hf]
  rfl

namespace Store

/-- The field at a position of the message at a reference. -/
def field? (s : Store) (ref i : Nat) : Option Field :=
  s.message? ref >>= fun m => m.fields.items[i]?

/-- Every field in `s` is in `s'` at its old place, as it was or with its reference bound. -/
def Evolves (s s' : Store) : Prop :=
  ∀ ref m, s.message? ref = some m → ∃ m', s'.message? ref = some m' ∧ m.Evolves m'

variable {s s' s'' : Store}

theorem Evolves.refl (s : Store) : Evolves s s := fun _ m h => ⟨m, h, .refl m⟩

/-- What evolves twice evolves. -/
theorem Evolves.trans (h : Evolves s s') (h' : Evolves s' s'') : Evolves s s'' := by
  intro ref m hm
  obtain ⟨m', hm', hmm'⟩ := h ref m hm
  obtain ⟨m'', hm'', hm'm''⟩ := h' ref m' hm'
  refine ⟨m'', hm'', fun i f hf => ?_⟩
  obtain ⟨g, hg, hfg⟩ := hmm' i f hf
  obtain ⟨g', hg', hgg'⟩ := hm'm'' i g hg
  exact ⟨g', hg', hfg.trans hgg'⟩

/-- The field at an index is still the same field, bound at most. -/
theorem Evolves.field? (h : Evolves s s') {ref i : Nat} {f : Field}
    (hf : s.field? ref i = some f) : ∃ g, s'.field? ref i = some g ∧ f.Becomes g := by
  obtain ⟨m, hm, hi⟩ := Option.bind_eq_some_iff.mp hf
  obtain ⟨m', hm', hmm'⟩ := h ref m hm
  obtain ⟨g, hg, hfg⟩ := hmm' i f hi
  exact ⟨g, Option.bind_eq_some_iff.mpr ⟨m', hm', hg⟩, hfg⟩

theorem Keeps.evolves (h : Keeps s s') : Evolves s s' :=
  fun ref m hm => ⟨m, h.messages ref m hm, .refl m⟩

theorem evolves_updateMessage (s : Store) (ref : Nat) {f : Message → Message}
    (hf : ∀ m : Message, m.Evolves (f m)) : Evolves s (s.updateMessage ref f) := by
  intro other m hm
  rw [message?_updateMessage, hm]
  split
  · exact ⟨f m, rfl, hf m⟩
  · exact ⟨m, rfl, .refl m⟩

/-- A pass moves fields along and nothing else. -/
theorem evolves_resolve (p : Progress) : Evolves p.store p.resolve.store := by
  intro ref m hm
  rw [Progress.message?_resolve, hm]
  split
  · exact ⟨_, rfl, m.evolves_resolve p.registry⟩
  · exact ⟨m, rfl, .refl m⟩

end Store

/-! ## Registries that go on -/

namespace Registry

/-- All that is registered in `r` is registered in `r'` at the same position. -/
structure Continues (r r' : Registry) : Prop where
  messages : r.messages.toList <+: r'.messages.toList
  enums : r.enums.toList <+: r'.enums.toList

theorem Continues.refl (r : Registry) : Continues r r := ⟨List.prefix_refl _, List.prefix_refl _⟩

/-- What is continued twice is continued. -/
theorem Continues.trans {r r' r'' : Registry} (h : Continues r r') (h' : Continues r' r'') :
    Continues r r'' :=
  ⟨h.messages.trans h'.messages, h.enums.trans h'.enums⟩

/-- A registration goes behind those that are there. -/
theorem continues_addMessage (r : Registry) (name : String) (ref : Nat) :
    Continues r (r.addMessage name ref) :=
  ⟨⟨_, (Catalog.toList_add _ _ _).symm⟩, List.prefix_refl _⟩

theorem continues_addEnum (r : Registry) (name : String) (ref : Nat) :
    Continues r (r.addEnum name ref) :=
  ⟨List.prefix_refl _, ⟨_, (Catalog.toList_add _ _ _).symm⟩⟩

/-- Follows a handle into the list of its own class. -/
def follow (r : Registry) : Handle → Except HandleError Nat
  | .message i => r.messages.follow (some (.message i))
  | .enum i => r.enums.follow (some (.enum i))

theorem isUnresolved_of_resolved? {r : Registry} {t t' : StoredType}
    (h : r.resolved? t = some t') : t'.kind.isUnresolved = false := by
  rcases resolved?_eq_some h with ⟨_, _, _, _, _, rfl⟩ | ⟨_, _, _, _, _, rfl⟩ <;> rfl

/-- What is read by name is what the pass binds the name to. -/
theorem bound_of_view {r : Registry} {t : StoredType} {v : TypeView} (h : r.view t = .ok v)
    (ht : t.kind.isUnresolved = true) (hv : v.isResolved = true) :
    (∃ i ref : Nat, r.resolved? t = some (.message i) ∧ r.messages.refs[i]? = some ref
        ∧ v = .ofMessage ref)
      ∨ ∃ i ref : Nat, r.resolved? t = some (.enum i) ∧ r.enums.refs[i]? = some ref
        ∧ v = .ofEnum ref := by
  unfold view at h
  -- Only a reference by name is unresolved, and it is viewed as resolved if its name is found.
  cases hk : t.kind with
  | unresolvedMessage =>
    rw [hk] at h
    dsimp only at h
    split at h <;> cases h
    · rename_i ref hfind
      obtain ⟨n, hn, hfind⟩ := Option.bind_eq_some_iff.mp hfind
      obtain ⟨i, hi, href⟩ := Option.bind_eq_some_iff.mp hfind
      exact Or.inl ⟨i, ref, by simp [resolved?, hk, hn, hi], href, rfl⟩
    · cases hv
  | unresolvedEnum =>
    rw [hk] at h
    dsimp only at h
    split at h <;> cases h
    · rename_i ref hfind
      obtain ⟨n, hn, hfind⟩ := Option.bind_eq_some_iff.mp hfind
      obtain ⟨i, hi, href⟩ := Option.bind_eq_some_iff.mp hfind
      exact Or.inr ⟨i, ref, by simp [resolved?, hk, hn, hi], href, rfl⟩
    · cases hv
  | message => rw [hk] at ht; cases ht
  | enum => rw [hk] at ht; cases ht
  | scalar k => rw [hk] at ht; cases ht

end Registry

/-! ## Edit by edit -/

namespace Contents

/-- A change of one registry that continues it continues all. -/
theorem change_continues (c : Contents) (name other : String) {f : Registry → Registry}
    (hf : ∀ r : Registry, r.Continues (f r)) :
    (c.registry other).Continues ((c.change name f).registry other) := by
  rw [change_registry]
  split
  · exact hf _
  · exact .refl _

/-- Every edit continues every registry, except that one which is cleared. -/
theorem perform_continues (c : Contents) {e : Edit} {name : String} (h : e ≠ .clear name) :
    (c.registry name).Continues ((e.perform c).registry name) := by
  cases e with
  | message label fields into =>
    cases into with
    | none => exact .refl _
    | some other => exact change_continues _ other name fun r => r.continues_addMessage _ _
  | enum label values into =>
    cases into with
    | none => exact .refl _
    | some other => exact change_continues _ other name fun r => r.continues_addEnum _ _
  | registerMessage other ref =>
    exact change_continues c other name fun r => r.continues_addMessage _ _
  | registerEnum other ref =>
    exact change_continues c other name fun r => r.continues_addEnum _ _
  | clear other =>
    -- Another registry than this one.
    have hne : other ≠ name := fun heq => h (congrArg Edit.clear heq)
    show (c.registry name).Continues ((c.change other fun _ => .empty).registry name)
    rw [change_registry, if_neg hne]
    exact .refl _
  | field ref f => exact .refl _
  | value ref v => exact .refl _
  | resolve other => exact .refl _

/-- No edit takes a bound field back, or anything out of the store. -/
theorem perform_evolves (c : Contents) (e : Edit) : c.store.Evolves (e.perform c).store := by
  -- New entries come behind the old ones, and only a field or a pass changes an entry.
  cases e with
  | message label fields into =>
    have h := (Store.keeps_addMessage c.store ⟨label, .ofList fields⟩).evolves
    cases into <;> exact h
  | enum label values into =>
    have h := (Store.keeps_addEnum c.store ⟨label, .ofList values⟩).evolves
    cases into <;> exact h
  | field ref f => exact c.store.evolves_updateMessage ref fun m => m.evolves_addField f
  | value ref v => exact fun _ m hm => ⟨m, hm, .refl m⟩
  | registerMessage name ref => exact .refl _
  | registerEnum name ref => exact .refl _
  | clear name => exact .refl _
  | resolve name => exact Store.evolves_resolve (.start c.store (c.registry name))

theorem performAll_continues (es : List Edit) {name : String} (h : .clear name ∉ es)
    (c : Contents) : (c.registry name).Continues ((es.foldl Edit.perform c).registry name) := by
  induction es generalizing c with
  | nil => exact .refl _
  | cons e es ih =>
    rw [List.mem_cons, not_or] at h
    exact (perform_continues c fun heq => h.1 heq.symm).trans (ih h.2 _)

theorem performAll_evolves (es : List Edit) (c : Contents) :
    c.store.Evolves (es.foldl Edit.perform c).store := by
  induction es generalizing c with
  | nil => exact .refl _
  | cons e es ih => exact (perform_evolves c e).trans (ih _)

end Contents

/-! ## Change by change -/

namespace Workspace

/-- The store evolves through a session. -/
theorem evolves_run (w : Workspace) (session : List (String × Change)) :
    w.store.Evolves (w.run session).store := by
  have h := Contents.performAll_evolves (w.journalFrom session) w.contents
  rw [← contents_run] at h
  exact h

theorem clear_notMem_walk (name : String) (into : Option String) (vs : List Visit) :
    .clear name ∉ Walk.edits into vs := by
  intro h
  obtain ⟨v, _, hv⟩ := List.mem_filterMap.mp h
  cases v <;> cases hv

/-- Nothing but a replacement that succeeds puts a new registry in the place of the old one. -/
theorem replaces_of_clear_mem {w : Workspace} {name target : String} {c : Change}
    (h : .clear name ∈ w.edits target c) : target = name ∧ ∃ files, c = .replace files
      ∧ (w.apply target c).reply = .ok .done := by
  -- A registry is cleared by a replacement, and only if all files were imported.
  cases c with
  | replace files =>
    rw [edits] at h
    cases hv : Walk.verdict (files.flatMap FileDecl.walk) with
    | ok u =>
      rw [hv] at h
      rcases List.mem_cons.mp h with heq | h
      · refine ⟨(Edit.clear.inj heq).symm, files, rfl, ?_⟩
        show (w.replaceRegistry target files).reply = _
        unfold replaceRegistry
        rw [Import.importFiles_follows files, hv]
        rfl
      · exact absurd h (clear_notMem_walk _ _ _)
    | error e =>
      rw [hv] at h
      exact absurd h (clear_notMem_walk _ _ _)
  | importFiles files => exact absurd h (clear_notMem_walk _ _ _)
  | importMessage path d => exact absurd h (clear_notMem_walk _ _ _)
  | buildMessage id path d =>
    rw [edits] at h
    cases hv : Walk.verdict (d.fields.map .field) <;> rw [hv] at h <;> simp at h
  | _ => simp [edits] at h

/-- Within the later session, no attempt to put a new registry in the place of the one of a name
succeeds. -/
def Retained (before later : List (String × Change)) (name : String) : Prop :=
  ∀ early files rest, later = early ++ (name, .replace files) :: rest →
    ((after (before ++ early)).apply name (.replace files)).reply ≠ .ok .done

/-- A registry that is not replaced is retained. -/
theorem retained_of_no_replacement (before : List (String × Change))
    {later : List (String × Change)} {name : String}
    (h : ∀ files, (name, .replace files) ∉ later) : Retained before later name := by
  intro early files rest heq
  refine absurd ?_ (h files)
  rw [heq]
  exact List.mem_append_right _ List.mem_cons_self

/-- A registry that is retained is continued. -/
theorem continues_after {before later : List (String × Change)} {name : String}
    (h : Retained before later name) :
    ((after before).registry name).Continues ((after (before ++ later)).registry name) := by
  induction later using List.reverseRecOn with
  | nil => rw [List.append_nil]; exact .refl _
  | append_singleton later c ih =>
    -- Retained to the end is retained up to the last change, which does not clear the registry
    -- either.
    have hearlier : Retained before later name := by
      intro early files rest heq
      refine h early files (rest ++ [c]) ?_
      rw [heq, List.append_assoc, List.cons_append]
    refine (ih hearlier).trans ?_
    have hnot : .clear name ∉ (after (before ++ later)).edits c.1 c.2 := by
      intro hmem
      obtain ⟨hname, files, hc, hreply⟩ := replaces_of_clear_mem hmem
      rw [hc, hname] at hreply
      refine h later files [] ?_ hreply
      rw [← hname, ← hc]
    have hstep := Contents.performAll_continues _ hnot (after (before ++ later)).contents
    rw [← contents_apply] at hstep
    rw [← List.append_assoc, after_append (before ++ later)]
    exact hstep

/-! ## In all later states -/

/-- From the end of a session on, and until the registry of a name is replaced, a handle into it
leads to the descriptor at a reference. -/
def StaysAt (before : List (String × Change)) (name : String) (h : Handle) (ref : Nat) : Prop :=
  ∀ later, Retained before later name →
    ((after (before ++ later)).registry name).follow h = .ok ref

/-- A handle in range stays with its message. -/
theorem staysAt_message {before : List (String × Change)} {name : String} {i ref : Nat}
    (hi : ((after before).registry name).messages.refs[i]? = some ref) :
    StaysAt before name (.message i) ref := fun _ h =>
  Catalog.follow_of_getElem? rfl (Catalog.getElem?_of_prefix (continues_after h).messages hi)

theorem staysAt_enum {before : List (String × Change)} {name : String} {i ref : Nat}
    (hi : ((after before).registry name).enums.refs[i]? = some ref) :
    StaysAt before name (.enum i) ref := fun _ h =>
  Catalog.follow_of_getElem? rfl (Catalog.getElem?_of_prefix (continues_after h).enums hi)

/-- The store evolves through what a session goes on with. -/
theorem evolves_after (before later : List (String × Change)) :
    (after before).store.Evolves (after (before ++ later)).store := by
  rw [after_append]
  exact evolves_run _ later

/-- What a field has been bound to it is bound to in all later states. -/
theorem bound_after {before : List (String × Change)} {ref i : Nat} {f : Field}
    (hf : (after before).store.field? ref i = some f) (ht : f.type.kind.isUnresolved = false)
    (later : List (String × Change)) :
    ∃ g, (after (before ++ later)).store.field? ref i = some g ∧ g.type = f.type := by
  obtain ⟨g, hg, hfg⟩ := (evolves_after before later).field? hf
  exact ⟨g, hg, hfg.type.eq_of_resolved ht⟩

theorem after_snoc (before : List (String × Change)) (name : String) (c : Change) :
    after (before ++ [(name, c)]) = ((after before).apply name c).workspace :=
  after_append before [(name, c)]

/-- A pass leaves the resolved field in the place of each field of a registered message. -/
theorem field?_resolve (w : Workspace) (name : String) {ref i : Nat} {f : Field}
    (href : ref ∈ (w.registry name).messages.toList) (hf : w.store.field? ref i = some f) :
    (w.apply name .resolve).workspace.store.field? ref i
      = some ((w.registry name).resolveField f) := by
  obtain ⟨m, hm, hi⟩ := Option.bind_eq_some_iff.mp hf
  show ((w.start name).resolve.store.message? ref >>= fun m => m.fields.items[i]?) = _
  have hm' : (w.start name).store.message? ref = some m := hm
  have href' : ref ∈ (w.start name).registry.messages.toList := href
  -- The message is registered, so the pass resolves it, field by field.
  rw [Progress.message?_resolve, if_pos href', hm']
  show (m.fields.items.map (w.registry name).resolveField)[i]? = _
  rw [Array.getElem?_map, hi]
  rfl

theorem registry_resolve (w : Workspace) (name : String) :
    (w.apply name .resolve).workspace.registry name = w.registry name := by
  show (w.finish name (w.start name).resolve).registry name = _
  rw [registry_finish, Progress.resolve_registry]
  rfl

/-- A field that a pass binds holds the position that the pass gave it from then on. -/
theorem type_after_resolve {before : List (String × Change)} {name : String} {ref i : Nat}
    {f : Field} {t : StoredType} (href : ref ∈ ((after before).registry name).messages.toList)
    (hf : (after before).store.field? ref i = some f)
    (ht : ((after before).registry name).resolved? f.type = some t)
    (later : List (String × Change)) :
    ∃ g, (after (before ++ [(name, .resolve)] ++ later)).store.field? ref i = some g
      ∧ g.type = t := by
  have hbound := field?_resolve (after before) name href hf
  rw [← after_snoc] at hbound
  -- The pass binds the field, and a bound field keeps its type.
  have htype : (((after before).registry name).resolveField f).type = t := by
    unfold Registry.resolveField
    rw [ht]
    rfl
  rw [← htype]
  exact bound_after hbound (by rw [htype]; exact Registry.isUnresolved_of_resolved? ht) later

/-- What a pass binds a reference to, it leads to from then on. -/
theorem view_after_resolve {before : List (String × Change)} {name : String} {ref i : Nat}
    {f : Field} {v : TypeView} (href : ref ∈ ((after before).registry name).messages.toList)
    (hf : (after before).store.field? ref i = some f) (ht : f.type.kind.isUnresolved = true)
    (hview : ((after before).registry name).view f.type = .ok v) (hv : v.isResolved = true)
    {later : List (String × Change)} (hlater : Retained (before ++ [(name, .resolve)]) later name) :
    let w' := after (before ++ (name, .resolve) :: later)
    ∃ g, w'.store.field? ref i = some g ∧ g.type.kind.isUnresolved = false
      ∧ (w'.registry name).view g.type = .ok v := by
  intro w'
  have hw' : w' = after (before ++ [(name, .resolve)] ++ later) := by
    rw [List.append_assoc]
    rfl
  have hcont := continues_after hlater
  rw [after_snoc, registry_resolve, ← hw'] at hcont
  -- The handle is the one that the view led to, and it stays in range.
  rcases Registry.bound_of_view hview ht hv with
    ⟨j, target, ht', hj, rfl⟩ | ⟨j, target, ht', hj, rfl⟩
  · obtain ⟨g, hg, hgt⟩ := type_after_resolve href hf ht' later
    rw [← hw'] at hg
    refine ⟨g, hg, by rw [hgt]; rfl, ?_⟩
    rw [hgt]
    exact Registry.view_message (Catalog.getElem?_of_prefix hcont.messages hj)
  · obtain ⟨g, hg, hgt⟩ := type_after_resolve href hf ht' later
    rw [← hw'] at hg
    refine ⟨g, hg, by rw [hgt]; rfl, ?_⟩
    rw [hgt]
    exact Registry.view_enum (Catalog.getElem?_of_prefix hcont.enums hj)

/-- The handle that registering a message gives leads to the message. -/
theorem staysAt_of_registerMessage {before : List (String × Change)} {name id : String}
    {h : Handle}
    (hreply : ((after before).apply name (.registerMessage id)).reply = .ok (.handle h)) :
    ∃ ref, (after before).messageRef? id = some ref
      ∧ StaysAt (before ++ [(name, .registerMessage id)]) name h ref := by
  have hsnoc := after_snoc before name (.registerMessage id)
  rw [apply, registerMessage] at hreply hsnoc
  cases href : (after before).messageRef? id with
  | none => rw [href] at hreply; cases hreply
  | some ref =>
    rw [href] at hreply hsnoc
    cases hreply
    -- The handle is the position at the end, where the message has just been put.
    refine ⟨ref, rfl, staysAt_message ?_⟩
    rw [hsnoc]
    show ((setRegistry _ name _).registry name).messages.refs[_]? = _
    rw [registry_setRegistry, if_pos rfl]
    exact Array.getElem?_push_size

theorem staysAt_of_registerEnum {before : List (String × Change)} {name id : String}
    {h : Handle} (hreply : ((after before).apply name (.registerEnum id)).reply = .ok (.handle h)) :
    ∃ ref, (after before).enumRef? id = some ref
      ∧ StaysAt (before ++ [(name, .registerEnum id)]) name h ref := by
  have hsnoc := after_snoc before name (.registerEnum id)
  rw [apply, registerEnum] at hreply hsnoc
  cases href : (after before).enumRef? id with
  | none => rw [href] at hreply; cases hreply
  | some ref =>
    rw [href] at hreply hsnoc
    cases hreply
    -- As for messages.
    refine ⟨ref, rfl, staysAt_enum ?_⟩
    rw [hsnoc]
    show ((setRegistry _ name _).registry name).enums.refs[_]? = _
    rw [registry_setRegistry, if_pos rfl]
    exact Array.getElem?_push_size

/--
**Handles keep their meaning, and what is bound stays bound.**

Take any session so far, and any registry in it. The handle that is given for a descriptor when it
is registered leads to that descriptor in every later state, as long as no new registry is put in
the place of this one; and so do the positions of whatever was registered earlier, by hand or by an
import. The type of a field that is no unresolved reference is never changed again, by any change of
any registry. And a reference of a registered message that has a target when the registry is
resolved is bound from then on, and its target stays the one that it had.

The later changes may be any that there are, also those that fail, those that register the same
names again, and those of other registries that have the same descriptors.
-/
theorem handles_stay (before : List (String × Change)) (name : String) :
    let w := after before
    let r := w.registry name
    (∀ id h, (w.apply name (.registerMessage id)).reply = .ok (.handle h) →
        ∃ ref, w.messageRef? id = some ref
          ∧ StaysAt (before ++ [(name, .registerMessage id)]) name h ref)
      ∧ (∀ id h, (w.apply name (.registerEnum id)).reply = .ok (.handle h) →
        ∃ ref, w.enumRef? id = some ref
          ∧ StaysAt (before ++ [(name, .registerEnum id)]) name h ref)
      ∧ (∀ (i ref : Nat), r.messages.refs[i]? = some ref → StaysAt before name (.message i) ref)
      ∧ (∀ (i ref : Nat), r.enums.refs[i]? = some ref → StaysAt before name (.enum i) ref)
      ∧ (∀ ref i f, w.store.field? ref i = some f → f.type.kind.isUnresolved = false →
        ∀ later, ∃ g, (after (before ++ later)).store.field? ref i = some g ∧ g.type = f.type)
      ∧ ∀ ref i f v, ref ∈ r.messages.toList → w.store.field? ref i = some f →
        f.type.kind.isUnresolved = true → r.view f.type = .ok v → v.isResolved = true →
        ∀ later, Retained (before ++ [(name, .resolve)]) later name →
          let w' := after (before ++ (name, .resolve) :: later)
          ∃ g, w'.store.field? ref i = some g ∧ g.type.kind.isUnresolved = false
            ∧ (w'.registry name).view g.type = .ok v := by
  intro w r
  exact ⟨fun _ _ => staysAt_of_registerMessage, fun _ _ => staysAt_of_registerEnum,
    fun _ _ => staysAt_message, fun _ _ => staysAt_enum, fun _ _ _ => bound_after,
    fun _ _ _ _ href hf ht hview hv _ => view_after_resolve href hf ht hview hv⟩

/-- A message that holds itself, made by hand. -/
def nodeSample : List (String × Change) :=
  let next : Field := ⟨"next", 1, .optional, .unresolvedMessage "Node", none, false⟩
  [("types", .newMessage "node" "Node"), ("types", .addField "node" next)]

theorem reply_nodeSample :
    ((after nodeSample).apply "types" (.registerMessage "node")).reply
      = .ok (.handle (.message 0)) := by
  simp [nodeSample, after, apply, registerMessage, addField, messageRef?, keepMessage, quietly,
    empty, Store.empty, registry, Registry.empty, Catalog.empty, Catalog.size]

theorem registered_nodeSample :
    let w := after (nodeSample ++ [("types", .registerMessage "node")])
    w.registry "types" = Registry.empty.addMessage "Node" 0
      ∧ w.store.field? 0 0
        = some ⟨"next", 1, .optional, .unresolvedMessage "Node", none, false⟩ := by
  simp [nodeSample, after, apply, addField, registerMessage, messageRef?, keepMessage, quietly,
    setRegistry, empty, registry, Store.empty, Store.addMessage, Store.updateMessage,
    Message.addField, Store.message?, Message.empty, Store.field?, Members.push, Members.empty]

/-- Another message takes over the name, but neither the handle nor the reference that was bound. -/
theorem handles_stay_nodeSample :
    let registered := nodeSample ++ [("types", .registerMessage "node")]
    let renewed := [("types", .newMessage "other" "Node"), ("types", .registerMessage "other")]
    let w := after (registered ++ ("types", .resolve) :: renewed)
    (∃ ref, (after nodeSample).messageRef? "node" = some ref
        ∧ StaysAt registered "types" (.message 0) ref)
      ∧ ∃ g, w.store.field? 0 0 = some g ∧ g.type.kind.isUnresolved = false
        ∧ (w.registry "types").view g.type = .ok (.ofMessage 0) := by
  intro registered renewed w
  obtain ⟨hregistry, hfield⟩ := registered_nodeSample
  refine ⟨(handles_stay nodeSample "types").1 "node" _ reply_nodeSample, ?_⟩
  refine (handles_stay registered "types").2.2.2.2.2 0 0 _ (.ofMessage 0) ?_ hfield rfl ?_ rfl
    renewed (retained_of_no_replacement _ ?_)
  · rw [hregistry]
    exact List.mem_cons_self
  · have hposition : (Registry.empty.addMessage "Node" 0).messages.position? "Node" = some 0 :=
      (Catalog.position?_add _ _ _ _).trans (if_pos rfl)
    have hfind : (Registry.empty.addMessage "Node" 0).messages.find? "Node" = some 0 :=
      Catalog.find?_of_position? hposition rfl
    rw [hregistry]
    simp [Registry.view, StoredType.unresolvedMessage, hfind]
  · intro files h
    simp [renewed] at h

end Workspace

end SchemaRegistry
