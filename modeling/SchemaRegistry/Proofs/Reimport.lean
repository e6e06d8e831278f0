import SchemaRegistry.Proofs.Sight
import SchemaRegistry.Proofs.Timing

/-!
# Importing the same files again

A second import of the same files registers every name anew. The descriptors of the first are still
there, and references that were bound in between still lead to them; but they have become stale, and
no walk that starts from a name comes to a stale one. The reason is that what a name leads to was
built by the last import, and later passes bind its fields by what the names lead to now. So what a
name leads to is, up to these passes, decided by the files alone (`Presents`), and walks that agree
on a name take the same course from there (`reimport_unseen`).
-/

namespace SchemaRegistry

/-- The last of the messages that has the name. -/
def lastNamed (ms : List Message) (n : String) : Option Message :=
  ms.reverse.find? fun m => m.name = n

/-- The last enum of a name. -/
def lastEnumNamed (es : List Enumeration) (n : String) : Option Enumeration :=
  es.reverse.find? fun e => e.name = n

/-- If all names come again, it is as if there were no earlier ones. -/
theorem find?_reverse_append {α : Type} {name : α → String} {old new : List α}
    (h : ∀ n ∈ old.map name, n ∈ new.map name) (n : String) :
    (old ++ new).reverse.find? (fun a => name a = n) = new.reverse.find? fun a => name a = n := by
  rw [List.reverse_append, List.find?_append]
  cases hnew : new.reverse.find? fun a => name a = n with
  | some a => rfl
  | none =>
    rw [Option.none_or, List.find?_eq_none]
    -- An old name that is not among the new ones would break the assumption.
    intro a ha hname
    obtain ⟨b, hb, hbn⟩ := List.mem_map.mp (h (name a)
      (List.mem_map_of_mem (List.mem_reverse.mp ha)))
    refine List.find?_eq_none.mp hnew b (List.mem_reverse.mpr hb) ?_
    rw [hbn]
    exact hname

namespace Members

variable {α : Type}

theorem findNumber?_map (ms : Members α) (f : α → α) (number : Int) :
    (ms.map f).findNumber? number = (ms.findNumber? number).map f := by
  unfold findNumber? map
  cases ms.byNumber[number]? with
  | none => rfl
  | some i => exact Array.getElem?_map

/-- A field that is found is one of the fields. -/
theorem mem_of_findNumber? {ms : Members α} {number : Int} {a : α}
    (h : ms.findNumber? number = some a) : a ∈ ms.toList := by
  obtain ⟨i, _, hi⟩ := Option.bind_eq_some_iff.mp h
  exact Array.mem_toList_iff.mpr (Array.mem_of_getElem? hi)

end Members

/-- The type is as an import builds it: a name of a message, a name of an enum, or a type that
stands for itself. -/
inductive StoredType.IsBuilt : StoredType → Prop where
  | message (n : String) : IsBuilt (.unresolvedMessage n)
  | enum (n : String) : IsBuilt (.unresolvedEnum n)
  | scalar (k : Scalar) : IsBuilt (.scalar k)

theorem StoredType.isBuilt_of_ofNumber? {number : Int} {name : String} {t : StoredType}
    (h : ofNumber? number name = some t) : t.IsBuilt := by
  rcases ofNumber?_eq_some h with ⟨_, rfl⟩ | ⟨_, rfl⟩ | ⟨k, _, rfl⟩
  · exact .message name
  · exact .enum name
  · exact .scalar k

/-- The type of a field that was just built has no handle yet. -/
theorem FieldDecl.isBuilt_of_field? {d : FieldDecl} {f : Field} (h : d.field? = some f) :
    f.type.IsBuilt := by
  unfold field? at h
  cases hd : Field.ofDecl d with
  | error e => rw [hd] at h; cases h
  | ok fe =>
    rw [hd] at h
    cases h
    exact StoredType.isBuilt_of_ofNumber? (Field.declared_of_ofDecl hd).type

/-! ## What names lead to -/

namespace Progress

/-- Looking a name up finds the message of that name that was registered last. -/
theorem find?_message {p : Progress} (hp : p.Fits) (n : String) :
    (p.registry.messages.find? n >>= p.store.message?)
      = lastNamed (p.registry.messageList p.store) n :=
  hp.messages.find?_bind n

theorem find?_enum {p : Progress} (hp : p.Fits) (n : String) :
    (p.registry.enums.find? n >>= p.store.enum?)
      = lastEnumNamed (p.registry.enumList p.store) n :=
  hp.enums.find?_bind n

/-- Names lead to the last of these messages and enums that has them, except that fields may have
been resolved. -/
structure Presents (p : Progress) (ms : List Message) (es : List Enumeration) : Prop where
  fits : p.Fits
  message : ∀ n, (p.registry.messages.find? n >>= p.store.message?).map p.registry.resolveMessage
    = (lastNamed ms n).map p.registry.resolveMessage
  enum : ∀ n, (p.registry.enums.find? n >>= p.store.enum?) = lastEnumNamed es n

namespace Presents

variable {p q : Progress} {ms : List Message} {es : List Enumeration}

/-- An import presents what it registers, provided that it registers all names anew. -/
theorem of_visits (hp : p.Fits) (vs : List Visit)
    (hm : ∀ n ∈ p.messageNames, n ∈ (vs.flatMap Visit.messages).map Message.name)
    (he : ∀ n ∈ p.enumNames, n ∈ (vs.flatMap Visit.enums).map Enumeration.name) :
    Presents (vs.foldl Visit.perform p) (vs.flatMap Visit.messages) (vs.flatMap Visit.enums) := by
  have hfits := (leads_performAll vs p).fits hp
  have happ := Appends.performAll vs p
  refine ⟨hfits, fun n => congrArg _ ?_, fun n => ?_⟩
  · rw [find?_message hfits, happ.messages hp]
    exact find?_reverse_append hm n
  · rw [find?_enum hfits, happ.enums hp]
    exact find?_reverse_append he n

/-- A resolved registry leads from a name to what was built under it, resolved. -/
theorem found_resolve (h : Presents p ms es) (n : String) :
    (p.resolve.registry.messages.find? n >>= p.resolve.store.message?)
      = (lastNamed ms n).map p.registry.resolveMessage := by
  rw [resolve_registry, ← h.message n]
  cases hfind : p.registry.messages.find? n with
  | none => rfl
  | some ref =>
    obtain ⟨i, _, href⟩ := Option.bind_eq_some_iff.mp hfind
    show p.resolve.store.message? ref = (p.store.message? ref).map _
    rw [message?_resolve, if_pos (Catalog.mem_of_getElem? href)]

/-- A pass changes nothing but what is left open here. -/
theorem resolve (h : Presents p ms es) : Presents p.resolve ms es := by
  refine ⟨(leads_resolve p).fits h.fits, fun n => ?_, fun n => ?_⟩
  · rw [h.found_resolve, resolve_registry, Option.map_map, Registry.resolveMessage_comp_self]
  · rw [resolve_registry, ← h.enum n]
    unfold Store.enum?
    rw [resolve_enums]

/-! ### What is seen on the way -/

/-- A name leads nowhere if and only if no message has it. -/
theorem find?_eq_none_iff (h : Presents p ms es) {n : String} :
    p.registry.messages.find? n = none ↔ lastNamed ms n = none := by
  rw [← h.fits.messages.bind_eq_none_iff, ← Option.map_eq_none_iff, h.message n,
    Option.map_eq_none_iff]

theorem find?_enum_eq_none (h : Presents p ms es) {n : String}
    (he : lastEnumNamed es n = none) : p.registry.enums.find? n = none :=
  h.fits.enums.bind_eq_none_iff.mp ((h.enum n).trans he)

/-- The fields of the message that a name leads to look as they were built. -/
theorem look_eq (h : Presents p ms es) {n : String} {ref : Nat}
    (hfind : p.registry.messages.find? n = some ref) (k : Int) :
    p.look ref k = p.lookAt k (lastNamed ms n >>= fun m => m.fields.findNumber? k) := by
  have hfields : ∀ m? : Option Message,
      (m?.map p.registry.resolveMessage >>= fun m => m.fields.findNumber? k)
        = (m? >>= fun m => m.fields.findNumber? k).map p.registry.resolveField := by
    intro m?
    cases m? with
    | none => rfl
    | some m => exact Members.findNumber?_map m.fields p.registry.resolveField k
  have hmessage := h.message n
  rw [hfind] at hmessage
  -- Only resolved messages are known to be equal, so both sides are looked at as if resolved.
  calc p.look ref k
      = p.lookAt k (((some ref >>= p.store.message?).map p.registry.resolveMessage)
          >>= fun m => m.fields.findNumber? k) := by
        rw [hfields, lookAt_resolveField h.fits]
        rfl
    _ = p.lookAt k ((lastNamed ms n).map p.registry.resolveMessage
          >>= fun m => m.fields.findNumber? k) := by rw [hmessage]
    _ = _ := by rw [hfields, lookAt_resolveField h.fits]

/-- A message that is presented can be looked up, and under its own name. -/
theorem exists_find? (h : Presents p ms es) {n : String} {m : Message}
    (hm : lastNamed ms n = some m) :
    ∃ ref, p.registry.messages.find? n = some ref ∧ p.store.messageName? ref = some n := by
  cases hfind : p.registry.messages.find? n with
  | none => rw [h.find?_eq_none_iff.mp hfind] at hm; cases hm
  | some ref => exact ⟨ref, rfl, h.fits.messages.name_of_find? hfind⟩

/-- What is seen of a type that was built, and the name to which it leads, is the same wherever the
same is presented. -/
theorem exists_typeSight (ms : List Message) (es : List Enumeration) {t : StoredType}
    (ht : t.IsBuilt) :
    ∃ seen target, ∀ {p : Progress}, Presents p ms es → ∃ v, p.registry.view t = .ok v
      ∧ p.typeSight v = seen ∧ v.message = target >>= p.registry.messages.find? := by
  cases ht with
  | message n =>
    -- Whether the name leads anywhere is a matter of what is presented, not of `p`.
    cases hm : lastNamed ms n with
    | some m =>
      refine ⟨⟨.message, some n, none, none⟩, some n, fun {p} h => ?_⟩
      obtain ⟨ref, hfind, hname⟩ := h.exists_find? hm
      refine ⟨.ofMessage ref, ?_, congrArg (TypeSight.mk _ · none none) hname, hfind.symm⟩
      simp [Registry.view, StoredType.unresolvedMessage, hfind]
    | none =>
      refine ⟨⟨.unresolvedMessage, none, none, some n⟩, none, fun {p} h => ?_⟩
      refine ⟨.bare .unresolvedMessage (some n), ?_, rfl, rfl⟩
      simp [Registry.view, StoredType.unresolvedMessage, h.find?_eq_none_iff.mpr hm]
  | enum n =>
    cases he : lastEnumNamed es n with
    | some e =>
      refine ⟨⟨.enum, none, some (e.name, e.values.toList), none⟩, none, fun {p} h => ?_⟩
      obtain ⟨ref, hfind, hget⟩ := Option.bind_eq_some_iff.mp ((h.enum n).trans he)
      refine ⟨.ofEnum ref, ?_, ?_, rfl⟩
      · simp [Registry.view, StoredType.unresolvedEnum, hfind]
      · show TypeSight.mk _ _ ((p.store.enum? ref).map _) _ = _
        rw [hget]
        rfl
    | none =>
      refine ⟨⟨.unresolvedEnum, none, none, some n⟩, none, fun {p} h => ?_⟩
      refine ⟨.bare .unresolvedEnum (some n), ?_, rfl, rfl⟩
      simp [Registry.view, StoredType.unresolvedEnum, h.find?_enum_eq_none he]
  | scalar k => exact ⟨⟨.scalar k, none, none, none⟩, none, fun h => ⟨_, rfl, rfl, rfl⟩⟩

end Presents

/-! ## Walks -/

variable {p q : Progress} {ms : List Message} {es : List Enumeration}

/-- All types in the messages are as an import builds them. -/
def AllBuilt (ms : List Message) : Prop := ∀ m ∈ ms, ∀ f ∈ m.fields.toList, f.type.IsBuilt

/-- A field that is found was built as all fields are. -/
theorem built_of_findNumber? (hms : AllBuilt ms) {n : String} {k : Int} {f : Field}
    (h : (lastNamed ms n >>= fun m => m.fields.findNumber? k) = some f) : f.type.IsBuilt := by
  obtain ⟨m, hm, hf⟩ := Option.bind_eq_some_iff.mp h
  exact hms m (List.mem_reverse.mp (List.mem_of_find?_eq_some hm)) f (Members.mem_of_findNumber? hf)

/-- What is seen under a number of the message that a name leads to, and the name to which that
leads on, is the same wherever the same is presented. -/
theorem exists_look (hms : AllBuilt ms) (es : List Enumeration) (n : String) (k : Int) :
    ∃ seen : Except Obstacle (Sight × Option String), ∀ {p : Progress} {ref : Nat},
      Presents p ms es → p.registry.messages.find? n = some ref →
        p.look ref k = seen.map fun st => (st.1, st.2 >>= p.registry.messages.find?) := by
  cases hf : lastNamed ms n >>= fun m => m.fields.findNumber? k with
  | none =>
    -- What is found under a number depends on the messages alone, whatever their references are.
    refine ⟨.error (.noField k), fun {p ref} h hfind => ?_⟩
    rw [h.look_eq hfind, hf]
    rfl
  | some f =>
    obtain ⟨type, target, hview⟩ :=
      Presents.exists_typeSight ms es (built_of_findNumber? hms hf)
    refine ⟨.ok (f.sight type, target), fun {p ref} h hfind => ?_⟩
    obtain ⟨v, hv, rfl, hnext⟩ := hview h
    rw [h.look_eq hfind, hf, lookAt, hv]
    dsimp only
    rw [hnext]
    rfl

/-- From the same name, the same numbers lead to the same sight in both workspaces. -/
theorem walkFrom_eq (hms : AllBuilt ms) (hp : Presents p ms es) (hq : Presents q ms es)
    (target : Option String) (ks : List Int) :
    p.walkFrom (target >>= p.registry.messages.find?) ks
      = q.walkFrom (target >>= q.registry.messages.find?) ks := by
  induction ks generalizing target with
  | nil => rw [walkFrom, walkFrom]
  | cons k ks ih =>
    -- Both walks are at the message of the same name, though at different references.
    cases target with
    | none => rfl
    | some n =>
      show p.walkFrom (p.registry.messages.find? n) _ = q.walkFrom (q.registry.messages.find? n) _
      cases hm : lastNamed ms n with
      | none => rw [hp.find?_eq_none_iff.mpr hm, hq.find?_eq_none_iff.mpr hm, walkFrom, walkFrom]
      | some m =>
        obtain ⟨ref, hfind, _⟩ := hp.exists_find? hm
        obtain ⟨ref', hfind', _⟩ := hq.exists_find? hm
        obtain ⟨seen, hseen⟩ := exists_look hms es n k
        rw [hfind, hfind', walkFrom, walkFrom, hseen hp hfind, hseen hq hfind']
        cases seen with
        | error e => rfl
        | ok st => exact congrArg (Except.map _) (ih st.2)

/-- **Walks depend only on what is presented.** -/
theorem walk_eq (hms : AllBuilt ms) (hp : Presents p ms es) (hq : Presents q ms es) (n : String)
    (ks : List Int) : p.walk n ks = q.walk n ks := by
  -- The walk starts from a name, which both know or neither does.
  have hwalk : p.walkFrom (p.registry.messages.find? n) ks
      = q.walkFrom (q.registry.messages.find? n) ks := walkFrom_eq hms hp hq (some n) ks
  unfold walk
  cases hm : lastNamed ms n with
  | none => rw [hp.find?_eq_none_iff.mpr hm, hq.find?_eq_none_iff.mpr hm]
  | some m =>
    obtain ⟨ref, hfind, _⟩ := hp.exists_find? hm
    obtain ⟨ref', hfind', _⟩ := hq.exists_find? hm
    rw [hfind, hfind'] at hwalk ⊢
    exact hwalk

/-- Whatever a walk comes to, a name leads to it. -/
theorem exists_name_of_reaches (hms : AllBuilt ms) (hp : Presents p ms es) {ref : Nat}
    (h : p.Reaches ref) : ∃ n, p.registry.messages.find? n = some ref := by
  induction h with
  | name h => exact ⟨_, h⟩
  | @field ref next k s _ hk ih =>
    obtain ⟨n, hfind⟩ := ih
    obtain ⟨seen, hseen⟩ := exists_look hms es n k
    rw [hseen hp hfind] at hk
    cases seen with
    | error e => cases hk
    | ok st =>
      have hnext : (st.2 >>= p.registry.messages.find?) = some next :=
        congrArg Prod.snd (Except.ok.inj hk)
      obtain ⟨n', _, hn'⟩ := Option.bind_eq_some_iff.mp hnext
      exact ⟨n', hn'⟩

/-- **No walk comes to a stale message.** -/
theorem live_of_reaches (hms : AllBuilt ms) (hp : Presents p ms es) {ref : Nat}
    (h : p.Reaches ref) :
    ∃ m, p.store.message? ref = some m ∧ p.registry.messages.find? m.name = some ref := by
  obtain ⟨n, hfind⟩ := exists_name_of_reaches hms hp h
  obtain ⟨m, hm, rfl⟩ := Option.map_eq_some_iff.mp (hp.fits.messages.name_of_find? hfind)
  exact ⟨m, hm, hfind⟩

/-! ## Histories that import the same files -/

/-- Every message of a walk has the types its fields were built with. -/
theorem built_of_visits (vs : List Visit) : AllBuilt (vs.flatMap Visit.messages) := by
  intro m hm f hf
  rw [Visit.flatMap_messages] at hm
  obtain ⟨pd, _, rfl⟩ := List.mem_map.mp hm
  rw [MessageDecl.descriptor, Members.toList_ofList] at hf
  obtain ⟨d, _, hd⟩ := List.mem_filterMap.mp hf
  exact d.isBuilt_of_field? hd

/-- What an import of the files registers, as far as it gets. -/
def messagesOf (fs : List FileDecl) : List Message :=
  (Step.importFiles fs).visits.flatMap Visit.messages

/-- The enums that an import of the files registers. -/
def enumsOf (fs : List FileDecl) : List Enumeration :=
  (Step.importFiles fs).visits.flatMap Visit.enums

/-- No names come up but those of the files, and each import presents them as the first did. -/
theorem presents_after {fs : List FileDecl} {steps : List Step}
    (h : ∀ s ∈ steps, s = .importFiles fs ∨ s = .resolve) :
    (∀ n ∈ (after steps).messageNames, n ∈ (messagesOf fs).map Message.name)
      ∧ (∀ n ∈ (after steps).enumNames, n ∈ (enumsOf fs).map Enumeration.name)
      ∧ (.importFiles fs ∈ steps → Presents (after steps) (messagesOf fs) (enumsOf fs)) := by
  induction steps using List.reverseRecOn with
  | nil => exact ⟨nofun, nofun, nofun⟩
  | append_singleton steps s ih =>
    obtain ⟨hm, he, hpresents⟩ := ih fun s hs => h s (List.mem_append_left _ hs)
    have hfit := fits_after steps
    rw [after_snoc]
    rcases h s (List.mem_append_right _ List.mem_cons_self) with rfl | rfl
    · -- Whatever was presented before, all its names are registered anew.
      have happ := Appends.performAll (Step.importFiles fs).visits (after steps)
      have hrun : (Step.importFiles fs).run (after steps)
          = (Step.importFiles fs).visits.foldl Visit.perform (after steps) := Step.run_eq _ _
      rw [hrun]
      refine ⟨fun n hn => ?_, fun n hn => ?_, fun _ => .of_visits hfit _ hm he⟩
      · rw [messageNames, happ.messages hfit, List.map_append, List.mem_append] at hn
        exact hn.elim (hm n) id
      · rw [enumNames, happ.enums hfit, List.map_append, List.mem_append] at hn
        exact hn.elim (he n) id
    · refine ⟨fun n hn => hm n ?_, fun n hn => he n ?_, fun hs => (hpresents ?_).resolve⟩
      · rw [Step.run, messageNames, resolve_registry, messageList_resolve, List.map_map] at hn
        exact hn
      · rw [Step.run, enumNames, resolve_registry, enumList_resolve] at hn
        exact hn
      · rcases List.mem_append.mp hs with hs | hs
        · exact hs
        · cases List.mem_singleton.mp hs

/-- The history imports these files, once or more often, and nothing else. -/
structure Repeats (fs : List FileDecl) (steps : List Step) : Prop where
  only : ∀ s ∈ steps, s = .importFiles fs ∨ s = .resolve
  once : .importFiles fs ∈ steps

/-- However often the files are imported, one import of them is what is seen. -/
theorem Repeats.presents {fs : List FileDecl} {steps : List Step} (h : Repeats fs steps) :
    Presents (after steps) (messagesOf fs) (enumsOf fs) :=
  (presents_after h.only).2.2 h.once

/--
**Importing the same files again goes unseen.**

Import files into an empty registry and resolve it; and import them any number of times, with
passes anywhere in between, and resolve that. From every name and along every list of field numbers,
a walk then succeeds in both or meets the same obstacle in both, and it has the same sights: the
fields with their numbers, labels and defaults, and the names and values of what they refer to. And
every message that a walk comes to is the one that its name leads to, so none of those from earlier
imports. It makes no difference whether the files can be imported to their end.
-/
theorem reimport_unseen (fs : List FileDecl) (steps : List Step) (h : Repeats fs steps) :
    let once := after [.importFiles fs, .resolve]
    let again := after (steps ++ [.resolve])
    (∀ n ks, once.walk n ks = again.walk n ks)
      ∧ (∀ ref, once.Reaches ref → ∃ m, once.store.message? ref = some m
        ∧ once.registry.messages.find? m.name = some ref)
      ∧ ∀ ref, again.Reaches ref → ∃ m, again.store.message? ref = some m
        ∧ again.registry.messages.find? m.name = some ref := by
  intro once again
  have hbuilt : AllBuilt (messagesOf fs) := built_of_visits _
  -- One import and many present the same messages, hence the same walks.
  have honce : Presents once (messagesOf fs) (enumsOf fs) :=
    Repeats.presents ⟨by simp, by simp⟩
  have hagain : Presents again (messagesOf fs) (enumsOf fs) := by
    rw [show again = (after steps).resolve from after_snoc steps .resolve]
    exact h.presents.resolve
  exact ⟨walk_eq hbuilt honce hagain, fun ref => live_of_reaches hbuilt honce,
    fun ref => live_of_reaches hbuilt hagain⟩

/-- A message that holds itself, and whose name is declared twice. -/
def loopSample : FileDecl :=
  let node : MessageDecl := { MessageDecl.empty with
    name := some "Node"
    fields := [{ FieldDecl.empty with
      name := some "next", number := some 1, type := some 11, typeName := some ".Node" }] }
  { FileDecl.empty with messages := [{ node with fields := [] }, node] }

theorem reimport_unseen_loopSample :
    let steps := [.importFiles [loopSample], .resolve, .importFiles [loopSample]]
    Repeats [loopSample] steps
      ∧ (after (steps ++ [.resolve])).messageNames = [".Node", ".Node", ".Node", ".Node"]
      ∧ (after [.importFiles [loopSample], .resolve]).walk ".Node" [1, 1, 1]
          = (after (steps ++ [.resolve])).walk ".Node" [1, 1, 1] := by
  intro steps
  have h : Repeats [loopSample] steps := ⟨by simp [steps], by simp [steps]⟩
  exact ⟨h, (names_after _).1.trans rfl, (reimport_unseen [loopSample] steps h).1 ".Node" [1, 1, 1]⟩

end Progress

end SchemaRegistry
