import SchemaRegistry.Proofs.Dangling
import SchemaRegistry.Proofs.Reimport
import SchemaRegistry.Proofs.Unseen

/-!
# The order of the files

Files refer to each other forwards, backwards and in circles, so there need not be an order in which
every name is there before it is used. But any order will do. In another one the descriptors stand
elsewhere and the handles are other numbers; yet as long as no name is declared twice, a name leads
to the same declaration, and all that is read of a registry goes by names (`import_any_order`).

What stands between the two registries is again what they present: without repetitions it does not
depend on the order which message is the last one of a name.
-/

namespace SchemaRegistry

/-- Where no name comes twice, the order of the list does not matter to a search from its end. -/
theorem find?_reverse_of_perm {α : Type} {name : α → String} {l l' : List α} (hl : l.Perm l')
    (h : (l.map name).Nodup) (n : String) :
    l.reverse.find? (fun a => name a = n) = l'.reverse.find? fun a => name a = n := by
  have h' : (l'.map name).Nodup := (hl.map name).nodup_iff.mp h
  ext a
  rw [find?_reverse_eq_some_iff h, find?_reverse_eq_some_iff h', hl.mem_iff]

/-- Two searches that fail together find something together. -/
theorem both_none_or_both_some {α β : Type} {x : Option α} {y : Option β}
    (h : x = none ↔ y = none) :
    (x = none ∧ y = none) ∨ ∃ a b, x = some a ∧ y = some b := by
  cases x with
  | none => exact Or.inl ⟨rfl, h.mp rfl⟩
  | some a =>
    obtain ⟨b, hb⟩ := Option.ne_none_iff_exists'.mp (mt h.mpr (Option.some_ne_none a))
    exact Or.inr ⟨a, b, rfl, hb⟩

/-! ## The same fields -/

namespace Progress

/-- The class and the name of what a handle leads to. -/
def pointsAt (p : Progress) : Handle → Option (Kind × String)
  | .message i => (p.registry.messages.at? i >>= p.store.messageName?).map fun n => (.message, n)
  | .enum i => (p.registry.enums.at? i >>= p.store.enumName?).map fun n => (.enum, n)

/-- A handle that the index hands out points at the message of its name. -/
theorem pointsAt_message {p : Progress} (hp : p.Fits) {n : String} {i : Nat}
    (hi : p.registry.messages.position? n = some i) :
    p.pointsAt (.message i) = some (.message, n) := by
  unfold pointsAt
  dsimp only
  rw [hp.messages.name_at hi]
  rfl

theorem pointsAt_enum {p : Progress} (hp : p.Fits) {n : String} {i : Nat}
    (hi : p.registry.enums.position? n = some i) :
    p.pointsAt (.enum i) = some (.enum, n) := by
  unfold pointsAt
  dsimp only
  rw [hp.enums.name_at hi]
  rfl

end Progress

/-- Read in the registries of `p` and `q`, the two fields are the same: in what a reader sees of
them, and in where their handles lead, if they have one. -/
structure Field.SameIn (p q : Progress) (f g : Field) : Prop where
  sight : ∃ v w, p.registry.view f.type = .ok v ∧ q.registry.view g.type = .ok w
    ∧ f.sight (p.typeSight v) = g.sight (q.typeSight w)
  handle : Option.Rel (fun h h' => ∃ target, p.pointsAt h = some target
    ∧ q.pointsAt h' = some target) f.type.handle g.type.handle

/-- The two messages have the same name and, in the same order, the same fields. -/
structure Message.SameIn (p q : Progress) (m m' : Message) : Prop where
  name : m.name = m'.name
  fields : List.Forall₂ (Field.SameIn p q) m.fields.toList m'.fields.toList

namespace Progress

variable {p q : Progress} {ms ms' : List Message} {es es' : List Enumeration}

namespace Presents

/-- Only the last declaration of each name matters. -/
theorem congr (h : Presents p ms es) (hm : ∀ n, lastNamed ms n = lastNamed ms' n)
    (he : ∀ n, lastEnumNamed es n = lastEnumNamed es' n) : Presents p ms' es' :=
  ⟨h.fits, fun n => by rw [← hm]; exact h.message n, fun n => by rw [← he]; exact h.enum n⟩

/-- Where the same is presented, the same names are known. -/
theorem position?_eq_none_iff (hp : Presents p ms es) (hq : Presents q ms es) {n : String} :
    p.registry.messages.position? n = none ↔ q.registry.messages.position? n = none := by
  rw [← hp.fits.messages.find?_eq_none_iff_position?, hp.find?_eq_none_iff,
    ← hq.find?_eq_none_iff, hq.fits.messages.find?_eq_none_iff_position?]

theorem position?_enum_eq_none_iff (hp : Presents p ms es) (hq : Presents q ms es) {n : String} :
    p.registry.enums.position? n = none ↔ q.registry.enums.position? n = none := by
  rw [← hp.fits.enums.find?_eq_none_iff_position?, ← hp.fits.enums.bind_eq_none_iff, hp.enum n,
    ← hq.enum n, hq.fits.enums.bind_eq_none_iff, hq.fits.enums.find?_eq_none_iff_position?]

/-- Where the same is presented, the same references are bound. -/
theorem warning?_eq (hp : Presents p ms es) (hq : Presents q ms es) (t : StoredType) :
    p.registry.warning? t = q.registry.warning? t := by
  -- Both registries know the same names, although at other positions.
  have hnone : p.registry.resolved? t = none ↔ q.registry.resolved? t = none := by
    unfold Registry.resolved?
    cases t.kind with
    | unresolvedMessage =>
      cases t.typeName with
      | none => exact Iff.rfl
      | some n =>
        rw [Option.map_eq_none_iff, Option.map_eq_none_iff]
        exact hp.position?_eq_none_iff hq
    | unresolvedEnum =>
      cases t.typeName with
      | none => exact Iff.rfl
      | some n =>
        rw [Option.map_eq_none_iff, Option.map_eq_none_iff]
        exact hp.position?_enum_eq_none_iff hq
    | _ => exact Iff.rfl
  -- A warning gives the name and not the position.
  unfold Registry.warning?
  rcases both_none_or_both_some hnone with ⟨hpt, hqt⟩ | ⟨t', t'', hpt, hqt⟩
  · rw [hpt, hqt]
  · rw [hpt, hqt]
    cases t.kind <;> rfl

/-- Both registries warn of the same fields. -/
theorem warnings_eq (hp : Presents p ms es) (hq : Presents q ms es) :
    p.registry.warnings = q.registry.warnings :=
  funext fun _ => List.filterMap_congr fun f _ => hp.warning?_eq hq f.type

/-- The handles that a reference has been bound to lead to the same name. -/
theorem handle_rel (hp : Presents p ms es) (hq : Presents q ms es) {f : Field}
    (hf : f.type.IsBuilt) :
    Option.Rel (fun h h' => ∃ target, p.pointsAt h = some target ∧ q.pointsAt h' = some target)
      (p.registry.resolveField f).type.handle (q.registry.resolveField f).type.handle := by
  -- The two handles are at different positions, but point to the registrations of one name.
  show Option.Rel _ ((p.registry.resolved? f.type).getD f.type).handle
    ((q.registry.resolved? f.type).getD f.type).handle
  generalize f.type = t at hf
  cases hf with
  | message n =>
    simp only [Registry.resolved?, StoredType.unresolvedMessage, Option.bind_eq_bind,
      Option.bind_some]
    rcases both_none_or_both_some (hp.position?_eq_none_iff hq (n := n)) with
      ⟨hi, hj⟩ | ⟨i, j, hi, hj⟩
    · rw [hi, hj]
      exact .none
    · rw [hi, hj]
      exact .some ⟨_, pointsAt_message hp.fits hi, pointsAt_message hq.fits hj⟩
  | enum n =>
    simp only [Registry.resolved?, StoredType.unresolvedEnum, Option.bind_eq_bind,
      Option.bind_some]
    rcases both_none_or_both_some (hp.position?_enum_eq_none_iff hq (n := n)) with
      ⟨hi, hj⟩ | ⟨i, j, hi, hj⟩
    · rw [hi, hj]
      exact .none
    · rw [hi, hj]
      exact .some ⟨_, pointsAt_enum hp.fits hi, pointsAt_enum hq.fits hj⟩
  | scalar k => exact .none

/-- **A field that was built is the same wherever the same is presented**, though the handle in it
may be another. -/
theorem sameIn_resolveField (hp : Presents p ms es) (hq : Presents q ms es) {f : Field}
    (hf : f.type.IsBuilt) :
    Field.SameIn p q (p.registry.resolveField f) (q.registry.resolveField f) where
  sight := by
    -- What is seen of a type depends on the names that are registered and on nothing else.
    obtain ⟨seen, target, hview⟩ := exists_typeSight ms es hf
    obtain ⟨v, hv, hseen, _⟩ := hview hp
    obtain ⟨w, hw, hseen', _⟩ := hview hq
    refine ⟨v, w, ?_, ?_, ?_⟩
    · rw [Registry.view_resolveField hp.fits, hv]
    · rw [Registry.view_resolveField hq.fits, hw]
    · rw [hseen, hseen']
      rfl
  handle := hp.handle_rel hq hf

/-- A message that is resolved in both registries is the same to a reader of either. -/
theorem sameIn_resolveMessage (hp : Presents p ms es) (hq : Presents q ms es) {m : Message}
    (hm : ∀ f ∈ m.fields.toList, f.type.IsBuilt) :
    Message.SameIn p q (p.registry.resolveMessage m) (q.registry.resolveMessage m) where
  name := rfl
  fields := by
    show List.Forall₂ _ (m.fields.map _).toList (m.fields.map _).toList
    rw [Members.toList_map, Members.toList_map, List.forall₂_map_left_iff,
      List.forall₂_map_right_iff, List.forall₂_same]
    exact fun f hf => hp.sameIn_resolveField hq (hm f hf)

end Presents

end Progress

/-! ## Files in another order -/

namespace FileDecl

variable {files files' : List FileDecl}

/-- The names that files declare are the same in any order of the files. -/
theorem messageNames_perm (h : files.Perm files') :
    (messageNames files).Perm (messageNames files') :=
  (h.flatMap_right _).map _

theorem enumNames_perm (h : files.Perm files') : (enumNames files).Perm (enumNames files') :=
  (h.flatMap_right _).map _

/-- The files have the same dangling references in any order. -/
theorem dangling_perm (h : files.Perm files') : (dangling files).Perm (dangling files') := by
  have hsame : ∀ (path : String) (d : MessageDecl),
      d.dangling (messageNames files) (enumNames files) path
        = d.dangling (messageNames files') (enumNames files') path := by
    intro path d
    refine congrArg _ (List.filter_congr fun fd _ => decide_eq_decide.mpr ?_)
    unfold FieldDecl.Dangles
    rw [(messageNames_perm h).mem_iff, (enumNames_perm h).mem_iff]
  unfold dangling
  simp only [hsame]
  exact (h.flatMap_right _).flatMap_right _

end FileDecl

/-- No order of the files brings a fault into them. -/
theorem Walk.verdict_perm {files files' : List FileDecl} (h : files.Perm files')
    (hok : Walk.verdict (files.flatMap FileDecl.walk) = .ok ()) :
    Walk.verdict (files'.flatMap FileDecl.walk) = .ok () :=
  Walk.verdict_eq_ok_iff.mpr fun v hv =>
    Walk.verdict_eq_ok_iff.mp hok v ((h.flatMap_right FileDecl.walk).mem_iff.mpr hv)

namespace Progress

variable {files files' : List FileDecl}

/-- A registry with nothing before presents the files imported into it. -/
theorem presents_importFiles (files : List FileDecl) :
    Presents (after [.importFiles files]) (messagesOf files) (enumsOf files) :=
  Repeats.presents ⟨by simp, by simp⟩

theorem appends_importFiles (files : List FileDecl) :
    Appends .empty (after [.importFiles files]) (messagesOf files) (enumsOf files) := by
  rw [show after [.importFiles files] = _ from Step.run_eq .empty (.importFiles files)]
  exact .performAll (Step.importFiles files).visits .empty

theorem messageList_importFiles (files : List FileDecl) :
    (after [.importFiles files]).registry.messageList (after [.importFiles files]).store
      = messagesOf files :=
  (appends_importFiles files).messages (Registry.fits_empty _)

theorem enumList_importFiles (files : List FileDecl) :
    (after [.importFiles files]).registry.enumList (after [.importFiles files]).store
      = enumsOf files :=
  (appends_importFiles files).enums (Registry.fits_empty _)

/-- Nothing is lost or renamed on the way into the registry. -/
theorem names_messagesOf (hok : Walk.verdict (files.flatMap FileDecl.walk) = .ok ()) :
    (messagesOf files).map Message.name = FileDecl.messageNames files := by
  rw [← messageNames_importFiles hok, messageNames, messageList_importFiles]

theorem names_enumsOf (hok : Walk.verdict (files.flatMap FileDecl.walk) = .ok ()) :
    (enumsOf files).map Enumeration.name = FileDecl.enumNames files := by
  rw [← enumNames_importFiles hok, enumNames, enumList_importFiles]

/-- The same visits are made in any order of the files. -/
theorem visits_perm (h : files.Perm files')
    (hok : Walk.verdict (files.flatMap FileDecl.walk) = .ok ()) :
    (Step.importFiles files).visits.Perm (Step.importFiles files').visits := by
  unfold Step.visits Step.walk
  rw [Walk.reached_eq_self hok, Walk.reached_eq_self (Walk.verdict_perm h hok)]
  exact h.flatMap_right _

/-- The messages are the same in any order of the files. -/
theorem messagesOf_perm (h : files.Perm files')
    (hok : Walk.verdict (files.flatMap FileDecl.walk) = .ok ()) :
    (messagesOf files).Perm (messagesOf files') :=
  (visits_perm h hok).flatMap_right _

theorem enumsOf_perm (h : files.Perm files')
    (hok : Walk.verdict (files.flatMap FileDecl.walk) = .ok ()) :
    (enumsOf files).Perm (enumsOf files') :=
  (visits_perm h hok).flatMap_right _

/-- What the files present they present in any order, if no name comes twice. -/
theorem presents_perm (h : files.Perm files')
    (hok : Walk.verdict (files.flatMap FileDecl.walk) = .ok ())
    (hm : (FileDecl.messageNames files).Nodup) (he : (FileDecl.enumNames files).Nodup) :
    Presents (after [.importFiles files']) (messagesOf files) (enumsOf files) := by
  rw [← names_messagesOf hok] at hm
  rw [← names_enumsOf hok] at he
  exact (presents_importFiles files').congr
    (fun n => (find?_reverse_of_perm (messagesOf_perm h hok) hm n).symm)
    (fun n => (find?_reverse_of_perm (enumsOf_perm h hok) he n).symm)

/-- Without repetitions, every registered message is the one that its name leads to. -/
theorem found_of_mem (hok : Walk.verdict (files.flatMap FileDecl.walk) = .ok ())
    (hm : (FileDecl.messageNames files).Nodup) {m : Message} :
    let p := after [.importFiles files, .resolve]
    m ∈ p.registry.messageList p.store →
      (p.registry.messages.find? m.name >>= p.store.message?) = some m := by
  intro p hmem
  have hp : p = (after [.importFiles files]).resolve := after_snoc [.importFiles files] .resolve
  rw [hp, resolve_registry, messageList_resolve, messageList_importFiles] at hmem
  obtain ⟨built, hbuilt, rfl⟩ := List.mem_map.mp hmem
  -- With unique names the last message of a name is the only one.
  rw [← names_messagesOf hok] at hm
  have hlast : lastNamed (messagesOf files) built.name = some built :=
    (find?_reverse_eq_some_iff hm).mpr ⟨hbuilt, rfl⟩
  rw [hp, Registry.resolveMessage_name, (presents_importFiles files).found_resolve, hlast]
  rfl

/--
**Files may be imported in any order.**

Let an import of files into an empty registry succeed, and let them declare no message name twice
and no enum name twice. Then they can be imported in any other order as well. When both registries
are resolved, a name leads in both to a message or in neither; the messages have the same fields in
the same order, which differ at most in the handles that they store, and these lead to descriptors
of the same class and name. In each registry all messages that are registered are found in this way.
A name leads to the same enum in both, and the references that dangle and the warnings of the pass
are the same up to their order.
-/
theorem import_any_order (files files' : List FileDecl) (h : files.Perm files')
    (hok : ((Import.importFiles files).outcome .empty).1 = .ok ())
    (hm : (FileDecl.messageNames files).Nodup) (he : (FileDecl.enumNames files).Nodup) :
    let p := after [.importFiles files, .resolve]
    let q := after [.importFiles files', .resolve]
    ((Import.importFiles files').outcome .empty).1 = .ok ()
      ∧ (∀ n, Option.Rel (Message.SameIn p q) (p.registry.messages.find? n >>= p.store.message?)
          (q.registry.messages.find? n >>= q.store.message?))
      ∧ (∀ n, (p.registry.enums.find? n >>= p.store.enum?)
          = (q.registry.enums.find? n >>= q.store.enum?))
      ∧ (∀ m ∈ p.registry.messageList p.store,
          (p.registry.messages.find? m.name >>= p.store.message?) = some m)
      ∧ (∀ m ∈ q.registry.messageList q.store,
          (q.registry.messages.find? m.name >>= q.store.message?) = some m)
      ∧ (∃ ds ds', p.registry.dangling p.store = .ok ds ∧ q.registry.dangling q.store = .ok ds'
          ∧ ds.Perm ds')
      ∧ ∃ ws ws', p.events.toList = (after [.importFiles files]).events.toList ++ ws
          ∧ q.events.toList = (after [.importFiles files']).events.toList ++ ws' ∧ ws.Perm ws' := by
  intro p q
  have hverdict := ((Import.importFiles_follows files).outcome_eq_ok_iff .empty).mp hok
  have hverdict' := Walk.verdict_perm h hverdict
  have hp := presents_importFiles files
  have hq := presents_perm h hverdict hm he
  have hpr : p = (after [.importFiles files]).resolve := after_snoc [.importFiles files] .resolve
  have hqr : q = (after [.importFiles files']).resolve := after_snoc [.importFiles files'] .resolve
  refine ⟨?_, fun n => ?_, fun n => ?_, fun m => ?_, fun m => ?_, ?_, ?_⟩
  -- The other order succeeds too, since a fault is a fault in every order.
  · exact ((Import.importFiles_follows files').outcome_eq_ok_iff .empty).mpr hverdict'
  -- Look-ups by name.
  · rw [hpr, hqr, hp.found_resolve, hq.found_resolve]
    cases hlast : lastNamed (messagesOf files) n with
    | none => exact .none
    | some m =>
      refine .some ?_
      have hsame := hp.resolve.sameIn_resolveMessage hq.resolve (m := m)
        (built_of_visits _ m (List.mem_reverse.mp (List.mem_of_find?_eq_some hlast)))
      rwa [resolve_registry, resolve_registry] at hsame
  · rw [hpr, hqr, hp.resolve.enum n, hq.resolve.enum n]
  -- Each registered message is the one that is found under its name.
  · exact found_of_mem hverdict hm
  · exact found_of_mem hverdict' ((FileDecl.messageNames_perm h).nodup_iff.mp hm)
  -- The dangling fields, and the warnings of the pass.
  · refine ⟨_, _, ?_, ?_, FileDecl.dangling_perm h⟩
    · rw [hpr, dangling_resolve hp.fits]
      exact dangling_importFiles hverdict
    · rw [hqr, dangling_resolve hq.fits]
      exact dangling_importFiles hverdict'
  · refine ⟨_, _, by rw [hpr]; exact events_resolve _, by rw [hqr]; exact events_resolve _, ?_⟩
    rw [messageList_importFiles, messageList_importFiles, hp.warnings_eq hq]
    exact (messagesOf_perm h hverdict).flatMap_right _

/-- A file that refers to the message of the other one, and to a type that neither declares. -/
def leftSample : FileDecl :=
  let field (name typeName : String) (number type : Int) : FieldDecl := { FieldDecl.empty with
    name := some name, number := some number, type := some type, typeName := some typeName }
  { FileDecl.empty with
    messages := [{ MessageDecl.empty with
      name := some "Left"
      fields := [field "right" ".Right" 1 11, field "color" ".Color" 2 14,
        field "lost" ".Lost" 3 11] }] }

/-- A file that refers to the message of the other one. -/
def rightSample : FileDecl where
  name := some "right.proto"
  package := none
  messages := [{ MessageDecl.empty with
    name := some "Right"
    fields := [{ FieldDecl.empty with
      name := some "left", number := some 1, type := some 11, typeName := some ".Left" }] }]
  enums := [⟨some "Color", [⟨some "RED", some 0⟩]⟩]

/-- Two files that refer to each other, in either order. -/
theorem import_any_order_leftSample :
    let files := [leftSample, rightSample]
    let p := after [.importFiles files, .resolve]
    let q := after [.importFiles files.reverse, .resolve]
    files.Perm files.reverse
      ∧ ((Import.importFiles files).outcome .empty).1 = .ok ()
      ∧ FileDecl.messageNames files = [".Left", ".Right"]
      ∧ FileDecl.messageNames files.reverse = [".Right", ".Left"]
      ∧ FileDecl.enumNames files = [".Color"]
      ∧ Option.Rel (Message.SameIn p q) (p.registry.messages.find? ".Left" >>= p.store.message?)
          (q.registry.messages.find? ".Left" >>= q.store.message?) := by
  intro files p q
  have hperm : files.Perm files.reverse := (List.reverse_perm files).symm
  have hok : ((Import.importFiles files).outcome .empty).1 = .ok () := rfl
  have hnames : FileDecl.messageNames files = [".Left", ".Right"] := by decide
  have henums : FileDecl.enumNames files = [".Color"] := by decide
  refine ⟨hperm, hok, hnames, by decide, henums, ?_⟩
  exact (import_any_order files files.reverse hperm hok (by rw [hnames]; decide)
    (by rw [henums]; decide)).2.1 ".Left"

end Progress

end SchemaRegistry
