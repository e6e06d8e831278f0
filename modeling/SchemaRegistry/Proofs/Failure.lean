import SchemaRegistry.Proofs.Route

/-!
# What a failed import leaves behind

An import builds a message before it goes into it and registers it when it comes out. So a field
that cannot be built, in some message `m`, cuts two orders at once: the messages come to before `m`
are those in front of it in pre-order, and of these the ones around `m` have not been registered
yet.

`failed_import_leaves_prefix` says what this comes to. The rest of the registry's state is the same
for all imports, failed or not, and is said once by `adds_importFiles`.
-/

namespace SchemaRegistry

/-! ## What an import adds, wherever it ends -/

namespace Workspace

/-- From `w` to `w'` the registry of a name has been given these messages and enums. What was there
is in its old place and as it was, and names lead to the last of what they stand for. -/
structure Adds (w w' : Workspace) (name : String) (ms : List Message) (es : List Enumeration) :
    Prop where
  messages : (w'.registry name).messageList w'.store = (w.registry name).messageList w.store ++ ms
  enums : (w'.registry name).enumList w'.store = (w.registry name).enumList w.store ++ es
  messageRefs : (w.registry name).messages.toList <+: (w'.registry name).messages.toList
  enumRefs : (w.registry name).enums.toList <+: (w'.registry name).enums.toList
  kept : w.store.Keeps w'.store
  findMessage : ∀ n, ((w'.registry name).messages.find? n >>= w'.store.message?)
    = ((w'.registry name).messageList w'.store).reverse.find? fun m => m.name = n
  findEnum : ∀ n, ((w'.registry name).enums.find? n >>= w'.store.enum?)
    = ((w'.registry name).enumList w'.store).reverse.find? fun e => e.name = n

/-- An import adds what its walk has come to. -/
theorem adds_importFiles {w : Workspace} (hw : w.Sound) (name : String) (files : List FileDecl) :
    Adds w (w.apply name (.importFiles files)).workspace name
      ((Walk.reached (files.flatMap FileDecl.walk)).flatMap Visit.messages)
      ((Walk.reached (files.flatMap FileDecl.walk)).flatMap Visit.enums) := by
  have hw' := sound_apply hw name (.importFiles files)
  have hlast := hw'.registries name
  have happ := Progress.Appends.performAll
    (Walk.reached (files.flatMap FileDecl.walk)) (w.start name)
  have hlead := Progress.leads_performAll
    (Walk.reached (files.flatMap FileDecl.walk)) (w.start name)
  have hfit : (w.start name).Fits := hw.registries name
  -- The store stays as the import left it; only the registry is put back under its name.
  rw [runImport_workspace] at hlast ⊢
  refine ⟨?_, ?_, ?_, ?_, happ.kept, hlast.messages.find?_bind, hlast.enums.find?_bind⟩
  · rw [registry_finish]; exact happ.messages hfit
  · rw [registry_finish]; exact happ.enums hfit
  · rw [registry_finish]; exact hlead.messages
  · rw [registry_finish]; exact hlead.enums

/-- The reply to an import is decided by the fields that it visits. -/
theorem reply_importFiles (w : Workspace) (name : String) (files : List FileDecl) :
    (w.apply name (.importFiles files)).reply
      = ((Walk.verdict (files.flatMap FileDecl.walk)).mapError .declaration).map
          fun _ => .done := by
  show (((Import.importFiles files).outcome (w.start name)).1.mapError _).map _ = _
  rw [Import.importFiles_follows files (w.start name)]
  cases Walk.verdict (files.flatMap FileDecl.walk) <;> rfl

end Workspace

/-! ## Where an import halts -/

/-- The message `m` has the first field that cannot be built, for the cause `e`; `before` are the
messages come to before `m`. -/
structure Halts (files : List FileDecl) (before : List (Placed MessageDecl))
    (m : Placed MessageDecl) (e : DeclarationError) : Prop where
  order : ∃ rest, FileDecl.preorderAll 0 files = before ++ m :: rest
  clean : ∀ x ∈ before, ∀ d ∈ x.decl.fields, d.fault? = none
  fault : ∃ ds d ds', m.decl.fields = ds ++ d :: ds' ∧ (∀ d' ∈ ds, d'.fault? = none)
    ∧ Field.ofDecl d = .error e

/-- The messages that come before `m` and are not around it, in the order of registration. -/
def keptMessages (files : List FileDecl) (before : List (Placed MessageDecl))
    (m : Placed MessageDecl) : List (Placed MessageDecl) :=
  (FileDecl.postorderAll 0 files).filter fun x => x ∈ before ∧ ¬ x.address <+: m.address

/-- The enums declared inside the messages kept, and those of the files before the file of `m`. -/
def keptEnums (files : List FileDecl) (before : List (Placed MessageDecl))
    (m : Placed MessageDecl) : List (Placed EnumDecl) :=
  (FileDecl.placedEnumsAll 0 files).filter fun x =>
    x.address ∈ (keptMessages files before m).map Placed.address
      ∨ (x.isOutermost ∧ x.file < m.file)

/-- Whether all fields of the message can be built. -/
def Placed.isClean (x : Placed MessageDecl) : Bool :=
  x.decl.fields.all fun d => d.fault?.isNone

variable {files : List FileDecl} {before rest : List (Placed MessageDecl)}
  {m : Placed MessageDecl} {e : DeclarationError}

/-- The fault of a declaration is the error of building it. -/
theorem FieldDecl.fault?_eq_some_iff {d : FieldDecl} :
    d.fault? = some e ↔ Field.ofDecl d = .error e := by
  unfold fault?
  cases Field.ofDecl d <;> simp

/-- There is one place only where an import can halt. -/
theorem Halts.takeWhile_dropWhile (h : Halts files before m e) :
    (FileDecl.preorderAll 0 files).takeWhile Placed.isClean = before
      ∧ ∃ rest, (FileDecl.preorderAll 0 files).dropWhile Placed.isClean = m :: rest := by
  obtain ⟨rest, hrest⟩ := h.order
  obtain ⟨ds, d, ds', hds, _, hd⟩ := h.fault
  -- Messages before the one at fault are clean, and that one is not.
  have hclean : ∀ x ∈ before, x.isClean := by
    intro x hx
    rw [Placed.isClean, List.all_eq_true]
    exact fun d hd => Option.isNone_iff_eq_none.mpr (h.clean x hx d hd)
  have hm : ¬ m.isClean := by
    rw [Placed.isClean, hds, List.all_append, List.all_cons, FieldDecl.fault?_eq_some_iff.mpr hd]
    simp
  rw [hrest, List.takeWhile_append_of_pos hclean, List.dropWhile_append_of_pos hclean,
    List.takeWhile_cons_of_neg hm, List.dropWhile_cons_of_neg hm, List.append_nil]
  exact ⟨rfl, rest, rfl⟩

/-- In pre-order, what comes before `m` has a smaller address, and only that has. -/
theorem mem_before_iff (h : FileDecl.preorderAll 0 files = before ++ m :: rest)
    {x : Placed MessageDecl} (hx : x ∈ FileDecl.preorderAll 0 files) :
    (x ∈ before ∧ ¬ x.address <+: m.address) ↔ Precedes x.address m.address := by
  have hsorted := sorted_preorder_files 0 files
  rw [h, List.pairwise_append, List.pairwise_cons] at hsorted
  obtain ⟨_, ⟨hafter, _⟩, hbefore⟩ := hsorted
  -- What stands in front is smaller. If it is smaller it stands in front: the order is that of the
  -- addresses.
  refine and_congr_left fun hnot => ⟨fun hb => hbefore x hb m List.mem_cons_self, fun hlt => ?_⟩
  rw [h, List.mem_append, List.mem_cons] at hx
  rcases hx with hx | rfl | hx
  · exact hx
  · exact absurd hlt (lt_irrefl _)
  · exact absurd hlt (lt_asymm (hafter x hx))

/-- Kept are the messages whose addresses come before that of the message that halts the import. -/
theorem keptMessages_eq (h : FileDecl.preorderAll 0 files = before ++ m :: rest) :
    keptMessages files before m
      = (FileDecl.postorderAll 0 files).filter fun x => Precedes x.address m.address := by
  unfold keptMessages
  refine List.filter_congr fun x hx => ?_
  rw [decide_eq_decide]
  exact mem_before_iff h ((postorder_files_perm 0 files).mem_iff.mp hx)

/-- An enum is declared in a message, or it is in none and has the address of its file. -/
theorem mem_placedEnums {x : Placed EnumDecl} (hx : x ∈ FileDecl.placedEnumsAll 0 files) :
    (∃ y ∈ FileDecl.postorderAll 0 files, y.address = x.address) ∨ ∃ i, x.address = [i] := by
  obtain ⟨f, hf, hx⟩ := List.mem_flatMap.mp hx
  rcases List.mem_append.mp hx with hx | hx
  · obtain ⟨y, hy, hxy⟩ := List.mem_flatMap.mp hx
    obtain ⟨e, _, rfl⟩ := List.mem_map.mp hxy
    exact Or.inl ⟨y, List.mem_flatMap.mpr ⟨f, hf, hy⟩, rfl⟩
  · obtain ⟨e, _, rfl⟩ := List.mem_map.mp hx
    exact Or.inr ⟨f.2, rfl⟩

/-- No message has an address as short as a file has. -/
theorem length_of_mem_postorder {x : Placed MessageDecl}
    (hx : x ∈ FileDecl.postorderAll 0 files) : 2 ≤ x.address.length := by
  obtain ⟨f, _, hx⟩ := List.mem_flatMap.mp ((postorder_files_perm 0 files).mem_iff.mp hx)
  obtain ⟨j, hj⟩ := inside_preorder_file hx
  exact hj.length_le

/-- A file precedes the messages of the files after it. -/
theorem precedes_file_iff {i : Nat} {q : List Nat} (hq : q ≠ []) :
    Precedes [i] q ↔ i < q.headD 0 := by
  obtain ⟨j, u, rfl⟩ := List.exists_cons_of_ne_nil hq
  constructor
  · rintro ⟨hlt, hnot⟩
    rcases List.cons_lt_cons_iff.mp hlt with h | ⟨rfl, _⟩
    · exact h
    · exact absurd (List.prefix_append [i] u) hnot
  · intro hij
    exact .of_parting (a := []) hij (List.prefix_refl _) (List.prefix_append [j] u)

/-- The same goes for enums, with the addresses of the messages that they are declared in. -/
theorem keptEnums_eq (h : FileDecl.preorderAll 0 files = before ++ m :: rest) :
    keptEnums files before m
      = (FileDecl.placedEnumsAll 0 files).filter fun x => Precedes x.address m.address := by
  have hm : m ∈ FileDecl.postorderAll 0 files := by
    rw [(postorder_files_perm 0 files).mem_iff, h]
    exact List.mem_append_right _ List.mem_cons_self
  -- An address is kept as soon as one declaration at it is.
  have hkept : ∀ a : List Nat, a ∈ (keptMessages files before m).map Placed.address
      ↔ (∃ y ∈ FileDecl.postorderAll 0 files, y.address = a) ∧ Precedes a m.address := by
    intro a
    simp only [keptMessages_eq h, List.mem_map, List.mem_filter, decide_eq_true_eq]
    constructor
    · rintro ⟨y, ⟨hy, hprec⟩, rfl⟩; exact ⟨⟨y, hy, rfl⟩, hprec⟩
    · rintro ⟨⟨y, hy, rfl⟩, hprec⟩; exact ⟨y, ⟨hy, hprec⟩, rfl⟩
  unfold keptEnums
  refine List.filter_congr fun x hx => ?_
  rw [decide_eq_decide, hkept]
  rcases mem_placedEnums hx with hy | ⟨i, hi⟩
  · -- Declared in a message, and as that message has been registered or not.
    have hlong : ¬ x.isOutermost := by
      obtain ⟨y, hy, hxy⟩ := hy
      have := length_of_mem_postorder hy
      simp [Placed.isOutermost, ← hxy]
      omega
    simp [hy, hlong]
  -- Declared in a file, and kept if the message at fault is in a later one.
  · have hne : m.address ≠ [] := by
      have := length_of_mem_postorder hm
      exact fun h0 => by simp [h0] at this
    simp [hi, precedes_file_iff hne, Placed.isOutermost, Placed.file]

/-! ## The cut -/

/-- An element of a list put together from pieces lies in one of them. -/
theorem exists_piece {α β : Type} {xs : List α} {g : α → List β} {l r : List β} {b : β}
    (h : xs.flatMap g = l ++ b :: r) :
    ∃ xs₁ x xs₂ l' r', xs = xs₁ ++ x :: xs₂ ∧ g x = l' ++ b :: r' ∧ l = xs₁.flatMap g ++ l' := by
  induction xs generalizing l with
  | nil => simp at h
  | cons x xs ih =>
    -- The cut is behind the first piece, or inside it; a piece that ends at the cut is not yet the
    -- one.
    rw [List.flatMap_cons, List.append_eq_append_iff] at h
    rcases h with ⟨l', rfl, h⟩ | ⟨c, hx, h⟩
    · obtain ⟨xs₁, y, xs₂, l'', r'', rfl, hy, rfl⟩ := ih h
      exact ⟨x :: xs₁, y, xs₂, l'', r'', rfl, hy, by simp⟩
    · cases c with
      | nil =>
        obtain ⟨xs₁, y, xs₂, l'', r'', rfl, hy, hnil⟩ := ih (l := []) h.symm
        refine ⟨x :: xs₁, y, xs₂, l'', r'', rfl, hy, ?_⟩
        rw [List.flatMap_cons, List.append_assoc, ← hnil, hx, List.append_nil, List.append_nil]
      | cons b' c =>
        obtain ⟨rfl, _⟩ := List.cons.inj h
        exact ⟨[], x, xs, l, c, rfl, hx, rfl⟩

/-- The first visit that cannot be made is to a field of the message at which the import halts. -/
theorem exists_halts (h : Walk.verdict (files.flatMap FileDecl.walk) = .error e) :
    ∃ before m d u v, Halts files before m e
      ∧ FileDecl.routeAll 0 files = u ++ (m.address, .field d) :: v
      ∧ Walk.reached (files.flatMap FileDecl.walk) = u.map Prod.snd := by
  have hfault := Walk.verdict_eq_error_iff.mp h
  rw [← snd_route_files 0 files, List.findSome?_map, List.findSome?_eq_some_iff] at hfault
  obtain ⟨u, ⟨a, w⟩, v, hroute, hw, hu⟩ := hfault
  cases w with
  | field d =>
    have hat : at? Visit.field? (a, .field d) = some (a, d) := rfl
    have hfields := (route_files 0 files).1
    rw [hroute, List.filterMap_append, List.filterMap_cons_some hat] at hfields
    obtain ⟨before, m, rest, l, r, horder, hm, hl⟩ := exists_piece hfields.symm
    -- The fields in front of `d` are those that have been visited.
    have hclean : ∀ x ∈ before.flatMap Placed.fields ++ l, x.2.fault? = none := by
      intro x hx
      rw [← hl] at hx
      obtain ⟨⟨b, w⟩, hy, hxy⟩ := List.mem_filterMap.mp hx
      obtain ⟨d', hd', rfl⟩ := Option.map_eq_some_iff.mp hxy
      cases w <;> cases hd'
      exact hu _ hy
    obtain ⟨ds, ds', hds, rfl, hds'⟩ := List.map_eq_append_iff.mp hm
    obtain ⟨d', ds'', rfl, had, _⟩ := List.map_eq_cons_iff.mp hds'
    obtain ⟨rfl, rfl⟩ := Prod.mk.inj had
    refine ⟨before, m, d', u, v, ⟨⟨rest, horder⟩, fun x hx d hd => ?_, ds, d', ds'', hds,
      fun d hd => ?_, FieldDecl.fault?_eq_some_iff.mp hw⟩, hroute, ?_⟩
    · exact hclean (x.address, d)
        (List.mem_append_left _ (List.mem_flatMap.mpr ⟨x, hx, List.mem_map_of_mem hd⟩))
    · exact hclean (m.address, d) (List.mem_append_right _ (List.mem_map_of_mem hd))
    · rw [← snd_route_files 0 files, hroute, List.map_append, List.map_cons]
      refine Walk.reached_append_of_fault (fun w hw => ?_) hw
      obtain ⟨x, hx, rfl⟩ := List.mem_map.mp hw
      exact hu x hx
  | enum path d => cases hw
  | message path d => cases hw
  | file f => cases hw

/-- What is read of the visits before the cut is what precedes the message in the whole list. -/
theorem filterMap_cut {α : Type} {g : Visit → Option (String × α)} {xs : List (Placed α)}
    {a : List Nat} {d : FieldDecl} {u v : List (List Nat × Visit)}
    (hroute : FileDecl.routeAll 0 files = u ++ (a, .field d) :: v)
    (hg : ∀ w, w.registers = false → g w = none)
    (hxs : (FileDecl.routeAll 0 files).filterMap (at? g) = xs.map Placed.named) :
    (u.map Prod.snd).filterMap g
      = (xs.filter fun x => Precedes x.address a).map fun x => (x.site.path, x.decl) := by
  calc (u.map Prod.snd).filterMap g = (u.filterMap (at? g)).map Prod.snd := filterMap_snd g u
    _ = ((xs.map Placed.named).filter fun y => Precedes y.1 a).map Prod.snd := by
        rw [filterMap_before (interlocked_files 0 files) hroute hg, hxs]
    _ = _ := by
        rw [List.filter_map, List.map_map]
        rfl

/-- The name of a placed declaration, after the path of its site. -/
def Placed.name {α : Type} (getName : α → String) (x : Placed α) : String :=
  qualify x.site.path (getName x.decl)

namespace Workspace

/--
**A failed import leaves a clean prefix.**

The error is that of the first field that cannot be built: the files are gone through in order, the
messages of a file in pre-order, and the fields of a message as declared. Of the messages that come
before the one with this field, all but those around it are registered, complete, and in the order
in which a successful import registers them; and so are the enums declared inside these messages and
those of the files before. Nothing else is added, what was registered before stays in its place and
as it is, and under each name the last registration of all is found.
-/
theorem failed_import_leaves_prefix (session : List (String × Change)) (name : String)
    (files : List FileDecl) (err : ChangeError)
    (hfail : ((after session).apply name (.importFiles files)).reply = .error err) :
    let w := after session
    let w' := (w.apply name (.importFiles files)).workspace
    (∃ before m e ms es, Halts files before m e ∧ err = .declaration e ∧ Adds w w' name ms es
        ∧ List.Forall₂ (fun x msg => Message.Declared x.site.path x.decl msg)
          (keptMessages files before m) ms
        ∧ List.Forall₂ (fun x en => Enumeration.Declared x.site.path x.decl en)
          (keptEnums files before m) es)
      ∧ (FileDecl.postorderAll 0 files).map Placed.declared = files.flatMap FileDecl.flatten
      ∧ (FileDecl.placedEnumsAll 0 files).map Placed.declared
          = files.flatMap FileDecl.flattenEnums := by
  intro w w'
  refine ⟨?_, declared_postorder_files 0 files, declared_enums_files 0 files⟩
  rw [reply_importFiles] at hfail
  cases hverdict : Walk.verdict (files.flatMap FileDecl.walk) with
  | ok u => rw [hverdict] at hfail; cases hfail
  | error e =>
    rw [hverdict] at hfail
    cases hfail
    obtain ⟨before, m, d, u, v, hhalts, hroute, hreached⟩ := exists_halts hverdict
    obtain ⟨rest, horder⟩ := hhalts.order
    obtain ⟨_, hmessages, henums⟩ := route_files 0 files
    refine ⟨before, m, e, _, _, hhalts, rfl, adds_importFiles (sound_after session) name files,
      ?_, ?_⟩
    -- The messages that were built are those declared in front of the one at fault.
    · have hreg := Walk.declared_reached (Walk.fieldsFirst_files files)
      rw [hreached, filterMap_cut hroute (fun _ => Visit.message?_of_not_registers) hmessages,
        ← keptMessages_eq horder, List.forall₂_map_left_iff] at hreg
      rw [hreached]
      exact hreg
    -- Enums are built as they are registered.
    · rw [Visit.flatMap_enums, hreached,
        filterMap_cut hroute (fun _ => Visit.enum?_of_not_registers) henums,
        ← keptEnums_eq horder, List.map_map, List.forall₂_map_right_iff, List.forall₂_same]
      exact fun x _ => Enumeration.declared_ofDecl x.site.path x.decl

/-- A file that can be imported, and one that cannot because of a field deep inside. -/
def brokenSample : List FileDecl :=
  [{ FileDecl.empty with
      package := some "base"
      messages := [{ MessageDecl.empty with name := some "Size" }]
      enums := [⟨some "Color", []⟩] },
    { FileDecl.empty with
      package := some "shop"
      messages :=
        [{ MessageDecl.empty with
           name := some "Order"
           messages :=
             [{ MessageDecl.empty with name := some "Line", enums := [⟨some "Unit", []⟩] },
               { MessageDecl.empty with
                 name := some "Total"
                 fields := [FieldDecl.empty, { FieldDecl.empty with type := some 99 }]
                 messages := [{ MessageDecl.empty with name := some "Tax" }] },
               { MessageDecl.empty with name := some "Note" }]
           enums := [⟨some "State", []⟩] },
          { MessageDecl.empty with name := some "Item" }]
      enums := [⟨some "Currency", []⟩] }]

/-- What comes before the field is kept, but `Order`, which is around it, is not. -/
theorem failed_import_leaves_prefix_brokenSample :
    let w := after [("main", .importFiles (brokenSample.take 1))]
    let w' := (w.apply "main" (.importFiles brokenSample)).workspace
    (w.apply "main" (.importFiles brokenSample)).reply = .error (.declaration (.unknownType 99))
      ∧ ∃ ms es, Adds w w' "main" ms es ∧ ms.map Message.name = [".base.Size", ".shop.Order.Line"]
        ∧ es.map Enumeration.name = [".base.Color", ".shop.Order.Line.Unit"] := by
  intro w w'
  obtain ⟨⟨before, m, e, ms, es, hhalts, _, hadds, hms, hes⟩, _⟩ := failed_import_leaves_prefix
    [("main", .importFiles (brokenSample.take 1))] "main" brokenSample _ rfl
  obtain ⟨rfl, rest, hrest⟩ := hhalts.takeWhile_dropWhile
  have haddress : [1, 0, 1] = m.address :=
    Option.some.inj (congrArg (fun l => (l.map Placed.address).head?) hrest)
  refine ⟨rfl, ms, es, hadds, ?_, ?_⟩
  · rw [map_eq_of_forall₂ (f := Placed.name MessageDecl.getName) (fun _ _ h => h.1) hms]
    unfold keptMessages
    rw [← haddress]
    decide
  · rw [map_eq_of_forall₂ (f := Placed.name EnumDecl.getName) (fun _ _ h => h.1) hes]
    unfold keptEnums keptMessages Placed.file
    rw [← haddress]
    decide

end Workspace

end SchemaRegistry
