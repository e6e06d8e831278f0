import SchemaRegistry.Proofs.Placement

/-!
# The walk with addresses

`route` is the walk of an import with the address of each visit. Its fields come in pre-order, its
registrations in post-order, and `Interlocks` says how visits of the two kinds are placed: what is
registered before a field is come to precedes the field's message, and what is registered after does
not. So a route that is cut at a field can be described without walking it (`filterMap_before`).
-/

namespace SchemaRegistry

namespace Visit

/-- The field built on the visit. -/
def field? : Visit → Option FieldDecl
  | field d => some d
  | _ => none

/-- Whether the visit puts something into the registry. -/
def registers : Visit → Bool
  | message .. | enum .. => true
  | _ => false

/-- A visit that registers nothing registers no message. -/
theorem message?_of_not_registers {v : Visit} (h : v.registers = false) : v.message? = none := by
  cases v with
  | message path d => cases h
  | _ => rfl

theorem enum?_of_not_registers {v : Visit} (h : v.registers = false) : v.enum? = none := by
  cases v with
  | enum path d => cases h
  | _ => rfl

end Visit

/-! ## Routes -/

mutual

/-- The visits to a message at an address and to all inside it, each with the address of the message
that it is about. -/
def MessageDecl.route (a : List Nat) (path : String) : MessageDecl → List (List Nat × Visit)
  | ⟨name, fields, messages, enums⟩ =>
    fields.map (fun d => (a, .field d))
      ++ (MessageDecl.routeAll a 0 (qualify path (name.getD "")) messages
        ++ (enums.map (fun d => (a, .enum (qualify path (name.getD "")) d))
          ++ [(a, .message path ⟨name, fields, messages, enums⟩)]))

/-- The visits to messages side by side, numbered from `i` on under one address. -/
def MessageDecl.routeAll (a : List Nat) (i : Nat) (path : String) :
    List MessageDecl → List (List Nat × Visit)
  | [] => []
  | d :: ds => d.route (a ++ [i]) path ++ MessageDecl.routeAll a (i + 1) path ds

end

namespace FileDecl

/-- The visits to the `i`th file, with addresses. -/
def route (i : Nat) (f : FileDecl) : List (List Nat × Visit) :=
  MessageDecl.routeAll [i] 0 f.path f.messages
    ++ (f.enums.map (fun d => ([i], .enum f.path d)) ++ [([i], .file f)])

/-- The visits to files that are numbered from `i` on, with addresses. -/
def routeAll (i : Nat) (fs : List FileDecl) : List (List Nat × Visit) :=
  (fs.zipIdx i).flatMap fun (f, i) => f.route i

end FileDecl

mutual

/-- Without the addresses the route is the walk. -/
theorem snd_route (a : List Nat) (path : String) :
    (d : MessageDecl) → (d.route a path).map Prod.snd = d.walk path
  | ⟨name, fields, messages, enums⟩ => by
    rw [MessageDecl.route, MessageDecl.walk]
    simp only [List.map_append, List.map_map, snd_routeAll]
    rfl

theorem snd_routeAll (a : List Nat) (i : Nat) (path : String) :
    (ds : List MessageDecl) →
      (MessageDecl.routeAll a i path ds).map Prod.snd = MessageDecl.walkAll path ds
  | [] => rfl
  | d :: ds => by
    rw [MessageDecl.routeAll, MessageDecl.walkAll, List.map_append, snd_route, snd_routeAll]

end

/-- The route through files is their walk. -/
theorem snd_route_files (i : Nat) (fs : List FileDecl) :
    (FileDecl.routeAll i fs).map Prod.snd = fs.flatMap FileDecl.walk := by
  induction fs generalizing i with
  | nil => rfl
  | cons f fs ih =>
    have hfile : (f.route i).map Prod.snd = f.walk := by
      unfold FileDecl.route FileDecl.walk
      simp only [List.map_append, List.map_map, snd_routeAll]
      rfl
    rw [List.flatMap_cons, ← ih (i + 1), ← hfile, ← List.map_append]
    rfl

/-! ## What a route comes to -/

/-- The visit read by `g`, with its address. -/
def at? {β : Type} (g : Visit → Option β) (x : List Nat × Visit) : Option (List Nat × β) :=
  (g x.2).map fun b => (x.1, b)

/-- What is kept of the visits can be kept with their addresses. -/
theorem filterMap_snd {β : Type} (g : Visit → Option β) (l : List (List Nat × Visit)) :
    (l.map Prod.snd).filterMap g = (l.filterMap (at? g)).map Prod.snd := by
  rw [List.filterMap_map, List.map_filterMap]
  refine List.filterMap_congr fun x _ => ?_
  simp [at?, Function.comp_def]

section

variable {α β : Type} {g : Visit → Option β} {v : α → Visit}

/-- Visits of another kind are dropped. -/
theorem filterMap_at?_of_none (h : ∀ d, g (v d) = none) (a : List Nat) (ds : List α) :
    (ds.map fun d => (a, v d)).filterMap (at? g) = [] := by
  rw [List.filterMap_map, List.filterMap_eq_nil_iff]
  intro d _
  simp [at?, h]

/-- Visits of this kind all stay, in their order. -/
theorem filterMap_at?_of_some {b : α → β} (h : ∀ d, g (v d) = some (b d)) (a : List Nat)
    (ds : List α) : (ds.map fun d => (a, v d)).filterMap (at? g) = ds.map fun d => (a, b d) := by
  rw [List.filterMap_map, ← List.filterMap_eq_map]
  refine List.filterMap_congr fun d _ => ?_
  simp [at?, h]

end

/-- The declaration with its address and the path that its site comes to. -/
def Placed.named {α : Type} (x : Placed α) : List Nat × String × α :=
  (x.address, x.site.path, x.decl)

/-- The fields of a message, with its address. -/
def Placed.fields (x : Placed MessageDecl) : List (List Nat × FieldDecl) :=
  x.decl.fields.map fun d => (x.address, d)

theorem enums_named (x : Placed MessageDecl) :
    x.enums.map Placed.named
      = x.decl.enums.map fun e => (x.address, qualify x.site.path x.decl.getName, e) := by
  unfold Placed.enums
  rw [List.map_map, ← Site.path_inside]
  rfl

mutual

/-- The route comes to the fields of a message in front of those inside it. -/
theorem fields_route (a : List Nat) (s : Site) :
    (d : MessageDecl) →
      (d.route a s.path).filterMap (at? Visit.field?) = (d.preorder a s).flatMap Placed.fields
  | ⟨name, fields, messages, enums⟩ => by
    rw [MessageDecl.route, MessageDecl.preorder, ← Site.path_inside]
    simp only [List.filterMap_append, List.flatMap_cons, fields_routeAll]
    rw [filterMap_at?_of_some (g := Visit.field?) (v := .field) (fun _ => rfl),
      filterMap_at?_of_none (fun _ => rfl)]
    simp [at?, Visit.field?, Placed.fields]

theorem fields_routeAll (a : List Nat) (i : Nat) (s : Site) :
    (ds : List MessageDecl) →
      (MessageDecl.routeAll a i s.path ds).filterMap (at? Visit.field?)
        = (MessageDecl.preorderAll a i s ds).flatMap Placed.fields
  | [] => rfl
  | d :: ds => by
    rw [MessageDecl.routeAll, MessageDecl.preorderAll, List.filterMap_append, List.flatMap_append,
      fields_route, fields_routeAll]

end

mutual

/-- The route registers the message after all that is inside it. -/
theorem messages_route (a : List Nat) (s : Site) :
    (d : MessageDecl) →
      (d.route a s.path).filterMap (at? Visit.message?) = (d.postorder a s).map Placed.named
  | ⟨name, fields, messages, enums⟩ => by
    rw [MessageDecl.route, MessageDecl.postorder, ← Site.path_inside]
    simp only [List.filterMap_append, List.map_append, messages_routeAll]
    rw [filterMap_at?_of_none (fun _ => rfl), filterMap_at?_of_none (fun _ => rfl)]
    rfl

theorem messages_routeAll (a : List Nat) (i : Nat) (s : Site) :
    (ds : List MessageDecl) →
      (MessageDecl.routeAll a i s.path ds).filterMap (at? Visit.message?)
        = (MessageDecl.postorderAll a i s ds).map Placed.named
  | [] => rfl
  | d :: ds => by
    rw [MessageDecl.routeAll, MessageDecl.postorderAll, List.filterMap_append, List.map_append,
      messages_route, messages_routeAll]

end

mutual

/-- The route registers the enums of a message right before the message, so after all that is inside
it. -/
theorem enums_route (a : List Nat) (s : Site) :
    (d : MessageDecl) →
      (d.route a s.path).filterMap (at? Visit.enum?)
        = ((d.postorder a s).flatMap Placed.enums).map Placed.named
  | ⟨name, fields, messages, enums⟩ => by
    rw [MessageDecl.route, MessageDecl.postorder, List.flatMap_append, List.map_append,
      List.flatMap_singleton, enums_named, ← Site.path_inside]
    simp only [List.filterMap_append, enums_routeAll]
    rw [filterMap_at?_of_none (fun _ => rfl),
      filterMap_at?_of_some (b := fun d => ((s.inside (name.getD "")).path, d)) (fun _ => rfl)]
    simp [at?, Visit.enum?, MessageDecl.getName, Site.path_inside]

theorem enums_routeAll (a : List Nat) (i : Nat) (s : Site) :
    (ds : List MessageDecl) →
      (MessageDecl.routeAll a i s.path ds).filterMap (at? Visit.enum?)
        = ((MessageDecl.postorderAll a i s ds).flatMap Placed.enums).map Placed.named
  | [] => rfl
  | d :: ds => by
    rw [MessageDecl.routeAll, MessageDecl.postorderAll, List.filterMap_append,
      List.flatMap_append, List.map_append, enums_route, enums_routeAll]

end

theorem fields_route_file (i : Nat) (f : FileDecl) :
    (f.route i).filterMap (at? Visit.field?) = (f.preorder i).flatMap Placed.fields := by
  have h : (MessageDecl.routeAll [i] 0 f.path f.messages).filterMap (at? Visit.field?)
      = (f.preorder i).flatMap Placed.fields := fields_routeAll [i] 0 f.site f.messages
  rw [FileDecl.route, List.filterMap_append, List.filterMap_append, h,
    filterMap_at?_of_none (fun _ => rfl)]
  simp [at?, Visit.field?]

theorem messages_route_file (i : Nat) (f : FileDecl) :
    (f.route i).filterMap (at? Visit.message?) = (f.postorder i).map Placed.named := by
  have h : (MessageDecl.routeAll [i] 0 f.path f.messages).filterMap (at? Visit.message?)
      = (f.postorder i).map Placed.named := messages_routeAll [i] 0 f.site f.messages
  rw [FileDecl.route, List.filterMap_append, List.filterMap_append, h,
    filterMap_at?_of_none (fun _ => rfl)]
  simp [at?, Visit.message?]

theorem enums_route_file (i : Nat) (f : FileDecl) :
    (f.route i).filterMap (at? Visit.enum?) = (f.placedEnums i).map Placed.named := by
  have h : (MessageDecl.routeAll [i] 0 f.path f.messages).filterMap (at? Visit.enum?)
      = ((f.postorder i).flatMap Placed.enums).map Placed.named :=
    enums_routeAll [i] 0 f.site f.messages
  rw [FileDecl.route, FileDecl.placedEnums, List.filterMap_append, List.filterMap_append, h,
    filterMap_at?_of_some (b := fun d => (f.path, d)) (fun _ => rfl), List.map_append, List.map_map]
  simp only [at?, Visit.enum?, List.filterMap_cons, List.filterMap_nil, Option.map_none,
    List.append_nil]
  rfl

/-- **The route of the files**: the fields in pre-order, the messages and enums in post-order. -/
theorem route_files (i : Nat) (fs : List FileDecl) :
    (FileDecl.routeAll i fs).filterMap (at? Visit.field?)
        = (FileDecl.preorderAll i fs).flatMap Placed.fields
      ∧ (FileDecl.routeAll i fs).filterMap (at? Visit.message?)
        = (FileDecl.postorderAll i fs).map Placed.named
      ∧ (FileDecl.routeAll i fs).filterMap (at? Visit.enum?)
        = (FileDecl.placedEnumsAll i fs).map Placed.named := by
  unfold FileDecl.routeAll FileDecl.preorderAll FileDecl.postorderAll FileDecl.placedEnumsAll
  simp only [List.filterMap_flatMap, List.map_flatMap, List.flatMap_assoc, fields_route_file,
    messages_route_file, enums_route_file, and_self]

/-- The fields of the files, in the order in which they are built. -/
theorem fields_walk (fs : List FileDecl) :
    (fs.flatMap FileDecl.walk).filterMap Visit.field?
      = (FileDecl.preorderAll 0 fs).flatMap fun x => x.decl.fields := by
  rw [← snd_route_files 0 fs, filterMap_snd, (route_files 0 fs).1, List.map_flatMap]
  refine List.flatMap_congr fun x _ => ?_
  rw [Placed.fields, List.map_map]
  exact List.map_id _

/-- An import succeeds if and only if no field of any message is at fault. -/
theorem verdict_files_eq_ok_iff {fs : List FileDecl} :
    Walk.verdict (fs.flatMap FileDecl.walk) = .ok ()
      ↔ ∀ x ∈ FileDecl.preorderAll 0 fs, ∀ d ∈ x.decl.fields, d.fault? = none := by
  -- A field is on the walk if and only if it is declared in some message.
  have hfields : ∀ d, .field d ∈ fs.flatMap FileDecl.walk
      ↔ ∃ x ∈ FileDecl.preorderAll 0 fs, d ∈ x.decl.fields := by
    intro d
    rw [← List.mem_flatMap, ← fields_walk, List.mem_filterMap]
    constructor
    · exact fun h => ⟨_, h, rfl⟩
    · rintro ⟨v, hv, hd⟩
      cases v <;> cases hd
      exact hv
  rw [Walk.verdict_eq_ok_iff]
  constructor
  · exact fun h x hx d hd => h (.field d) ((hfields d).mpr ⟨x, hx, hd⟩)
  · intro h v hv
    cases v with
    | field d =>
      obtain ⟨x, hx, hd⟩ := (hfields d).mp hv
      exact h x hx d hd
    | _ => rfl

/-! ## How the two orders interlock -/

/-- How an earlier visit and a later one lie to each other, if the one is to a field and the other
registers something. -/
structure Interlocks (x y : List Nat × Visit) : Prop where
  registered : x.2.registers → y.2.field?.isSome → Precedes x.1 y.1
  field : x.2.field?.isSome → y.2.registers → ¬ Precedes y.1 x.1

namespace Interlocks

variable {a : List Nat} {x y : List Nat × Visit} {l own : List (List Nat × Visit)}

/-- Visits at addresses that part are in the order of the addresses. -/
theorem of_precedes (h : Precedes x.1 y.1) : Interlocks x y :=
  ⟨fun _ _ => h, fun _ _ h' => lt_asymm h.1 h'.1⟩

/-- The fields of a message come before all that is inside it. -/
theorem of_field (d : FieldDecl) (h : a <+: y.1) : Interlocks (a, .field d) y :=
  ⟨nofun, fun _ _ => (Precedes.not_of_prefix h).2⟩

/-- What is registered around comes after all that is inside. -/
theorem of_around (h : a <+: x.1) (hy : y.1 = a ∧ y.2.field? = none) : Interlocks x y :=
  ⟨fun _ h' => by simp [hy.2] at h', fun _ _ => hy.1 ▸ (Precedes.not_of_prefix h).1⟩

/-- The fields of a message may stand in front of everything inside it. -/
theorem pairwise_fields (ds : List FieldDecl) (hl : l.Pairwise Interlocks)
    (h : ∀ y ∈ l, a <+: y.1) : (ds.map (fun d => (a, Visit.field d)) ++ l).Pairwise Interlocks := by
  rw [List.pairwise_append, List.pairwise_map]
  refine ⟨List.pairwise_of_forall fun d _ => of_field d (List.prefix_refl a), hl, ?_⟩
  intro x hx y hy
  obtain ⟨d, _, rfl⟩ := List.mem_map.mp hx
  exact of_field d (h y hy)

/-- The registrations at an address may stand behind everything inside it. -/
theorem pairwise_around (hl : l.Pairwise Interlocks) (h : ∀ x ∈ l, a <+: x.1)
    (hown : ∀ y ∈ own, y.1 = a ∧ y.2.field? = none) : (l ++ own).Pairwise Interlocks := by
  rw [List.pairwise_append]
  refine ⟨hl, ?_, fun x hx y hy => of_around (h x hx) (hown y hy)⟩
  refine List.pairwise_of_forall_mem_list fun x hx y hy => of_around ?_ (hown y hy)
  exact ⟨[], by rw [List.append_nil, (hown x hx).1]⟩

end Interlocks

mutual

/-- The route of a message does not leave its address. -/
theorem inside_route (a : List Nat) (path : String) :
    (d : MessageDecl) → ∀ x ∈ d.route a path, a <+: x.1
  | ⟨name, fields, messages, enums⟩ => by
    intro x hx
    -- Visits to the message itself are at its address, the others below.
    have hown : ∀ v : Visit, x = (a, v) → a <+: x.1 := fun v h => h ▸ List.prefix_refl a
    simp only [MessageDecl.route, List.mem_append, List.mem_map, List.mem_singleton] at hx
    rcases hx with ⟨d, _, h⟩ | h | ⟨d, _, h⟩ | h
    · exact hown _ h.symm
    · obtain ⟨j, _, hj⟩ := inside_routeAll a 0 _ messages x h
      exact prefix_of_inside hj
    · exact hown _ h.symm
    · exact hown _ h

theorem inside_routeAll (a : List Nat) (i : Nat) (path : String) :
    (ds : List MessageDecl) →
      ∀ x ∈ MessageDecl.routeAll a i path ds, ∃ j, i ≤ j ∧ a ++ [j] <+: x.1
  | [] => fun _ hx => absurd hx List.not_mem_nil
  | d :: ds => by
    intro x hx
    rw [MessageDecl.routeAll, List.mem_append] at hx
    rcases hx with h | h
    · exact ⟨i, Nat.le_refl i, inside_route _ path d x h⟩
    · obtain ⟨j, hij, hj⟩ := inside_routeAll a (i + 1) path ds x h
      exact ⟨j, Nat.le_of_succ_le hij, hj⟩

end

mutual

/-- The route of a message is interlocked. -/
theorem interlocked (a : List Nat) (path : String) :
    (d : MessageDecl) → (d.route a path).Pairwise Interlocks
  | ⟨name, fields, messages, enums⟩ => by
    have hinside : ∀ x ∈ MessageDecl.routeAll a 0 (qualify path (name.getD "")) messages,
        a <+: x.1 := by
      intro x hx
      obtain ⟨j, _, hj⟩ := inside_routeAll a 0 _ messages x hx
      exact prefix_of_inside hj
    rw [MessageDecl.route]
    refine Interlocks.pairwise_fields fields
      (Interlocks.pairwise_around (interlockedAll a 0 _ messages) hinside ?_) ?_
    -- The registrations stand behind what is inside.
    · intro y hy
      simp only [List.mem_append, List.mem_map, List.mem_singleton] at hy
      rcases hy with ⟨d, _, rfl⟩ | rfl <;> exact ⟨rfl, rfl⟩
    -- And the fields in front of all of it.
    · intro y hy
      exact inside_route a path ⟨name, fields, messages, enums⟩ y
        (List.mem_append_right _ hy)

theorem interlockedAll (a : List Nat) (i : Nat) (path : String) :
    (ds : List MessageDecl) → (MessageDecl.routeAll a i path ds).Pairwise Interlocks
  | [] => .nil
  | d :: ds => by
    rw [MessageDecl.routeAll, List.pairwise_append]
    refine ⟨interlocked _ path d, interlockedAll a (i + 1) path ds, fun x hx y hy => ?_⟩
    -- Two messages next to each other: their addresses part at `a`.
    obtain ⟨j, hij, hj⟩ := inside_routeAll a (i + 1) path ds y hy
    exact .of_precedes (.of_parting hij (inside_route _ path d x hx) hj)

end

theorem inside_route_file (i : Nat) (f : FileDecl) : ∀ x ∈ f.route i, [i] <+: x.1 := by
  intro x hx
  have hown : ∀ v : Visit, x = ([i], v) → [i] <+: x.1 := fun v h => h ▸ List.prefix_refl [i]
  simp only [FileDecl.route, List.mem_append, List.mem_map, List.mem_singleton] at hx
  rcases hx with h | ⟨d, _, h⟩ | h
  · obtain ⟨j, _, hj⟩ := inside_routeAll [i] 0 _ f.messages x h
    exact prefix_of_inside hj
  · exact hown _ h.symm
  · exact hown _ h

/-- The route of a file is interlocked. -/
theorem interlocked_file (i : Nat) (f : FileDecl) : (f.route i).Pairwise Interlocks := by
  unfold FileDecl.route
  refine Interlocks.pairwise_around (a := [i]) (interlockedAll [i] 0 _ f.messages) ?_ ?_
  · intro x hx
    exact inside_route_file i f x (List.mem_append_left _ hx)
  · intro y hy
    simp only [List.mem_append, List.mem_map, List.mem_singleton] at hy
    rcases hy with ⟨d, _, rfl⟩ | rfl <;> exact ⟨rfl, rfl⟩

theorem pairwise_zipIdx {α : Type} (i : Nat) (l : List α) :
    (l.zipIdx i).Pairwise fun x y => x.2 < y.2 := by
  rw [← List.pairwise_map (f := Prod.snd), List.zipIdx_map_snd]
  exact List.pairwise_lt_range'

/-- **Fields and registrations interlock**, all over the files. -/
theorem interlocked_files (i : Nat) (fs : List FileDecl) :
    (FileDecl.routeAll i fs).Pairwise Interlocks := by
  unfold FileDecl.routeAll
  rw [List.pairwise_flatMap]
  refine ⟨fun f _ => interlocked_file f.2 f.1, ?_⟩
  refine (pairwise_zipIdx i fs).imp fun {f g} hfg x hx y hy => ?_
  exact .of_precedes (.of_parting (a := []) hfg (inside_route_file _ _ x hx)
    (inside_route_file _ _ y hy))

/-- **What is read of a route before a field** is what precedes the field's message. -/
theorem filterMap_before {l u v : List (List Nat × Visit)} {a : List Nat} {d : FieldDecl}
    (hl : l.Pairwise Interlocks) (h : l = u ++ (a, .field d) :: v) {β : Type}
    {g : Visit → Option β} (hg : ∀ w, w.registers = false → g w = none) :
    u.filterMap (at? g) = (l.filterMap (at? g)).filter fun y => Precedes y.1 a := by
  subst h
  have hreg : ∀ x y, at? g x = some y → x.2.registers ∧ y.1 = x.1 := by
    intro x y hxy
    obtain ⟨b, hb, rfl⟩ := Option.map_eq_some_iff.mp hxy
    refine ⟨?_, rfl⟩
    by_contra hno
    rw [hg x.2 (by simpa using hno)] at hb
    cases hb
  rw [List.pairwise_append, List.pairwise_cons] at hl
  obtain ⟨_, ⟨hafter, _⟩, hbefore⟩ := hl
  have hfield : at? g (a, .field d) = none := by simp [at?, hg (.field d) rfl]
  rw [List.filterMap_append, List.filter_append, List.filterMap_cons_none hfield]
  -- In front of the field everything that is registered precedes it.
  have hu : (u.filterMap (at? g)).filter (fun y => Precedes y.1 a) = u.filterMap (at? g) := by
    rw [List.filter_eq_self]
    intro y hy
    obtain ⟨x, hx, hxy⟩ := List.mem_filterMap.mp hy
    obtain ⟨hr, hy1⟩ := hreg x y hxy
    have := (hbefore x hx (a, .field d) List.mem_cons_self).registered hr rfl
    rw [hy1]
    exact decide_eq_true this
  -- Behind it nothing does.
  have hv : (v.filterMap (at? g)).filter (fun y => Precedes y.1 a) = [] := by
    rw [List.filter_eq_nil_iff]
    intro y hy
    obtain ⟨x, hx, hxy⟩ := List.mem_filterMap.mp hy
    obtain ⟨hr, hy1⟩ := hreg x y hxy
    have := (hafter x hx).field rfl hr
    rw [hy1]
    exact fun h => this (of_decide_eq_true h)
  rw [hu, hv, List.append_nil]

/-! ## The pre-order goes up -/

/-- Messages next to one another each stay inside a number of their own. -/
theorem inside_preorderAll (a : List Nat) (i : Nat) (s : Site) (ds : List MessageDecl) :
    ∀ x ∈ MessageDecl.preorderAll a i s ds, ∃ j, i ≤ j ∧ a ++ [j] <+: x.address := by
  intro x hx
  have hpost := (postorderAll_perm a i s ds).mem_iff.mpr hx
  have hnamed := List.mem_map_of_mem (f := Placed.named) hpost
  rw [← messages_routeAll] at hnamed
  obtain ⟨y, hy, hxy⟩ := List.mem_filterMap.mp hnamed
  obtain ⟨_, _, heq⟩ := Option.map_eq_some_iff.mp hxy
  have haddress : y.1 = x.address := congrArg Prod.fst heq
  rw [← haddress]
  exact inside_routeAll a i s.path ds y hy

theorem inside_preorder (a : List Nat) (s : Site) (d : MessageDecl) :
    ∀ x ∈ d.preorder a s, a <+: x.address := by
  intro x hx
  cases d with
  | mk name fields messages enums =>
    rw [MessageDecl.preorder, List.mem_cons] at hx
    rcases hx with rfl | hx
    · exact List.prefix_refl a
    · obtain ⟨j, _, hj⟩ := inside_preorderAll a 0 _ messages x hx
      exact prefix_of_inside hj

mutual

/-- The order in which messages are built is the order of their addresses. -/
theorem sorted_preorder (a : List Nat) (s : Site) :
    (d : MessageDecl) → (d.preorder a s).Pairwise fun x y => x.address < y.address
  | ⟨name, fields, messages, enums⟩ => by
    rw [MessageDecl.preorder, List.pairwise_cons]
    refine ⟨fun y hy => ?_, sorted_preorderAll a 0 _ messages⟩
    obtain ⟨j, _, hj⟩ := inside_preorderAll a 0 _ messages y hy
    exact lt_of_inside hj

theorem sorted_preorderAll (a : List Nat) (i : Nat) (s : Site) :
    (ds : List MessageDecl) →
      (MessageDecl.preorderAll a i s ds).Pairwise fun x y => x.address < y.address
  | [] => .nil
  | d :: ds => by
    rw [MessageDecl.preorderAll, List.pairwise_append]
    refine ⟨sorted_preorder _ s d, sorted_preorderAll a (i + 1) s ds, fun x hx y hy => ?_⟩
    obtain ⟨j, hij, hj⟩ := inside_preorderAll a (i + 1) s ds y hy
    exact (Precedes.of_parting hij (inside_preorder _ s d x hx) hj).1

end

/-- A message has the number of its file, and at least one more. -/
theorem inside_preorder_file {i : Nat} {f : FileDecl} {x : Placed MessageDecl}
    (hx : x ∈ f.preorder i) : ∃ j, [i, j] <+: x.address := by
  obtain ⟨j, _, hj⟩ := inside_preorderAll [i] 0 f.site f.messages x hx
  exact ⟨j, hj⟩

/-- The messages of all files are built in the order of their addresses. -/
theorem sorted_preorder_files (i : Nat) (fs : List FileDecl) :
    (FileDecl.preorderAll i fs).Pairwise fun x y => x.address < y.address := by
  unfold FileDecl.preorderAll
  rw [List.pairwise_flatMap]
  refine ⟨fun f _ => sorted_preorderAll [f.2] 0 f.1.site f.1.messages, ?_⟩
  refine (pairwise_zipIdx i fs).imp fun {f g} hfg x hx y hy => ?_
  obtain ⟨j, hj⟩ := inside_preorder_file hx
  obtain ⟨k, hk⟩ := inside_preorder_file hy
  exact (Precedes.of_parting (a := []) hfg ((List.prefix_append _ _).trans hj)
    ((List.prefix_append _ _).trans hk)).1

end SchemaRegistry
