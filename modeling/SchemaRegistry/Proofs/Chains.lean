import SchemaRegistry.Proofs.Flattening
import SchemaRegistry.Proofs.PrefixCode

/-!
# Chains of names

The way to the declaration of a type is a chain of names, those of the messages around it and its
own. Its full name is what is left of the way: the path of the file, and the names with a dot in
front of each. If there are no dots in the names, the chain can be read off the full name again
(`path_injective`); and if messages that are declared side by side differ in their names, no two
messages are declared at the end of the same chain (`nodup_chains`).
-/

namespace SchemaRegistry

/-! ## Ways to declarations -/

/-- The chain of names leads from the messages `ds`, which stand side by side, to `d`. Each name
but the last is that of a message around what follows, and the last one is that of `d`. -/
inductive MessageDecl.At : List MessageDecl → List String → MessageDecl → Prop where
  | here {ds : List MessageDecl} {d : MessageDecl} (hd : d ∈ ds) : At ds [d.getName] d
  | inside {ds : List MessageDecl} {outer d : MessageDecl} {chain : List String}
      (ho : outer ∈ ds) (hd : At outer.messages chain d) : At ds (outer.getName :: chain) d

namespace FileDecl

/-- The chain of names leads to a message that the file declares. -/
def MessageAt (f : FileDecl) (chain : List String) (d : MessageDecl) : Prop :=
  MessageDecl.At f.messages chain d

/-- The chain of names leads to an enum that the file declares, whose name is the last one. -/
inductive EnumAt (f : FileDecl) : List String → EnumDecl → Prop where
  | outside {e : EnumDecl} (he : e ∈ f.enums) : EnumAt f [e.getName] e
  | inside {chain : List String} {d : MessageDecl} {e : EnumDecl} (hd : f.MessageAt chain d)
      (he : e ∈ d.enums) : EnumAt f (chain ++ [e.getName]) e

/-- The path of the file, and a dot and a name for each link of the chain. -/
def fullName (f : FileDecl) (chain : List String) : String := Site.path ⟨f.path, chain⟩

end FileDecl

/-- No name comes twice, and there is no dot in any of them. -/
def Distinct (names : List String) : Prop := names.Nodup ∧ ∀ n ∈ names, '.' ∉ n.toList

instance (names : List String) : Decidable (Distinct names) := inferInstanceAs (Decidable (_ ∧ _))

/-- The messages declared side by side in `d` differ in their names, and so do the enums. -/
def MessageDecl.DistinctInside (d : MessageDecl) : Prop :=
  Distinct (d.messages.map MessageDecl.getName) ∧ Distinct (d.enums.map EnumDecl.getName)

instance (d : MessageDecl) : Decidable d.DistinctInside := inferInstanceAs (Decidable (_ ∧ _))

/-- Wherever types are declared side by side in the file, the messages differ in their names, and so
do the enums; and there are no dots in these names. -/
def FileDecl.WellNamed (f : FileDecl) : Prop :=
  Distinct (f.messages.map MessageDecl.getName) ∧ Distinct (f.enums.map EnumDecl.getName)
    ∧ ∀ sd ∈ f.flatten, sd.2.DistinctInside

instance (f : FileDecl) : Decidable f.WellNamed := inferInstanceAs (Decidable (_ ∧ _ ∧ _))

/-! ## From the full name to the chain -/

/-- A full name has the path of its file in front and a dot before each name of the chain. -/
theorem Site.toList_path (root : String) (chain : List String) :
    (Site.path ⟨root, chain⟩).toList = root.toList ++ chain.flatMap fun n => '.' :: n.toList := by
  induction chain using List.reverseRecOn with
  | nil => exact (List.append_nil _).symm
  | append_singleton chain n ih =>
    have hinside : Site.path ⟨root, chain ++ [n]⟩ = qualify (Site.path ⟨root, chain⟩) n :=
      Site.path_inside ⟨root, chain⟩ n
    rw [hinside]
    unfold qualify
    simp [ih]

/-- **Without dots in its names, the chain can be read off the full name.** -/
theorem Site.path_injective {root : String} {chain chain' : List String}
    (h : ∀ n ∈ chain, '.' ∉ n.toList) (h' : ∀ n ∈ chain', '.' ∉ n.toList)
    (heq : Site.path ⟨root, chain⟩ = Site.path ⟨root, chain'⟩) : chain = chain' := by
  have hlists := congrArg String.toList heq
  rw [toList_path, toList_path, List.append_cancel_left_eq] at hlists
  -- Every dot starts a name here. With one more dot behind, every dot ends a name.
  have hmoved (names : List String) : '.' :: (names.map String.toList).flatMap (fun n => n ++ ['.'])
      = (names.flatMap fun n => '.' :: n.toList) ++ ['.'] := by
    induction names with
    | nil => rfl
    | cons n names ih => simp [← ih]
  have hmarked := (hmoved chain).trans ((congrArg (· ++ ['.']) hlists).trans (hmoved chain').symm)
  have hchains := (isPrefixCode_mark '.').flatMap_injective
    (fun cs hcs => by obtain ⟨n, hn, rfl⟩ := List.mem_map.mp hcs; exact h n hn)
    (fun cs hcs => by obtain ⟨n, hn, rfl⟩ := List.mem_map.mp hcs; exact h' n hn)
    (List.cons.inj hmarked).2
  exact List.map_injective_iff.mpr (fun _ _ h => String.toList_injective h) hchains

/-! ## The flattenings list what chains lead to -/

namespace MessageDecl

theorem mem_flattenAll {s : Site} {ds : List MessageDecl} {x : Site × MessageDecl} :
    x ∈ flattenAll s ds ↔ ∃ d ∈ ds, x ∈ d.flatten s := by
  induction ds with
  | nil => simp [flattenAll]
  | cons d ds ih => simp [flattenAll, ih]

theorem flatten_eq (s : Site) (d : MessageDecl) :
    d.flatten s = flattenAll (s.inside d.getName) d.messages ++ [(s, d)] := by
  cases d
  rw [flatten]
  rfl

/-- What a chain of names leads to is in the flattening, at the site that the chain spells. -/
theorem At.exists_mem {ds : List MessageDecl} {chain : List String} {d : MessageDecl}
    (h : At ds chain d) (s : Site) : ∃ scope, chain = scope ++ [d.getName]
      ∧ (⟨s.root, s.scope ++ scope⟩, d) ∈ flattenAll s ds := by
  induction h generalizing s with
  | @here ds d hd =>
    refine ⟨[], rfl, mem_flattenAll.mpr ⟨d, hd, ?_⟩⟩
    rw [flatten_eq, List.append_nil]
    exact List.mem_append_right _ List.mem_cons_self
  | @inside ds outer d chain ho _ ih =>
    -- The induction speaks of the messages inside, so the site moves in by one name.
    obtain ⟨scope, rfl, hmem⟩ := ih (s.inside outer.getName)
    refine ⟨outer.getName :: scope, rfl, mem_flattenAll.mpr ⟨outer, ho, ?_⟩⟩
    rw [flatten_eq]
    refine List.mem_append_left _ ?_
    rwa [Site.inside, List.append_assoc] at hmem

end MessageDecl

mutual

/-- Whatever is in the flattening of a message is reached by a chain of names. -/
theorem at_of_mem_flatten (s : Site) {es : List MessageDecl} :
    (d : MessageDecl) → d ∈ es → ∀ x ∈ d.flatten s, ∃ scope, x.1 = ⟨s.root, s.scope ++ scope⟩
      ∧ MessageDecl.At es (scope ++ [x.2.getName]) x.2
  | ⟨name, fields, messages, enums⟩, hd, x, hx => by
    rw [MessageDecl.flatten] at hx
    rcases List.mem_append.mp hx with hx | hx
    · obtain ⟨scope, hsite, hat⟩ :=
        at_of_mem_flattenAll (s.inside (name.getD "")) messages (fun _ h => h) x hx
      -- Inside: the name of `d` comes in front of the chain that is found there.
      refine ⟨name.getD "" :: scope, ?_, .inside hd hat⟩
      rw [hsite, Site.inside, List.append_assoc]
      rfl
    · cases List.mem_singleton.mp hx
      exact ⟨[], by rw [List.append_nil], .here hd⟩

theorem at_of_mem_flattenAll (s : Site) {es : List MessageDecl} :
    (ds : List MessageDecl) → (∀ d ∈ ds, d ∈ es) → ∀ x ∈ MessageDecl.flattenAll s ds,
      ∃ scope, x.1 = ⟨s.root, s.scope ++ scope⟩ ∧ MessageDecl.At es (scope ++ [x.2.getName]) x.2
  | [], _, x, hx => by simp [MessageDecl.flattenAll] at hx
  | d :: ds, hds, x, hx => by
    rw [MessageDecl.flattenAll] at hx
    rcases List.mem_append.mp hx with hx | hx
    · exact at_of_mem_flatten s d (hds d List.mem_cons_self) x hx
    · exact at_of_mem_flattenAll s ds (fun d' hd' => hds d' (List.mem_cons_of_mem _ hd')) x hx

end

/-- The enums declared inside a message, at their site. -/
def enumsInside (sd : Site × MessageDecl) : List (Site × EnumDecl) :=
  sd.2.enums.map fun e => (sd.1.inside sd.2.getName, e)

mutual

/-- The enums of the flattening are those inside its messages, in its order. -/
theorem flattenEnums_eq (s : Site) :
    (d : MessageDecl) → d.flattenEnums s = (d.flatten s).flatMap enumsInside
  | ⟨name, fields, messages, enums⟩ => by
    rw [MessageDecl.flattenEnums, MessageDecl.flatten, List.flatMap_append, flattenEnumsAll_eq,
      List.flatMap_singleton]
    rfl

theorem flattenEnumsAll_eq (s : Site) : (ds : List MessageDecl) →
    MessageDecl.flattenEnumsAll s ds = (MessageDecl.flattenAll s ds).flatMap enumsInside
  | [] => rfl
  | d :: ds => by
    rw [MessageDecl.flattenEnumsAll, MessageDecl.flattenAll, List.flatMap_append, flattenEnums_eq,
      flattenEnumsAll_eq]

end

namespace FileDecl

variable {f : FileDecl} {chain : List String}

/-- An enum is declared inside a message, or at the top level of its file. -/
theorem mem_flattenEnums {x : Site × EnumDecl} : x ∈ f.flattenEnums ↔
    (∃ sd ∈ f.flatten, x ∈ enumsInside sd) ∨ (x.1 = f.site ∧ x.2 ∈ f.enums) := by
  unfold flattenEnums flatten
  rw [List.mem_append, flattenEnumsAll_eq, List.mem_flatMap, List.mem_map]
  refine or_congr_right ⟨?_, fun ⟨hsite, he⟩ => ⟨x.2, he, by rw [← hsite]⟩⟩
  rintro ⟨e, he, rfl⟩
  exact ⟨rfl, he⟩

theorem messageAt_of_mem {sd : Site × MessageDecl} (h : sd ∈ f.flatten) :
    sd.1.root = f.path ∧ f.MessageAt (sd.1.scope ++ [sd.2.getName]) sd.2 := by
  obtain ⟨scope, hsite, hat⟩ := at_of_mem_flattenAll f.site f.messages (fun _ h => h) sd h
  rw [hsite]
  exact ⟨rfl, hat⟩

/-- Every chain that leads to a message belongs to an entry of the flattening. -/
theorem exists_mem_of_messageAt {d : MessageDecl} (h : f.MessageAt chain d) :
    ∃ scope, chain = scope ++ [d.getName] ∧ (⟨f.path, scope⟩, d) ∈ f.flatten :=
  h.exists_mem f.site

theorem enumAt_of_mem {sd : Site × EnumDecl} (h : sd ∈ f.flattenEnums) :
    sd.1.root = f.path ∧ f.EnumAt (sd.1.scope ++ [sd.2.getName]) sd.2 := by
  rcases mem_flattenEnums.mp h with ⟨outer, houter, hsd⟩ | ⟨hsite, he⟩
  · obtain ⟨hroot, hat⟩ := messageAt_of_mem houter
    obtain ⟨e, he, rfl⟩ := List.mem_map.mp hsd
    exact ⟨hroot, .inside hat he⟩
  · rw [hsite]
    exact ⟨rfl, .outside he⟩

theorem exists_mem_of_enumAt {e : EnumDecl} (h : f.EnumAt chain e) :
    ∃ scope, chain = scope ++ [e.getName] ∧ (⟨f.path, scope⟩, e) ∈ f.flattenEnums := by
  cases h with
  | outside he => exact ⟨[], rfl, mem_flattenEnums.mpr (Or.inr ⟨rfl, he⟩)⟩
  | @inside chain d e hd he =>
    obtain ⟨scope, rfl, hmem⟩ := exists_mem_of_messageAt hd
    refine ⟨_, rfl, mem_flattenEnums.mpr (Or.inl ⟨_, hmem, ?_⟩)⟩
    exact List.mem_map_of_mem he

end FileDecl

/-! ## No two declarations have the same chain -/

/-- The names on the way to the declaration, and its own. -/
def Site.chain {δ : Type} (nameOf : δ → String) (sd : Site × δ) : List String :=
  sd.1.scope ++ [nameOf sd.2]

namespace MessageDecl

/-- A chain starts with the name of a message at the top. -/
theorem At.head_prefix {ds : List MessageDecl} {chain : List String} {d : MessageDecl}
    (h : At ds chain d) : ∃ d' ∈ ds, [d'.getName] <+: chain := by
  cases h with
  | here hd => exact ⟨_, hd, List.prefix_refl _⟩
  | inside ho hd => exact ⟨_, ho, [_].prefix_append _⟩

/-- The chains inside a message start with the chain of the message. -/
theorem prefix_chain {s : Site} {d : MessageDecl} {x : Site × MessageDecl}
    (hx : x ∈ d.flatten s) : s.scope ++ [d.getName] <+: Site.chain getName x := by
  obtain ⟨scope, hsite, hat⟩ := at_of_mem_flatten s d (List.mem_singleton_self d) x hx
  obtain ⟨d', hd', hprefix⟩ := hat.head_prefix
  rw [List.mem_singleton.mp hd'] at hprefix
  unfold Site.chain
  rw [hsite, List.append_assoc]
  exact (List.prefix_append_right_inj _).mpr hprefix

end MessageDecl

mutual

/-- Where names are distinct side by side, chains are distinct altogether. -/
theorem nodup_chains (s : Site) : (d : MessageDecl) →
    (∀ x ∈ d.flatten s, x.2.DistinctInside) →
      ((d.flatten s).map (Site.chain MessageDecl.getName)).Nodup
  | ⟨name, fields, messages, enums⟩, h => by
    rw [MessageDecl.flatten] at h ⊢
    have hself := h _ (List.mem_append_right _ List.mem_cons_self)
    have hinner := nodup_chainsAll (s.inside (name.getD "")) messages hself.1.1
      fun x hx => h x (List.mem_append_left _ hx)
    rw [List.map_append]
    refine hinner.append (List.nodup_singleton _) (List.disjoint_singleton.mpr fun hmem => ?_)
    -- The chains of what is inside are longer than that of the message.
    obtain ⟨x, hx, hchain⟩ := List.mem_map.mp hmem
    obtain ⟨d', _, hx'⟩ := MessageDecl.mem_flattenAll.mp hx
    have hlen := (MessageDecl.prefix_chain hx').length_le
    rw [hchain] at hlen
    simp [Site.chain, Site.inside] at hlen

theorem nodup_chainsAll (s : Site) : (ds : List MessageDecl) →
    (ds.map MessageDecl.getName).Nodup →
    (∀ x ∈ MessageDecl.flattenAll s ds, x.2.DistinctInside) →
      ((MessageDecl.flattenAll s ds).map (Site.chain MessageDecl.getName)).Nodup
  | [], _, _ => by simp [MessageDecl.flattenAll]
  | d :: ds, hnames, h => by
    rw [MessageDecl.flattenAll] at h ⊢
    obtain ⟨hd, hds⟩ := List.nodup_cons.mp hnames
    have hfirst := nodup_chains s d fun x hx => h x (List.mem_append_left _ hx)
    have hrest := nodup_chainsAll s ds hds fun x hx => h x (List.mem_append_right _ hx)
    rw [List.map_append]
    refine hfirst.append hrest fun chain hchain hchain' => hd ?_
    -- The name at the place after the scope tells in which of the messages a chain goes on.
    obtain ⟨x, hx, rfl⟩ := List.mem_map.mp hchain
    obtain ⟨y, hy, hxy⟩ := List.mem_map.mp hchain'
    obtain ⟨d', hd', hy'⟩ := MessageDecl.mem_flattenAll.mp hy
    have hprefix := MessageDecl.prefix_chain hx
    have hprefix' := hxy ▸ MessageDecl.prefix_chain hy'
    have hle := List.prefix_of_prefix_length_le hprefix hprefix' (by simp)
    have hsame := hle.eq_of_length (by simp)
    rw [(List.cons.inj (List.append_cancel_left hsame)).1]
    exact List.mem_map_of_mem hd'

end

end SchemaRegistry
