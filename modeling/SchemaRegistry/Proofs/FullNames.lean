import SchemaRegistry.Proofs.Chains
import SchemaRegistry.Proofs.History

/-!
# Full names identify declarations

In a registry that holds one file, with types that differ in their names wherever they are declared
side by side, the full names are all different, and each one leads to the one type that it was made
for (`names_identify`). It is enough to know that the registry lists what chains lead to (`Lists`),
which messages and enums share.
-/

namespace SchemaRegistry

namespace FileDecl

variable {f : FileDecl} {chain : List String}

/-! ## The lists of declarations -/

/-- The list has the declarations that the chains lead to, no two of them under the same chain, and
there are no dots in the names of the chains. -/
structure Lists {δ : Type} (f : FileDecl) (nameOf : δ → String) (At : List String → δ → Prop)
    (sds : List (Site × δ)) : Prop where
  root : ∀ sd ∈ sds, sd.1.root = f.path
  sound : ∀ sd ∈ sds, At (Site.chain nameOf sd) sd.2
  complete : ∀ chain d, At chain d →
    ∃ scope, chain = scope ++ [nameOf d] ∧ (⟨f.path, scope⟩, d) ∈ sds
  noDots : ∀ chain d, At chain d → ∀ n ∈ chain, '.' ∉ n.toList
  nodup : (sds.map (Site.chain nameOf)).Nodup

/-- Names on a chain have no dots if those declared side by side have none. -/
theorem noDots_of_at {ds : List MessageDecl} {d : MessageDecl} (h : MessageDecl.At ds chain d)
    (s : Site) (hds : Distinct (ds.map MessageDecl.getName))
    (hin : ∀ x ∈ MessageDecl.flattenAll s ds, x.2.DistinctInside) :
    ∀ n ∈ chain, '.' ∉ n.toList := by
  induction h generalizing s with
  | @here ds d hd =>
    -- The names in the chain are names of siblings, one level after another.
    intro n hn
    rw [List.mem_singleton.mp hn]
    exact hds.2 _ (List.mem_map_of_mem hd)
  | @inside ds outer d chain ho _ ih =>
    -- What is inside `outer` is in the flattening too, so the induction applies to it.
    have hsub : ∀ x ∈ outer.flatten s, x ∈ MessageDecl.flattenAll s ds :=
      fun x hx => MessageDecl.mem_flattenAll.mpr ⟨outer, ho, hx⟩
    rw [MessageDecl.flatten_eq] at hsub
    have houter := hin _ (hsub _ (List.mem_append_right _ List.mem_cons_self))
    have hchain := ih (s.inside outer.getName) houter.1
      fun x hx => hin x (hsub x (List.mem_append_left _ hx))
    exact List.forall_mem_cons.mpr ⟨hds.2 _ (List.mem_map_of_mem ho), hchain⟩

/-- The flattening of a file lists its messages by distinct chains. -/
theorem WellNamed.lists_messages (h : f.WellNamed) :
    f.Lists MessageDecl.getName f.MessageAt f.flatten where
  root _ hsd := (messageAt_of_mem hsd).1
  sound _ hsd := (messageAt_of_mem hsd).2
  complete _ _ hat := exists_mem_of_messageAt hat
  noDots _ _ hat := noDots_of_at hat f.site h.1 h.2.2
  nodup := nodup_chainsAll f.site f.messages h.1.1 h.2.2

/-- Chains to enums are distinct: enums of one message differ by name, and those of several by their
messages. -/
theorem nodup_enumChains (h : f.WellNamed) :
    (f.flattenEnums.map (Site.chain EnumDecl.getName)).Nodup := by
  have hinside (sd : Site × MessageDecl) :
      (enumsInside sd).map (Site.chain EnumDecl.getName)
        = (sd.2.enums.map EnumDecl.getName).map
            fun n => Site.chain MessageDecl.getName sd ++ [n] := by
    rw [enumsInside, List.map_map, List.map_map]
    rfl
  have houtside : (f.enums.map fun e => (f.site, e)).map (Site.chain EnumDecl.getName)
      = (f.enums.map EnumDecl.getName).map fun n => [n] := by
    rw [List.map_map, List.map_map]
    rfl
  unfold flattenEnums
  rw [flattenEnumsAll_eq, List.map_append, List.map_flatMap, houtside]
  simp only [hinside]
  refine List.Nodup.append ?_ (h.2.1.1.map fun _ _ heq => (List.cons.inj heq).1) ?_
  · refine List.nodup_flatMap.mpr ⟨fun sd hsd => ?_, ?_⟩
    · exact (h.2.2 sd hsd).2.1.map fun _ _ heq => (List.cons.inj (List.append_cancel_left heq)).1
    · -- Enums of different messages differ in what stands before their names.
      have hchains := List.pairwise_map.mp h.lists_messages.nodup
      refine hchains.imp fun hne chain hchain hchain' => hne ?_
      obtain ⟨n, _, rfl⟩ := List.mem_map.mp hchain
      obtain ⟨n', _, heq⟩ := List.mem_map.mp hchain'
      exact (List.append_inj_left' heq rfl).symm
  · -- The chain of an enum inside a message has at least two names.
    intro chain hchain hchain'
    obtain ⟨sd, _, hin⟩ := List.mem_flatMap.mp hchain
    obtain ⟨n, _, rfl⟩ := List.mem_map.mp hin
    obtain ⟨n', _, heq⟩ := List.mem_map.mp hchain'
    simpa [Site.chain] using congrArg List.length heq

/-- The flattening of a file lists its enums by distinct chains. -/
theorem WellNamed.lists_enums (h : f.WellNamed) :
    f.Lists EnumDecl.getName f.EnumAt f.flattenEnums where
  root _ hsd := (enumAt_of_mem hsd).1
  sound _ hsd := (enumAt_of_mem hsd).2
  complete _ _ hat := exists_mem_of_enumAt hat
  nodup := nodup_enumChains h
  noDots := by
    rintro _ _ (⟨he⟩ | ⟨hd, he⟩) n hn
    · rw [List.mem_singleton.mp hn]
      exact h.2.1.2 _ (List.mem_map_of_mem he)
    -- The last name is that of an enum, and the others are those of the message around it.
    · obtain ⟨scope, _, hmem⟩ := exists_mem_of_messageAt hd
      rcases List.mem_append.mp hn with hn | hn
      · exact h.lists_messages.noDots _ _ hd n hn
      · rw [List.mem_singleton.mp hn]
        exact (h.2.2 _ hmem).2.2 _ (List.mem_map_of_mem he)

end FileDecl

/-! ## Full names -/

/-- Under the full name of each declaration its own descriptor is found, no two declarations have
the same full name, and under any other string nothing is found. -/
structure Identifies {δ α : Type} (f : FileDecl) (At : List String → δ → Prop)
    (Declared : String → δ → α → Prop) (find : String → Option α) : Prop where
  found : ∀ chain d, At chain d →
    ∃ a, find (f.fullName chain) = some a ∧ Declared (f.fullName chain.dropLast) d a
  unique : ∀ chain chain' d d', At chain d → At chain' d' →
    f.fullName chain = f.fullName chain' → chain = chain' ∧ d = d'
  other : ∀ n, (∀ chain d, At chain d → n ≠ f.fullName chain) → find n = none

namespace FileDecl.Lists

variable {δ α : Type} {f : FileDecl} {nameOf : δ → String} {At : List String → δ → Prop}
  {Declared : String → δ → α → Prop} {sds : List (Site × δ)} {as : List α} {name : α → String}

/-- The full name of a listed declaration spells its chain. -/
theorem fullName_chain (h : f.Lists nameOf At sds) {sd : Site × δ} (hsd : sd ∈ sds) :
    f.fullName (Site.chain nameOf sd) = qualify sd.1.path (nameOf sd.2) := by
  have hsite : sd.1 = ⟨f.path, sd.1.scope⟩ := by rw [← h.root sd hsd]
  rw [hsite]
  exact Site.path_inside ⟨f.path, sd.1.scope⟩ (nameOf sd.2)

/-- **Full names are distinct.** -/
theorem nodup_names (h : f.Lists nameOf At sds)
    (hdecl : List.Forall₂ (fun sd a => Declared sd.1.path sd.2 a) sds as)
    (hname : ∀ path d a, Declared path d a → name a = qualify path (nameOf d)) :
    (as.map name).Nodup := by
  have hnames : as.map name = (sds.map (Site.chain nameOf)).map f.fullName := by
    -- Names are full names of chains, and these are told apart by their dots.
    rw [map_eq_of_forall₂ (fun _ _ ha => hname _ _ _ ha) hdecl, List.map_map]
    exact List.map_congr_left fun sd hsd => (h.fullName_chain hsd).symm
  rw [hnames]
  refine List.Nodup.map_on (fun chain hchain chain' hchain' heq => ?_) h.nodup
  obtain ⟨sd, hsd, rfl⟩ := List.mem_map.mp hchain
  obtain ⟨sd', hsd', rfl⟩ := List.mem_map.mp hchain'
  exact Site.path_injective (h.noDots _ _ (h.sound sd hsd)) (h.noDots _ _ (h.sound sd' hsd')) heq

/-- A full name stands for one chain and for one declaration. -/
theorem unique (h : f.Lists nameOf At sds) {chain chain' : List String} {d d' : δ}
    (hd : At chain d) (hd' : At chain' d') (heq : f.fullName chain = f.fullName chain') :
    chain = chain' ∧ d = d' := by
  have hchain := Site.path_injective (h.noDots _ _ hd) (h.noDots _ _ hd') heq
  obtain ⟨scope, rfl, hmem⟩ := h.complete _ _ hd
  obtain ⟨scope', rfl, hmem'⟩ := h.complete _ _ hd'
  exact ⟨hchain, congrArg Prod.snd (List.inj_on_of_nodup_map h.nodup hmem hmem' hchain)⟩

/-- What is found by name from the end of the list is found under the full names. -/
theorem identifies (h : f.Lists nameOf At sds)
    (hdecl : List.Forall₂ (fun sd a => Declared sd.1.path sd.2 a) sds as)
    (hname : ∀ path d a, Declared path d a → name a = qualify path (nameOf d))
    {find : String → Option α} (hfind : ∀ n, find n = as.reverse.find? fun a => name a = n) :
    Identifies f At Declared find where
  unique _ _ _ _ hd hd' heq := h.unique hd hd' heq
  found chain d hd := by
    obtain ⟨scope, rfl, hmem⟩ := h.complete chain d hd
    obtain ⟨a, ha, hda⟩ := exists_of_mem_forall₂ hdecl.flip hmem
    refine ⟨a, ?_, ?_⟩
    · rw [hfind, find?_reverse_eq_some_iff (h.nodup_names hdecl hname)]
      exact ⟨ha, (hname _ _ _ hda).trans (h.fullName_chain hmem).symm⟩
    · rw [List.dropLast_concat]
      exact hda
  other n hn := by
    -- A registered name is the full name of something declared, so another one finds nothing.
    rw [hfind, List.find?_eq_none]
    intro a ha hsame
    obtain ⟨sd, hsd, hda⟩ := exists_of_mem_forall₂ hdecl (List.mem_reverse.mp ha)
    refine hn _ _ (h.sound sd hsd) ?_
    rw [h.fullName_chain hsd, ← hname _ _ _ hda]
    exact (of_decide_eq_true hsame).symm

end FileDecl.Lists

/-! ## A registry with one file -/

namespace Import

/--
**Full names identify declarations.**

Let a file have no dots in the names of its types, and let messages declared side by side differ in
their names, and enums as well. If it is imported without an error into an empty registry, then the
registered message names are all different, and so are the enum names. A message is found by the
path of the file and the names on the way to it with a dot in front of each; only one way spells
this name, and under any other name there is none. The same holds for enums.
-/
theorem names_identify (s : Store) (f : FileDecl) (h : f.WellNamed)
    (hok : ((importFile f).outcome (.start s .empty)).1 = .ok ()) :
    let q := ((importFile f).outcome (.start s .empty)).2
    q.messageNames.Nodup ∧ q.enumNames.Nodup
      ∧ Identifies f f.MessageAt Message.Declared
          (fun n => q.registry.messages.find? n >>= q.store.message?)
      ∧ Identifies f f.EnumAt Enumeration.Declared
          (fun n => q.registry.enums.find? n >>= q.store.enum?) := by
  intro q
  have hverdict := ((importFile_follows f).outcome_eq_ok_iff _).mp hok
  -- A file that is imported whole has made all of its visits.
  have hq : q = f.walk.foldl Visit.perform (.start s .empty) := by
    have hrun := congrArg Prod.snd (importFile_follows f (.start s .empty))
    rwa [Walk.reached_eq_self hverdict] at hrun
  have happ := Progress.Appends.performAll f.walk (.start s .empty)
  have hfits := (Progress.leads_performAll f.walk (.start s .empty)).fits (Registry.fits_empty s)
  have hfiles : Walk.verdict ([f].flatMap FileDecl.walk) = .ok () := by
    rwa [List.flatMap_singleton]
  have hms := declared_messages hfiles
  have hes := declared_enums [f]
  rw [List.flatMap_singleton, List.flatMap_singleton] at hms hes
  rw [← hq] at happ hfits
  -- The registry was empty, so it lists what the visits registered.
  have hmlist : q.registry.messageList q.store = f.walk.flatMap Visit.messages :=
    happ.messages (Registry.fits_empty s)
  have helist : q.registry.enumList q.store = f.walk.flatMap Visit.enums :=
    happ.enums (Registry.fits_empty s)
  unfold Progress.messageNames Progress.enumNames
  rw [hmlist, helist]
  refine ⟨h.lists_messages.nodup_names hms fun _ _ _ hm => hm.1,
    h.lists_enums.nodup_names hes fun _ _ _ he => he.1,
    h.lists_messages.identifies hms (fun _ _ _ hm => hm.1) fun n => ?_,
    h.lists_enums.identifies hes (fun _ _ _ he => he.1) fun n => ?_⟩
  · rw [hfits.messages.find?_bind n, ← hmlist]
    rfl
  · rw [hfits.enums.find?_bind n, ← helist]
    rfl

/-- A file with unnamed messages one inside the other, and with an enum that has the name of the
message around it. -/
def unnamedSample : FileDecl where
  name := some "odd.proto"
  package := some ""
  messages :=
    [{ MessageDecl.empty with
       messages := [{ MessageDecl.empty with
         name := some "Step", enums := [⟨some "Step", [⟨some "ON", none⟩]⟩, .empty] }, .empty] }]
  enums := [.empty]

/-- Two dots and nothing else are the full name of the outer message, and of the enum beside it. -/
theorem names_identify_unnamedSample :
    let q := ((importFile unnamedSample).outcome (.start .empty .empty)).2
    ((importFile unnamedSample).outcome (.start .empty .empty)).1 = .ok ()
      ∧ unnamedSample.WellNamed
      ∧ (∃ m, q.registry.messages.find? ".." >>= q.store.message? = some m
        ∧ m.name = "..")
      ∧ (∃ e, q.registry.enums.find? "...Step.Step" >>= q.store.enum? = some e
        ∧ e.values.toList = [⟨"ON", 0⟩])
      ∧ q.registry.enums.find? "...Step" >>= q.store.enum? = none := by
  intro q
  have hok : ((importFile unnamedSample).outcome (.start .empty .empty)).1 = .ok () := rfl
  have hnamed : unnamedSample.WellNamed := by decide
  obtain ⟨_, _, hmessages, henums⟩ := names_identify .empty unnamedSample hnamed hok
  have hstep : unnamedSample.MessageAt ["", "Step"] _ :=
    .inside List.mem_cons_self (.here List.mem_cons_self)
  obtain ⟨m, hm, hname, _⟩ := hmessages.found [""] _ (.here List.mem_cons_self)
  obtain ⟨e, he, _, vs, hvs, hvalues⟩ := henums.found _ _ (.inside hstep List.mem_cons_self)
  refine ⟨hok, hnamed, ⟨m, hm, hname⟩, ⟨e, he, ?_⟩, henums.other _ fun chain e' he' => ?_⟩
  · rw [hvs, Members.toList_ofList]
    obtain ⟨⟨_, _⟩, _, ⟨rfl, rfl⟩, ⟨⟩, rfl⟩ := List.forall₂_cons_left_iff.mp hvalues
    rfl
  · have hnone : ∀ sd ∈ unnamedSample.flattenEnums,
        "...Step" ≠ unnamedSample.fullName (Site.chain EnumDecl.getName sd) := by decide
    obtain ⟨scope, rfl, hmem⟩ := FileDecl.exists_mem_of_enumAt he'
    exact hnone _ hmem

end Import

end SchemaRegistry
