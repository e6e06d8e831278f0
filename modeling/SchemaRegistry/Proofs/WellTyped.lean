import Mathlib.Algebra.Ring.Int.Defs
import SchemaRegistry.Proofs.Binding
import SchemaRegistry.Proofs.DefaultText
import SchemaRegistry.Proofs.References
import SchemaRegistry.Proofs.Rounding

/-!
# Defaults fit the types of their fields

The type of a field and its default come from different parts of its declaration, and the type may
be changed later by a pass. But a text is read for the type that the field is built with, only
scalar types give a value, and a pass leaves these alone. So whatever has been imported and
resolved, and however the imports ended, a default is a value of the type that its field has
(`defaults_suit`).
-/

namespace SchemaRegistry

/-! ## Values for a type -/

/-- The value is one that the scalar type holds, and it may come from the text. Groups hold none. -/
def Value.Suits (text : String) : Scalar → Value → Prop
  | .int32, .int32 n | .sfixed32, .int32 n | .sint32, .int32 n => -2 ^ 31 ≤ n ∧ n ≤ 2 ^ 31 - 1
  | .int64, .int64 n | .sfixed64, .int64 n | .sint64, .int64 n => -2 ^ 63 ≤ n ∧ n ≤ 2 ^ 63 - 1
  | .uint32, .uint32 n | .fixed32, .uint32 n => 0 ≤ n ∧ n ≤ 2 ^ 32 - 1
  | .uint64, .uint64 n | .fixed64, .uint64 n => 0 ≤ n ∧ n ≤ 2 ^ 64 - 1
  | .bool, .bool _ => True
  | .double, .double _ => True
  | .float, .float x => x.IsSingle
  | .string, .string s => s = text
  | .bytes, .bytes bs => bs.length ≤ text.length
  | _, _ => False

namespace Default

/-- An escape stands for one byte and takes at least one character. -/
theorem length_unescapeChars (cs : List Char) : (unescapeChars cs).length ≤ cs.length := by
  fun_induction unescapeChars cs with
  | case1 => exact Nat.le_refl 0
  | case2 rest b length h ih =>
    rw [List.length_drop] at ih
    simp only [List.length_cons]
    omega
  | case3 rest h ih => exact Nat.succ_le_succ ih
  | case4 c rest h ih => exact Nat.succ_le_succ ih

/-- An integer that is accepted is in range. -/
theorem parseInteger_ok {range : IntegerRange} {s : String} {v : Value}
    (h : parseInteger range s = .ok v) :
    ∃ n, v = range.tag n ∧ range.low ≤ n ∧ n ≤ range.high := by
  unfold parseInteger at h
  split at h
  · cases h
  · rename_i literal _
    split at h
    · cases h
    · split at h <;> cases h
      rename_i hrange
      exact ⟨literal.value, rfl, hrange⟩

/-- A floating-point text that is accepted gives a value of its own kind. -/
theorem parseFloat_ok {s : String} {v : Value} (tag : Double → Value)
    (h : parseFloat s tag = .ok v) : ∃ x, v = tag x := by
  unfold parseFloat at h
  split at h
  · cases h
    exact ⟨_, rfl⟩
  · split at h
    · cases h
    · split at h <;> cases h
      exact ⟨_, rfl⟩

theorem parseBool_ok {s : String} {v : Value} (h : parseBool s = .ok v) : ∃ b, v = .bool b := by
  unfold parseBool at h
  split at h
  · cases h; exact ⟨true, rfl⟩
  · split at h <;> cases h
    exact ⟨false, rfl⟩

/-- **What a text is read as is a value of the type** that it is read for. -/
theorem parseScalar_ok {s : String} {k : Scalar} {v : Value} (h : parseScalar s k = .ok v) :
    k ≠ .group ∧ v.Suits s k := by
  -- The integer kinds have one parser with ranges, the others one each.
  cases hrange : range? k with
  | some range =>
    rw [parseScalar_of_range? hrange] at h
    obtain ⟨n, rfl, hn⟩ := parseInteger_ok h
    cases k <;> cases hrange <;> exact ⟨nofun, hn⟩
  | none =>
    cases k with
    | group => cases h
    | bool =>
      obtain ⟨b, rfl⟩ := parseBool_ok h
      exact ⟨nofun, trivial⟩
    | double =>
      obtain ⟨x, rfl⟩ := parseFloat_ok .double h
      exact ⟨nofun, trivial⟩
    | float =>
      obtain ⟨x, rfl⟩ := parseFloat_ok (fun x => .float x.toSingle) h
      exact ⟨nofun, x.isSingle_toSingle⟩
    | string => cases h; exact ⟨nofun, rfl⟩
    | bytes => cases h; exact ⟨nofun, length_unescapeChars s.toList⟩
    | _ => cases hrange

/-- Only scalar types have defaults, and each value suits its type. -/
theorem parse_ok {s : String} {t : StoredType} {v : Value} (h : parse s t = .ok v) :
    ∃ k, t.kind = .scalar k ∧ k ≠ .group ∧ v.Suits s k := by
  unfold parse at h
  split at h
  · rename_i k hk
    exact ⟨k, hk, parseScalar_ok h⟩
  · cases h

end Default

/-! ## Fields -/

/-- If the field has a default, then the declaration has a text for it, and the default is a value
of the type of the field, which is scalar and not a group. -/
structure Field.DefaultSuits (d : FieldDecl) (f : Field) : Prop where
  suits : ∀ v, f.default = some v →
    ∃ k s, f.type = .scalar k ∧ k ≠ .group ∧ d.default = some s ∧ v.Suits s k
  /-- References, bound or not, and groups have none. -/
  eq_none : (∀ k, f.type.kind = .scalar k → k = .group) → f.default = none

/-- A declared type number of a scalar gives that scalar and no name. -/
theorem StoredType.eq_scalar_of_ofNumber? {n : Int} {name : String} {t : StoredType} {k : Scalar}
    (h : ofNumber? n name = some t) (hk : t.kind = .scalar k) : t = .scalar k := by
  rcases ofNumber?_eq_some h with ⟨_, rfl⟩ | ⟨_, rfl⟩ | ⟨k', _, rfl⟩ <;> cases hk
  rfl

/-- A field keeps its default through all passes, and a scalar type with it. -/
theorem Field.Declared.defaultSuits {d : FieldDecl} {built f : Field} (h : built.Declared d)
    (hf : built.Becomes f) : f.DefaultSuits d := by
  -- The default is the one that was built, and a type with a default does not change.
  have hsuits : ∀ v, f.default = some v →
      ∃ k s, f.type = .scalar k ∧ k ≠ .group ∧ d.default = some s ∧ v.Suits s k := by
    intro v hv
    rw [hf.default_eq, h.default] at hv
    obtain ⟨s, hs, hparse⟩ := Option.bind_eq_some_iff.mp hv
    have hok : Default.parse s built.type = .ok v := by
      cases hp : Default.parse s built.type with
      | ok w => rw [hp] at hparse; cases hparse; rfl
      | error e => rw [hp] at hparse; cases hparse
    obtain ⟨k, hk, hgroup, hsuits⟩ := Default.parse_ok hok
    have hbuilt := StoredType.eq_scalar_of_ofNumber? h.type hk
    refine ⟨k, s, ?_, hgroup, hs, hsuits⟩
    rw [hf.type.eq_of_resolved (by rw [hk]; rfl), hbuilt]
  refine ⟨hsuits, fun hno => ?_⟩
  cases hv : f.default with
  | none => rfl
  | some v =>
    obtain ⟨k, s, hk, hgroup, _⟩ := hsuits v hv
    exact absurd (hno k (by rw [hk]; rfl)) hgroup

/-! ## Histories -/

/-- The message is one that `d` declares under `path`, with some of its references bound. -/
def Message.Descends (path : String) (d : MessageDecl) (m : Message) : Prop :=
  ∃ built, Declared path d built ∧ built.Becomes m

namespace Progress

/-- **Nothing becomes of a message but that its references are bound**, in any history. -/
theorem descends_after (steps : List Step) :
    List.Forall₂ (fun pd m => Message.Descends pd.1 pd.2 m) (Step.declared steps)
      ((after steps).registry.messageList (after steps).store) :=
  registered_after (R := fun _ => Message.Descends) (fun _ _ _ m h => ⟨m, h, .refl m⟩)
    (fun _ _ _ _ _ _ h => h)
    (fun p _ _ m _ ⟨built, hbuilt, hm⟩ => ⟨built, hbuilt, hm.trans (.resolveMessage p.registry m)⟩)
    steps

/--
**Defaults fit the types of their fields.**

After any history of imports, with those that fail on the way, and of passes, every registered
message is one that was declared, and field by field: where there is a default, the declaration
gives a text for it, the type of the field is a scalar type and not a group, and the default is a
value that this type holds. Integers are in the range of the type, single-precision numbers can be
held exactly in 32 bits or are infinite or NaN, strings are the text itself, and bytes are no more
than it has characters. Fields of messages, enums and groups have no default, resolved or not.
-/
theorem defaults_suit (steps : List Step) :
    let p := after steps
    (p.registry.messageList p.store).length = p.registry.messages.size
      ∧ List.Forall₂ (fun pd m => m.name = qualify pd.1 pd.2.getName
          ∧ List.Forall₂ Field.DefaultSuits pd.2.fields m.fields.toList)
        (Step.declared steps) (p.registry.messageList p.store) := by
  intro p
  refine ⟨(fits_after steps).messages.length_filterMap, (descends_after steps).imp ?_⟩
  rintro pd m ⟨built, ⟨hname, fs, hfs, hdecl⟩, hm⟩
  refine ⟨hm.name.trans hname, ?_⟩
  have hbecomes := hm.fields
  rw [hfs, Members.toList_ofList] at hbecomes
  exact forall₂_comp (fun _ _ _ hf hg => hf.defaultSuits hg) hdecl hbecomes

end Progress

end SchemaRegistry
