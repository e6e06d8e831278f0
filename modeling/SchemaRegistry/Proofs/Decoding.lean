import SchemaRegistry.Proofs.Concatenation
import SchemaRegistry.Proofs.Holding
import SchemaRegistry.Proofs.TextBytes

/-!
# Reading what bytes hold

What is read from bytes that hold a declaration is this declaration, whatever else is among their
fields: `HoldsFiles.decode`.

A declaration is read field by field. For each kind of declaration an `After` says what any fields
make of it: the last payload under the number of a property counts, and those under the number of a
list append. That is shown for one field, and it follows for all.
-/

namespace SchemaRegistry.Wire

/-! ## Reading properties -/

/-- The last of the payloads, or what was there before if there is none. -/
def lastOf {α β : Type} (read : β → α) (before : Option α) (payloads : List β) : Option α :=
  payloads.foldl (fun _ b => some (read b)) before

/-- The last of two stretches counts, and the first one if there is nothing in the second. -/
theorem lastOf_append {α β : Type} (read : β → α) (before : Option α) (front payloads : List β) :
    lastOf read before (front ++ payloads) = lastOf read (lastOf read before front) payloads :=
  List.foldl_append

/-- The text that the fields hold is the text read from them. -/
theorem TextAt.read {number : Nat} {s : Option String} {fields : List RawField}
    (h : TextAt number s fields) : lastOf text none (delimiteds number fields) = s := by
  rw [h]
  cases s with
  | none => rfl
  | some s => exact congrArg some (Text.Utf8.toString_ofString s)

/-- The low half of the 64 bits is the number again. -/
theorem toInt32_toNat {i : Int} (h : -0x80000000 ≤ i ∧ i < 0x80000000) :
    toInt32 (i % 0x10000000000000000).toNat = i := by
  unfold toInt32
  rw [Int.toNat_of_nonneg (Int.emod_nonneg i (by decide)), Int.bmod_def]
  split <;> omega

theorem IntAt.read {number : Nat} {n : Option Int} {fields : List RawField}
    (h : IntAt number n fields) : lastOf toInt32 none (varints number fields) = n := by
  rw [h.2]
  cases n with
  | none => rfl
  | some i => exact congrArg some (toInt32_toNat (h.1 i rfl))

/-- A number in range is not passed over. -/
theorem ClosedAt.read {number : Nat} {last : Int} {n : Option Int} {fields : List RawField}
    (h : ClosedAt number last n fields) :
    (varints number fields).foldl (toClosed last) none = n := by
  rw [h.2.2]
  cases n with
  | none => rfl
  | some i =>
    rw [Option.map_some, Option.toList_some, List.foldl_cons, List.foldl_nil, toClosed,
      toInt32_toNat (h.2.1 i rfl), if_pos (h.1 i rfl)]

theorem FlagAt.read {number : Nat} {b : Option Bool} {fields : List RawField}
    (h : FlagAt number b fields) :
    lastOf (fun n => decide (n ≠ 0)) none (varints number fields) = b := by
  rw [h]
  cases b with
  | none => rfl
  | some b => cases b <;> rfl

/-! ## Reading lists -/

/-- All the payloads can be read, and what is read is added at the end of the list. -/
def Extends {α : Type} (read : List UInt8 → Except WireError α) (before : List α)
    (payloads : List (List UInt8)) (after : List α) : Prop :=
  ∃ entries : List α, payloads.map read = entries.map .ok ∧ after = before ++ entries

namespace Extends

variable {α : Type} {read : List UInt8 → Except WireError α} {before after : List α}

/-- Without payloads there is nothing to add. -/
theorem eq_of_nil (h : Extends read before [] after) : after = before := by
  obtain ⟨entries, hentries, rfl⟩ := h
  rw [List.map_eq_nil_iff.mp hentries.symm, List.append_nil]

theorem of_single {payload : List UInt8} (h : Extends read before [payload] after) :
    ∃ a, read payload = .ok a ∧ after = before ++ [a] := by
  obtain ⟨entries, hentries, rfl⟩ := h
  obtain ⟨a, rfl, ha⟩ := List.map_eq_singleton_iff.mp hentries.symm
  exact ⟨a, ha.symm, rfl⟩

/-- Lists are read stretch by stretch. -/
theorem of_append {front payloads : List (List UInt8)}
    (h : Extends read before (front ++ payloads) after) :
    ∃ middle, Extends read before front middle ∧ Extends read middle payloads after := by
  obtain ⟨entries, hentries, rfl⟩ := h
  rw [List.map_append] at hentries
  obtain ⟨first, others, rfl, hfirst, hothers⟩ := List.map_eq_append_iff.mp hentries.symm
  exact ⟨before ++ first, ⟨first, hfirst.symm, rfl⟩,
    ⟨others, hothers.symm, (List.append_assoc ..).symm⟩⟩

end Extends

/-- The entries that the fields hold are read one by one. -/
theorem ListAt.read {α : Type} {number : Nat} {holds : α → List UInt8 → Prop} {entries : List α}
    {fields : List RawField} {read : List UInt8 → Except WireError α}
    (h : ListAt number holds entries fields)
    (hread : ∀ a payload, holds a payload → read payload = .ok a) :
    Extends read [] (delimiteds number fields) entries := by
  refine ⟨entries, ?_, rfl⟩
  unfold ListAt at h
  generalize delimiteds number fields = payloads at h
  induction h with
  | nil => rfl
  | cons hfirst _ ih => rw [List.map_cons, List.map_cons, ih, hread _ _ hfirst]

/-! ## Reading declarations -/

/-- What is held by framed bytes is read from their fields. -/
theorem Holds.foldFields {α : Type} {depth : Nat} {bytes : List UInt8}
    {holds : Nat → List RawField → Prop} (h : Holds depth bytes holds) (a : α)
    (step : Nat → α → RawField → Except WireError α) : ∃ inner fields, holds inner fields
      ∧ Wire.foldFields depth bytes a step = fields.foldlM (step inner) a := by
  cases depth with
  | zero => exact h.elim
  | succ inner =>
    obtain ⟨fields, hframed, hfields⟩ := h
    refine ⟨inner, fields, hfields, ?_⟩
    rw [foldFields_succ, hframed.scan]
    cases fields.foldlM (step inner) a <;> rfl

/-- Let `After` say what fields make of a declaration. It is enough to know that it is right about a
single field, and that fields can be taken one by one. -/
theorem foldlM_of_after {α : Type} {step : α → RawField → Except WireError α}
    (After : α → List RawField → α → Prop) (hnil : ∀ {a c}, After a [] c → a = c)
    (hstep : ∀ {a f c}, After a [f] c → step a f = .ok c)
    (hcons : ∀ {a f fields c}, After a (f :: fields) c →
      ∃ b, After a [f] b ∧ After b fields c)
    {a c : α} {fields : List RawField} (h : After a fields c) :
    fields.foldlM step a = .ok c := by
  induction fields generalizing a with
  | nil => exact congrArg Except.ok (hnil h)
  | cons f fields ih =>
    -- One field is read as the step says, and `b` is where the others start.
    obtain ⟨b, hfirst, hothers⟩ := hcons h
    rw [List.foldlM_cons, hstep hfirst]
    exact ih hothers

/-! ### Enum values -/

/-- How an enum value takes in one of its fields. -/
def enumValueStep (v : EnumValueDecl) (f : RawField) : Except WireError EnumValueDecl :=
  match f with
  | ⟨1, .delimited b⟩ => .ok { v with name := some (text b) }
  | ⟨2, .varint n⟩ => .ok { v with number := some (toInt32 n) }
  | _ => .ok v

/-- What reading the fields makes of a value read so far. -/
structure EnumValueAfter (v : EnumValueDecl) (fields : List RawField) (v' : EnumValueDecl) :
    Prop where
  name : v'.name = lastOf text v.name (delimiteds 1 fields)
  number : v'.number = lastOf toInt32 v.number (varints 2 fields)

theorem enumValueStep_of_after {v v' : EnumValueDecl} {f : RawField}
    (h : EnumValueAfter v [f] v') : enumValueStep v f = .ok v' := by
  show _ = Except.ok (EnumValueDecl.mk v'.name v'.number)
  rw [h.name, h.number]
  unfold enumValueStep
  split
  · rfl
  · rfl
  · rename_i hname hnumber
    rw [delimiteds_of_ne hname, varints_of_ne hnumber]
    rfl

/-- The fields are read one after another. -/
theorem EnumValueAfter.of_cons {v v' : EnumValueDecl} {f : RawField} {fields : List RawField}
    (h : EnumValueAfter v (f :: fields) v') :
    ∃ w, EnumValueAfter v [f] w ∧ EnumValueAfter w fields v' := by
  obtain ⟨hname, hnumber⟩ := h
  rw [delimiteds_cons fields, lastOf_append] at hname
  rw [varints_cons fields, lastOf_append] at hnumber
  exact ⟨⟨_, _⟩, ⟨rfl, rfl⟩, hname, hnumber⟩

/-- **A value is read as it is held.** -/
theorem HoldsEnumValue.decode {depth : Nat} {v : EnumValueDecl} {bytes : List UInt8}
    (h : HoldsEnumValue depth v bytes) : decodeEnumValue depth bytes = .ok v := by
  obtain ⟨_, fields, ⟨hname, hnumber⟩, hfold⟩ := h.foldFields .empty fun _ => enumValueStep
  refine hfold.trans (foldlM_of_after EnumValueAfter ?_ enumValueStep_of_after
    EnumValueAfter.of_cons
    ⟨hname.read.symm, hnumber.read.symm⟩)
  intro v v' h
  exact (congrArg₂ EnumValueDecl.mk h.name h.number).symm

/-! ### Enums -/

/-- What reading one field makes of an enum. -/
def enumStep (inner : Nat) (e : EnumDecl) (f : RawField) : Except WireError EnumDecl :=
  match f with
  | ⟨1, .delimited b⟩ => .ok { e with name := some (text b) }
  | ⟨2, .delimited b⟩ => do
    let v ← decodeEnumValue inner b
    return { e with values := e.values ++ [v] }
  | _ => .ok e

/-- What reading the fields makes of an enum read so far. -/
structure EnumAfter (inner : Nat) (e : EnumDecl) (fields : List RawField) (e' : EnumDecl) :
    Prop where
  name : e'.name = lastOf text e.name (delimiteds 1 fields)
  values : Extends (decodeEnumValue inner) e.values (delimiteds 2 fields) e'.values

/-- Reading one field is a step of the fold. -/
theorem enumStep_of_after {inner : Nat} {e e' : EnumDecl} {f : RawField}
    (h : EnumAfter inner e [f] e') : enumStep inner e f = .ok e' := by
  -- The name is read at once; what is left differs by the number of the field.
  show _ = Except.ok (EnumDecl.mk e'.name e'.values)
  obtain ⟨hname, hvalues⟩ := h
  rw [hname]
  unfold enumStep
  split
  · rw [hvalues.eq_of_nil]
    rfl
  · obtain ⟨v, hv, hvalues⟩ := hvalues.of_single
    rw [hvalues, hv]
    rfl
  -- The field is of neither kind, and nothing is added.
  · rename_i noName noValue
    rw [delimiteds_of_ne noValue] at hvalues
    rw [hvalues.eq_of_nil, delimiteds_of_ne noName]
    rfl

theorem EnumAfter.of_cons {inner : Nat} {e e' : EnumDecl} {f : RawField} {fields : List RawField}
    (h : EnumAfter inner e (f :: fields) e') :
    ∃ d, EnumAfter inner e [f] d ∧ EnumAfter inner d fields e' := by
  obtain ⟨hname, hvalues⟩ := h
  rw [delimiteds_cons fields, lastOf_append] at hname
  rw [delimiteds_cons fields] at hvalues
  obtain ⟨values, hfirst, hothers⟩ := hvalues.of_append
  exact ⟨⟨_, values⟩, ⟨rfl, hfirst⟩, hname, hothers⟩

/-- **An enum is read as it is held**, with its values in their order. -/
theorem HoldsEnum.decode {depth : Nat} {e : EnumDecl} {bytes : List UInt8}
    (h : HoldsEnum depth e bytes) : decodeEnum depth bytes = .ok e := by
  obtain ⟨inner, fields, ⟨hname, hvalues⟩, hfold⟩ := h.foldFields .empty enumStep
  refine hfold.trans (foldlM_of_after (EnumAfter inner) ?_ enumStep_of_after
    EnumAfter.of_cons ⟨hname.read.symm, hvalues.read fun _ _ => HoldsEnumValue.decode⟩)
  intro e e' h
  exact (congrArg₂ EnumDecl.mk h.name h.values.eq_of_nil).symm

/-! ### Fields -/

/-- What reading one field makes of the field of a message. -/
def fieldStep (d : FieldDecl) (f : RawField) : Except WireError FieldDecl :=
  match f with
  | ⟨1, .delimited b⟩ => .ok { d with name := some (text b) }
  | ⟨3, .varint n⟩ => .ok { d with number := some (toInt32 n) }
  | ⟨4, .varint n⟩ => .ok { d with label := toClosed 3 d.label n }
  | ⟨5, .varint n⟩ => .ok { d with type := toClosed 18 d.type n }
  | ⟨6, .delimited b⟩ => .ok { d with typeName := some (text b) }
  | ⟨7, .delimited b⟩ => .ok { d with default := some (text b) }
  | ⟨17, .varint n⟩ => .ok { d with proto3Optional := some (n ≠ 0) }
  | _ => .ok d

/-- What reading the fields makes of a field of a message read so far. Labels and types out of range
are passed over. -/
structure FieldAfter (d : FieldDecl) (fields : List RawField) (d' : FieldDecl) : Prop where
  name : d'.name = lastOf text d.name (delimiteds 1 fields)
  number : d'.number = lastOf toInt32 d.number (varints 3 fields)
  label : d'.label = (varints 4 fields).foldl (toClosed 3) d.label
  type : d'.type = (varints 5 fields).foldl (toClosed 18) d.type
  typeName : d'.typeName = lastOf text d.typeName (delimiteds 6 fields)
  default : d'.default = lastOf text d.default (delimiteds 7 fields)
  proto3Optional :
    d'.proto3Optional = lastOf (fun n => decide (n ≠ 0)) d.proto3Optional (varints 17 fields)

/-- Each number is that of one property at most, so a single field changes one at most. -/
theorem fieldStep_of_after {d d' : FieldDecl} {f : RawField} (h : FieldAfter d [f] d') :
    fieldStep d f = .ok d' := by
  show _ = Except.ok (FieldDecl.mk d'.name d'.number d'.label d'.type d'.typeName d'.default
    d'.proto3Optional)
  -- Each of the seven members is the last one set, or what it was. One step sets at most one.
  rw [h.name, h.number, h.label, h.type, h.typeName, h.default, h.proto3Optional]
  unfold fieldStep
  split
  -- The label and the type are set by a fold over the values, here a single one.
  case h_3 => rw [foldl_varints_self]; rfl
  case h_4 => rw [foldl_varints_self]; rfl
  case h_8 hname hnumber hlabel htype htypeName hdefault hflag =>
    rw [delimiteds_of_ne hname, varints_of_ne hnumber, varints_of_ne hlabel, varints_of_ne htype,
      delimiteds_of_ne htypeName, delimiteds_of_ne hdefault, varints_of_ne hflag]
    rfl
  all_goals rfl

theorem FieldAfter.of_cons {d d' : FieldDecl} {f : RawField} {fields : List RawField}
    (h : FieldAfter d (f :: fields) d') : ∃ c, FieldAfter d [f] c ∧ FieldAfter c fields d' := by
  obtain ⟨hname, hnumber, hlabel, htype, htypeName, hdefault, hflag⟩ := h
  rw [delimiteds_cons fields, lastOf_append] at hname htypeName hdefault
  rw [varints_cons fields, lastOf_append] at hnumber hflag
  rw [varints_cons fields, List.foldl_append] at hlabel htype
  exact ⟨⟨_, _, _, _, _, _, _⟩, ⟨rfl, rfl, rfl, rfl, rfl, rfl, rfl⟩, hname, hnumber, hlabel, htype,
    htypeName, hdefault, hflag⟩

/-- **A field is read as it is held.** -/
theorem HoldsField.decode {depth : Nat} {d : FieldDecl} {bytes : List UInt8}
    (h : HoldsField depth d bytes) : decodeField depth bytes = .ok d := by
  obtain ⟨_, fields, hfields, hfold⟩ := h.foldFields .empty fun _ => fieldStep
  refine hfold.trans (foldlM_of_after FieldAfter ?_ fieldStep_of_after
    FieldAfter.of_cons ?_)
  · intro d d' h
    show d = FieldDecl.mk d'.name d'.number d'.label d'.type d'.typeName d'.default
      d'.proto3Optional
    rw [h.name, h.number, h.label, h.type, h.typeName, h.default, h.proto3Optional]
    rfl
  · exact ⟨hfields.name.read.symm, hfields.number.read.symm, hfields.label.read.symm,
      hfields.type.read.symm, hfields.typeName.read.symm, hfields.default.read.symm,
      hfields.proto3Optional.read.symm⟩

/-! ### Messages -/

/-- What reading the fields makes of a message read so far, given the reader of the messages inside
it. -/
structure MessageAfter (nested : List UInt8 → Except WireError MessageDecl) (depth : Nat)
    (m : MessageDecl) (raw : List RawField) (m' : MessageDecl) : Prop where
  name : m'.name = lastOf text m.name (delimiteds 1 raw)
  fields : Extends (decodeField depth) m.fields (delimiteds 2 raw) m'.fields
  messages : Extends nested m.messages (delimiteds 3 raw) m'.messages
  enums : Extends (decodeEnum depth) m.enums (delimiteds 4 raw) m'.enums

theorem message_eta (m : MessageDecl) : m = ⟨m.name, m.fields, m.messages, m.enums⟩ := by
  cases m
  rfl

theorem messageStep_of_after {nested : List UInt8 → Except WireError MessageDecl} {depth : Nat}
    {m m' : MessageDecl} {f : RawField} (h : MessageAfter nested depth m [f] m') :
    messageStep nested depth m f = .ok m' := by
  -- One field adds to one of the lists at most, and the others get nothing.
  obtain ⟨hname, hfields, hmessages, henums⟩ := h
  rw [message_eta m', hname]
  unfold messageStep
  split
  · rw [hfields.eq_of_nil, hmessages.eq_of_nil, henums.eq_of_nil]
    rfl
  · obtain ⟨d, hd, hfields⟩ := hfields.of_single
    rw [hfields, hd, hmessages.eq_of_nil, henums.eq_of_nil]
    rfl
  · obtain ⟨d, hd, hmessages⟩ := hmessages.of_single
    rw [hfields.eq_of_nil, hmessages, hd, henums.eq_of_nil]
    rfl
  · obtain ⟨d, hd, henums⟩ := henums.of_single
    rw [hfields.eq_of_nil, hmessages.eq_of_nil, henums, hd]
    rfl
  -- An unknown field is in none of the lists.
  · rename_i noName noField noMessage noEnum
    rw [delimiteds_of_ne noField] at hfields
    rw [delimiteds_of_ne noMessage] at hmessages
    rw [delimiteds_of_ne noEnum] at henums
    rw [hfields.eq_of_nil, hmessages.eq_of_nil, henums.eq_of_nil, delimiteds_of_ne noName]
    exact congrArg Except.ok (message_eta m)

/-- The fields of a message are read one after another, too. -/
theorem MessageAfter.of_cons {nested : List UInt8 → Except WireError MessageDecl} {depth : Nat}
    {m m' : MessageDecl} {f : RawField} {raw : List RawField}
    (h : MessageAfter nested depth m (f :: raw) m') :
    ∃ d, MessageAfter nested depth m [f] d ∧ MessageAfter nested depth d raw m' := by
  obtain ⟨hname, hfields, hmessages, henums⟩ := h
  rw [delimiteds_cons raw, lastOf_append] at hname
  rw [delimiteds_cons raw] at hfields hmessages henums
  -- Each list is split where the first field ends.
  obtain ⟨fields, hfield, hfields⟩ := hfields.of_append
  obtain ⟨messages, hmessage, hmessages⟩ := hmessages.of_append
  obtain ⟨enums, henum, henums⟩ := henums.of_append
  exact ⟨⟨_, fields, messages, enums⟩, ⟨rfl, hfield, hmessage, henum⟩,
    hname, hfields, hmessages, henums⟩

/-- By induction on the levels allowed, which are one less in nested messages. -/
theorem HoldsMessage.decode {depth : Nat} {m : MessageDecl} {bytes : List UInt8}
    (h : HoldsMessage depth m bytes) : decodeMessage depth bytes = .ok m := by
  -- The induction is on the depth, which a nested message uses up by one.
  induction depth generalizing m bytes with
  | zero => exact h.elim
  | succ depth ih =>
    obtain ⟨inner, raw, hraw, hfold⟩ := Holds.foldFields h .empty
      fun _ => messageStep (decodeMessage depth) depth
    refine hfold.trans (foldlM_of_after (MessageAfter (decodeMessage depth) depth) ?_
      messageStep_of_after MessageAfter.of_cons ?_)
    · intro m m' h
      rw [message_eta m', h.name, h.fields.eq_of_nil, h.messages.eq_of_nil, h.enums.eq_of_nil]
      exact message_eta m
    · exact ⟨hraw.name.read.symm, hraw.fields.read fun _ _ => HoldsField.decode,
        hraw.messages.read fun _ _ => ih, hraw.enums.read fun _ _ => HoldsEnum.decode⟩

/-! ### Files and sets of files -/

/-- What reading one field makes of a file. -/
def fileStep (inner : Nat) (d : FileDecl) (f : RawField) : Except WireError FileDecl :=
  match f with
  | ⟨1, .delimited b⟩ => .ok { d with name := some (text b) }
  | ⟨2, .delimited b⟩ => .ok { d with package := some (text b) }
  | ⟨4, .delimited b⟩ => do
    let m ← decodeMessage inner b
    return { d with messages := d.messages ++ [m] }
  | ⟨5, .delimited b⟩ => do
    let e ← decodeEnum inner b
    return { d with enums := d.enums ++ [e] }
  | _ => .ok d

/-- What reading the fields makes of a file read so far. -/
structure FileAfter (inner : Nat) (d : FileDecl) (fields : List RawField) (d' : FileDecl) :
    Prop where
  name : d'.name = lastOf text d.name (delimiteds 1 fields)
  package : d'.package = lastOf text d.package (delimiteds 2 fields)
  messages : Extends (decodeMessage inner) d.messages (delimiteds 4 fields) d'.messages
  enums : Extends (decodeEnum inner) d.enums (delimiteds 5 fields) d'.enums

/-- Reading one field is a step of the fold over a file. -/
theorem fileStep_of_after {inner : Nat} {d d' : FileDecl} {f : RawField}
    (h : FileAfter inner d [f] d') : fileStep inner d f = .ok d' := by
  show _ = Except.ok (FileDecl.mk d'.name d'.package d'.messages d'.enums)
  -- As for messages, one field adds to one list at most.
  obtain ⟨hname, hpackage, hmessages, henums⟩ := h
  rw [hname, hpackage]
  unfold fileStep
  split
  · rw [hmessages.eq_of_nil, henums.eq_of_nil]
    rfl
  · rw [hmessages.eq_of_nil, henums.eq_of_nil]
    rfl
  · obtain ⟨m, hm, hmessages⟩ := hmessages.of_single
    rw [hmessages, hm, henums.eq_of_nil]
    rfl
  · obtain ⟨e, he, henums⟩ := henums.of_single
    rw [hmessages.eq_of_nil, henums, he]
    rfl
  · rename_i noName noPackage noMessage noEnum
    rw [delimiteds_of_ne noMessage] at hmessages
    rw [delimiteds_of_ne noEnum] at henums
    rw [hmessages.eq_of_nil, henums.eq_of_nil, delimiteds_of_ne noName,
      delimiteds_of_ne noPackage]
    rfl

theorem FileAfter.of_cons {inner : Nat} {d d' : FileDecl} {f : RawField} {fields : List RawField}
    (h : FileAfter inner d (f :: fields) d') :
    ∃ c, FileAfter inner d [f] c ∧ FileAfter inner c fields d' := by
  obtain ⟨hname, hpackage, hmessages, henums⟩ := h
  rw [delimiteds_cons fields, lastOf_append] at hname hpackage
  rw [delimiteds_cons fields] at hmessages henums
  obtain ⟨messages, hmessage, hmessages⟩ := hmessages.of_append
  obtain ⟨enums, henum, henums⟩ := henums.of_append
  exact ⟨⟨_, _, messages, enums⟩, ⟨rfl, rfl, hmessage, henum⟩, hname, hpackage, hmessages, henums⟩

/-- **A file is read as it is held.** -/
theorem HoldsFile.decode {depth : Nat} {d : FileDecl} {bytes : List UInt8}
    (h : HoldsFile depth d bytes) : decodeFile depth bytes = .ok d := by
  obtain ⟨inner, fields, hfields, hfold⟩ := h.foldFields .empty fileStep
  refine hfold.trans (foldlM_of_after (FileAfter inner) ?_ fileStep_of_after
    FileAfter.of_cons ?_)
  · intro d d' h
    show d = FileDecl.mk d'.name d'.package d'.messages d'.enums
    rw [h.name, h.package, h.messages.eq_of_nil, h.enums.eq_of_nil]
    rfl
  · exact ⟨hfields.name.read.symm, hfields.package.read.symm,
      hfields.messages.read fun _ _ => HoldsMessage.decode,
      hfields.enums.read fun _ _ => HoldsEnum.decode⟩

theorem setStep_of_extends {inner : Nat} {files files' : List FileDecl} {f : RawField}
    (h : Extends (decodeFile inner) files (delimiteds 1 [f]) files') :
    setStep inner files f = .ok files' := by
  unfold setStep
  split
  · obtain ⟨d, hd, rfl⟩ := h.of_single
    rw [hd]
    rfl
  · rename_i noFile
    rw [delimiteds_of_ne noFile] at h
    rw [h.eq_of_nil]

/-- **What is read from bytes that hold some files is these files.** -/
theorem HoldsFiles.decode {files : List FileDecl} {bytes : List UInt8}
    (h : HoldsFiles files bytes) : decodeFileSet bytes = .ok files := by
  obtain ⟨inner, fields, hfields, hfold⟩ := Holds.foldFields h [] setStep
  refine hfold.trans (foldlM_of_after
    (fun files fields => Extends (decodeFile inner) files (delimiteds 1 fields))
    (fun h => h.eq_of_nil.symm) setStep_of_extends (fun {_ _ fields _} h => ?_)
    (hfields.read fun _ _ => HoldsFile.decode))
  rw [delimiteds_cons fields] at h
  exact h.of_append

end SchemaRegistry.Wire
