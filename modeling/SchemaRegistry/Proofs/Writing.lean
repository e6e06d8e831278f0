import Mathlib.Algebra.Group.Nat.Defs
import SchemaRegistry.Proofs.Holding
import SchemaRegistry.Wire.Encode

/-!
# Written sets hold their files

The binary form of a set holds its files (`holdsFiles_encode`) if their numbers are in range, no
declaration is nested too deeply, and it takes less than 2 GiB.
-/

namespace SchemaRegistry.Wire

/-! ## Numbers and tags -/

theorem isVarint_last {limit n : Nat} (h : n < 128) :
    IsVarint (limit + 1) n [UInt8.ofNat n] := by
  have hn : (UInt8.ofNat n).toNat = n := UInt8.toNat_ofNat_of_lt' (show _ < 256 by omega)
  have hlast : IsVarint (limit + 1) _ [UInt8.ofNat n] := .last _ (by rwa [hn])
  rwa [hn] at hlast

/-- A number is written as a varint that holds it, if there are enough bytes for its bits. -/
theorem isVarint_writeVarint {limit n : Nat} (h : n < 128 ^ (limit + 1)) :
    IsVarint (limit + 1) n (writeVarint n) := by
  induction limit generalizing n with
  | zero =>
    have hsmall : n < 128 := h
    rw [writeVarint, if_pos hsmall]
    exact isVarint_last hsmall
  | succ limit ih =>
    rw [writeVarint]
    split
    · rename_i hsmall
      exact isVarint_last hsmall
    -- The low bits go into a byte that announces more, and the high ones behind it.
    · have hlow : (UInt8.ofNat (n % 128 + 128)).toNat = n % 128 + 128 :=
        UInt8.toNat_ofNat_of_lt' (show _ < 256 by omega)
      have hhigh : n / 128 < 128 ^ (limit + 1) := Nat.div_lt_of_lt_mul (by
        rwa [Nat.mul_comm, ← Nat.pow_succ])
      have hmore : IsVarint (limit + 2) _ (UInt8.ofNat (n % 128 + 128) :: writeVarint (n / 128)) :=
        .more _ (by rw [hlow]; omega) (ih hhigh)
      rw [hlow] at hmore
      have hn : n % 128 + 128 - 128 + 128 * (n / 128) = n := by omega
      rwa [hn] at hmore

/-- A tag is written as one that holds its number and wire type. -/
theorem isTag_writeTag {number wireType : Nat} (hnumber : 0 < number ∧ number < 0x20000000)
    (htype : wireType < 8) : IsTag number wireType (writeTag number wireType) where
  number_ne := by omega
  type_lt := htype
  fits := by omega
  spelled := isVarint_writeVarint (by omega)

/-! ## Fields -/

section

variable {depth number : Nat} (hnumber : 0 < number ∧ number < 0x20000000)
include hnumber

/-- One field makes a framed one-field list. -/
theorem framed_single {wireType : Nat} {payload : Payload} {bytes : List UInt8}
    (h : IsPayload wireType payload bytes) (htype : wireType < 8) :
    Framed depth [⟨number, payload⟩] (writeTag number wireType ++ bytes) := by
  have hframed : Framed depth [⟨number, payload⟩] _ :=
    .field (isTag_writeTag hnumber htype) h .nil
  rwa [List.append_nil] at hframed

theorem framed_writeDelimited {bytes : List UInt8} (h : bytes.length < 0x80000000) :
    Framed depth [⟨number, .delimited bytes⟩] (writeDelimited number bytes) := by
  unfold writeDelimited
  rw [List.append_assoc]
  exact framed_single hnumber (.delimited (isVarint_writeVarint (by omega)) h) (by decide)

theorem framed_writeNumber {n : Nat} (h : n < 0x10000000000000000) :
    Framed depth [⟨number, .varint n⟩] (writeNumber number n) := by
  have hpayload : IsPayload 0 (.varint (n % 0x10000000000000000)) (writeVarint n) :=
    .varint (isVarint_writeVarint (by omega))
  rw [Nat.mod_eq_of_lt h] at hpayload
  exact framed_single hnumber hpayload (by decide)

end

/-- The field of a text, or none if it is unset. -/
def textField (number : Nat) (s : Option String) : List RawField :=
  (s.map fun s => ⟨number, .delimited (Text.Utf8.ofString s)⟩).toList

/-- A signed number as it is written; nothing if it is unset. -/
def intField (number : Nat) (n : Option Int) : List RawField :=
  (n.map fun i => ⟨number, .varint (i % 0x10000000000000000).toNat⟩).toList

/-- A flag as it is written; nothing if it is unset. -/
def flagField (number : Nat) (b : Option Bool) : List RawField :=
  (b.map fun b => ⟨number, .varint b.toNat⟩).toList

/-- The entries of a list as they are written. -/
def listFields {α : Type} (number : Nat) (encode : α → List UInt8) (entries : List α) :
    List RawField :=
  entries.map fun a => ⟨number, .delimited (encode a)⟩

/-- A payload is no longer than the field around it. -/
theorem length_le_writeDelimited (number : Nat) (bytes : List UInt8) :
    bytes.length ≤ (writeDelimited number bytes).length := by
  unfold writeDelimited
  rw [List.length_append]
  omega

/-- If they are fewer than 2 GiB, the bytes are framed. -/
def Frames (depth : Nat) (fields : List RawField) (bytes : List UInt8) : Prop :=
  bytes.length < 0x80000000 → Framed depth fields bytes

/-- Framed fields may be put one behind another. -/
theorem Frames.append {depth : Nat} {front fields : List RawField} {bytes bytes' : List UInt8}
    (h : Frames depth front bytes) (h' : Frames depth fields bytes') :
    Frames depth (front ++ fields) (bytes ++ bytes') := by
  intro hsize
  rw [List.length_append] at hsize
  exact (h (by omega)).append (h' (by omega))

section

variable {depth : Nat} (number : Nat) (hnumber : 0 < number ∧ number < 0x20000000)
include hnumber

/-- A text is written if it is set. -/
theorem frames_textField (s : Option String) :
    Frames depth (textField number s) (ifSet s (writeText number)) := by
  intro hsize
  cases s with
  | none => exact .nil
  | some s =>
    exact framed_writeDelimited hnumber
      (Nat.lt_of_le_of_lt (length_le_writeDelimited number _) hsize)

theorem frames_intField (n : Option Int) :
    Frames depth (intField number n) (ifSet n (writeInt number)) := by
  intro _
  cases n with
  | none => exact .nil
  | some i => exact framed_writeNumber hnumber (by omega)

theorem frames_flagField (b : Option Bool) :
    Frames depth (flagField number b) (ifSet b fun b => writeNumber number b.toNat) := by
  intro _
  cases b with
  | none => exact .nil
  | some b => exact framed_writeNumber hnumber (Nat.lt_of_lt_of_le b.toNat_lt (by decide))

/-- Entries are written one behind another. -/
theorem frames_listFields {α : Type} (encode : α → List UInt8) (entries : List α) :
    Frames depth (listFields number encode entries)
      (entries.flatMap fun a => writeDelimited number (encode a)) := by
  induction entries with
  | nil => exact fun _ => .nil
  | cons a entries ih =>
    have ha : Frames depth [⟨number, .delimited (encode a)⟩] (writeDelimited number (encode a)) :=
      fun hsize => framed_writeDelimited hnumber
        (Nat.lt_of_le_of_lt (length_le_writeDelimited number _) hsize)
    rw [List.flatMap_cons]
    exact ha.append ih

end

section

variable (k number : Nat)

/-- A text is the payload of its own number only. -/
@[simp] theorem delimiteds_textField (s : Option String) : delimiteds k (textField number s)
    = if number = k then (s.map Text.Utf8.ofString).toList else [] := by
  cases s <;> simp [textField]

@[simp] theorem varints_textField (s : Option String) : varints k (textField number s) = [] := by
  cases s <;> simp [textField]

@[simp] theorem delimiteds_intField (n : Option Int) : delimiteds k (intField number n) = [] := by
  cases n <;> simp [intField]

/-- An integer is written in two's complement, under its own number only. -/
@[simp] theorem varints_intField (n : Option Int) : varints k (intField number n)
    = if number = k then (n.map fun i => (i % 0x10000000000000000).toNat).toList else [] := by
  cases n <;> simp [intField]

@[simp] theorem delimiteds_flagField (b : Option Bool) :
    delimiteds k (flagField number b) = [] := by
  cases b <;> simp [flagField]

@[simp] theorem varints_flagField (b : Option Bool) : varints k (flagField number b)
    = if number = k then (b.map Bool.toNat).toList else [] := by
  cases b <;> simp [flagField]

/-- Entries are payloads of their own number only, in their order. -/
@[simp] theorem delimiteds_listFields {α : Type} (encode : α → List UInt8) (entries : List α) :
    delimiteds k (listFields number encode entries)
      = if number = k then entries.map encode else [] := by
  induction entries with
  | nil => simp [listFields]
  | cons a entries ih =>
    rw [show listFields number encode (a :: entries)
      = ⟨number, .delimited (encode a)⟩ :: listFields number encode entries from rfl,
      delimiteds_cons (listFields number encode entries), ih]
    split <;> simp [*]

end

/-! ## Declarations that can be written -/

/-- The value can be written and read again. -/
def StorableEnumValue (depth : Nat) (v : EnumValueDecl) : Prop := 0 < depth ∧ IsInt32 v.number

/-- The levels allowed are enough for the declaration, and its numbers are in range. -/
def StorableEnum : (depth : Nat) → EnumDecl → Prop
  | 0, _ => False
  | inner + 1, e => ∀ v ∈ e.values, StorableEnumValue inner v

/-- The field can be written and read again: its numbers are in range. -/
structure StorableField (depth : Nat) (d : FieldDecl) : Prop where
  depth : 0 < depth
  number : IsInt32 d.number
  label : IsClosed 3 d.label
  type : IsClosed 18 d.type

/-- The message can be written and read again: nothing in it is out of range or nested too deep. -/
def StorableMessage : (depth : Nat) → MessageDecl → Prop
  | 0, _ => False
  | inner + 1, m => (∀ d ∈ m.fields, StorableField inner d)
    ∧ (∀ n ∈ m.messages, StorableMessage inner n) ∧ ∀ e ∈ m.enums, StorableEnum inner e

/-- The file can be written and read again. -/
def StorableFile : (depth : Nat) → FileDecl → Prop
  | 0, _ => False
  | inner + 1, d => (∀ m ∈ d.messages, StorableMessage inner m)
    ∧ ∀ e ∈ d.enums, StorableEnum inner e

/-- The files can be written as a set. -/
def Storable (files : List FileDecl) : Prop := ∀ d ∈ files, StorableFile maxDepth d

theorem IsClosed.isInt32 {last : Int} {n : Option Int} (h : IsClosed last n)
    (hlast : last < 0x80000000) : IsInt32 n := by
  intro i hi
  have := h i hi
  omega

/-! ## Written declarations -/

/-- An enum value is held by what is written for it. -/
theorem holdsEnumValue_encode {depth : Nat} {v : EnumValueDecl} (h : StorableEnumValue depth v)
    (hsize : (encodeEnumValue v).length < 0x80000000) :
    HoldsEnumValue depth v (encodeEnumValue v) := by
  obtain ⟨hdepth, hnumber⟩ := h
  cases depth with
  | zero => cases hdepth
  | succ inner =>
    have hframes : Frames inner _ _ := (frames_textField 1 (by decide) v.name).append
      (frames_intField 2 (by decide) v.number)
    refine ⟨_, hframes hsize, ?_, hnumber, ?_⟩
    · simp [TextAt, delimiteds_append]
    · simp [varints_append]

/-- The entries of a list hold what they are written from. -/
theorem listAt_of_mem {α : Type} {number : Nat} {encode : α → List UInt8} {entries : List α}
    {holds : α → List UInt8 → Prop} {fields : List RawField}
    (hfields : delimiteds number fields = entries.map encode)
    (hsize : (entries.flatMap fun a => writeDelimited number (encode a)).length < 0x80000000)
    (h : ∀ a ∈ entries, (encode a).length < 0x80000000 → holds a (encode a)) :
    ListAt number holds entries fields := by
  unfold ListAt
  rw [hfields, List.forall₂_map_right_iff, List.forall₂_same]
  intro a ha
  -- One entry is no longer than all of them.
  obtain ⟨front, others, rfl⟩ := List.append_of_mem ha
  rw [List.flatMap_append, List.flatMap_cons, List.length_append, List.length_append] at hsize
  have ha' := length_le_writeDelimited number (encode a)
  exact h a ha (by omega)

/-- So is an enum, with its values. -/
theorem holdsEnum_encode {depth : Nat} {e : EnumDecl} (h : StorableEnum depth e)
    (hsize : (encodeEnum e).length < 0x80000000) : HoldsEnum depth e (encodeEnum e) := by
  cases depth with
  | zero => exact h.elim
  | succ inner =>
    unfold encodeEnum at hsize ⊢
    refine ⟨_, ((frames_textField 1 (by decide) e.name).append
      (frames_listFields 2 (by decide) encodeEnumValue e.values)) hsize, ?_, ?_⟩
    · simp [TextAt, delimiteds_append]
    · rw [List.length_append] at hsize
      exact listAt_of_mem (by simp [delimiteds_append]) (by omega)
        fun v hv => holdsEnumValue_encode (h v hv)

/-- So is a field. -/
theorem holdsField_encode {depth : Nat} {d : FieldDecl} (h : StorableField depth d)
    (hsize : (encodeField d).length < 0x80000000) : HoldsField depth d (encodeField d) := by
  obtain ⟨hdepth, hnumber, hlabel, htype⟩ := h
  cases depth with
  | zero => cases hdepth
  | succ inner =>
    -- The fields come in the order of their numbers, those that are not set left out.
    have hframes : Frames inner _ _ := (frames_textField 1 (by decide) d.name)
      |>.append (frames_intField 3 (by decide) d.number)
      |>.append (frames_intField 4 (by decide) d.label)
      |>.append (frames_intField 5 (by decide) d.type)
      |>.append (frames_textField 6 (by decide) d.typeName)
      |>.append (frames_textField 7 (by decide) d.default)
      |>.append (frames_flagField 17 (by decide) d.proto3Optional)
    refine ⟨_, hframes hsize, ?_⟩
    constructor
    · simp [TextAt, delimiteds_append]
    · exact ⟨hnumber, by simp [varints_append]⟩
    · exact ⟨hlabel, hlabel.isInt32 (by decide), by simp [varints_append]⟩
    · exact ⟨htype, htype.isInt32 (by decide), by simp [varints_append]⟩
    · simp [TextAt, delimiteds_append]
    · simp [TextAt, delimiteds_append]
    · simp [FlagAt, varints_append]

theorem encodeMessages_eq (number : Nat) (ms : List MessageDecl) :
    encodeMessages number ms = ms.flatMap fun m => writeDelimited number (encodeMessage m) := by
  induction ms with
  | nil => rw [encodeMessages, List.flatMap_nil]
  | cons m ms ih => rw [encodeMessages, ih, List.flatMap_cons]

theorem encodeMessage_eq (m : MessageDecl) :
    encodeMessage m = ifSet m.name (writeText 1)
      ++ m.fields.flatMap (fun d => writeDelimited 2 (encodeField d))
      ++ m.messages.flatMap (fun n => writeDelimited 3 (encodeMessage n))
      ++ m.enums.flatMap fun e => writeDelimited 4 (encodeEnum e) := by
  cases m
  rw [encodeMessage, encodeMessages_eq]

/-- By induction on the levels allowed, which are one less for nested messages. -/
theorem holdsMessage_encode {depth : Nat} {m : MessageDecl} (h : StorableMessage depth m)
    (hsize : (encodeMessage m).length < 0x80000000) : HoldsMessage depth m (encodeMessage m) := by
  induction depth generalizing m with
  | zero => exact h.elim
  | succ inner ih =>
    obtain ⟨hfields, hmessages, henums⟩ := h
    have hframes : Frames inner _ _ := (frames_textField 1 (by decide) m.name)
      |>.append (frames_listFields 2 (by decide) encodeField m.fields)
      |>.append (frames_listFields 3 (by decide) encodeMessage m.messages)
      |>.append (frames_listFields 4 (by decide) encodeEnum m.enums)
    rw [encodeMessage_eq] at hsize ⊢
    refine ⟨_, hframes hsize, ?_⟩
    simp only [List.length_append] at hsize
    constructor
    · simp [TextAt, delimiteds_append]
    · exact listAt_of_mem (by simp [delimiteds_append]) (by omega)
        fun d hd => holdsField_encode (hfields d hd)
    · exact listAt_of_mem (by simp [delimiteds_append]) (by omega)
        fun n hn => ih (hmessages n hn)
    · exact listAt_of_mem (by simp [delimiteds_append]) (by omega)
        fun e he => holdsEnum_encode (henums e he)

/-- So is a file, with its messages and enums. -/
theorem holdsFile_encode {depth : Nat} {d : FileDecl} (h : StorableFile depth d)
    (hsize : (encodeFile d).length < 0x80000000) : HoldsFile depth d (encodeFile d) := by
  cases depth with
  | zero => exact h.elim
  | succ inner =>
    obtain ⟨hmessages, henums⟩ := h
    have hframes : Frames inner _ _ := (frames_textField 1 (by decide) d.name)
      |>.append (frames_textField 2 (by decide) d.package)
      |>.append (frames_listFields 4 (by decide) encodeMessage d.messages)
      |>.append (frames_listFields 5 (by decide) encodeEnum d.enums)
    unfold encodeFile at hsize ⊢
    rw [encodeMessages_eq] at hsize ⊢
    refine ⟨_, hframes hsize, ?_⟩
    simp only [List.length_append] at hsize
    constructor
    · simp [TextAt, delimiteds_append]
    · simp [TextAt, delimiteds_append]
    · exact listAt_of_mem (by simp [delimiteds_append]) (by omega)
        fun m hm => holdsMessage_encode (hmessages m hm)
    · exact listAt_of_mem (by simp [delimiteds_append]) (by omega)
        fun e he => holdsEnum_encode (henums e he)

/-- **A written set holds its files.** -/
theorem holdsFiles_encode {files : List FileDecl} (h : Storable files)
    (hsize : (encodeFileSet files).length < 0x80000000) :
    HoldsFiles files (encodeFileSet files) :=
  ⟨listFields 1 encodeFile files, frames_listFields 1 (by decide) encodeFile files hsize,
    listAt_of_mem (by simp) hsize fun d hd => holdsFile_encode (h d hd)⟩

end SchemaRegistry.Wire
