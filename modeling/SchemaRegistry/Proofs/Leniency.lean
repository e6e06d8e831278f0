import Mathlib.Tactic.IntervalCases
import SchemaRegistry.Proofs.DefaultText
import SchemaRegistry.Proofs.Failure

/-!
# Defaults that do not fit

A default text that is no value of its type costs a field its default and nothing else. So if labels
and types are known and no group has a default, there is one text only that can stop an import: an
integer literal with more digits than are ever converted. `import_despite_defaults` says when under
these conditions an import succeeds, what has become of each default then, and which defaults the
events report.
-/

namespace SchemaRegistry

/-! ## Numbers of labels and types -/

theorem Label.exists_of_number {n : Int} (h : 1 ≤ n ∧ n ≤ 3) : ∃ l, ofNumber? n = some l := by
  obtain ⟨hlow, hhigh⟩ := h
  interval_cases n <;> exact ⟨_, rfl⟩

namespace StoredType

/-- Every number of a type is known. -/
theorem exists_of_number {n : Int} (h : 1 ≤ n ∧ n ≤ 18) (name : String) :
    ∃ t, ofNumber? n name = some t := by
  obtain ⟨hlow, hhigh⟩ := h
  interval_cases n <;> exact ⟨_, rfl⟩

/-- Numbers of scalars give scalars, whatever name comes with them. -/
theorem ofNumber?_of_scalar {n : Int} {k : Scalar} (h : Scalar.ofNumber? n = some k)
    (name : String) : ofNumber? n name = some (.scalar k) := by
  have h11 : n ≠ 11 := fun heq => by rw [heq] at h; cases h
  have h14 : n ≠ 14 := fun heq => by rw [heq] at h; cases h
  unfold ofNumber?
  rw [if_neg h11, if_neg h14, h]
  rfl

theorem scalar_of_ofNumber? {n : Int} {name : String} {t : StoredType} {k : Scalar}
    (h : ofNumber? n name = some t) (hk : t.kind = .scalar k) : Scalar.ofNumber? n = some k := by
  rcases ofNumber?_eq_some h with ⟨_, rfl⟩ | ⟨_, rfl⟩ | ⟨k', hk', rfl⟩
  · cases hk
  · cases hk
  · cases hk
    exact hk'

end StoredType

/-- Groups have one number. -/
theorem Scalar.number_of_group {n : Int} (hn : 1 ≤ n ∧ n ≤ 18) (h : ofNumber? n = some .group) :
    n = 10 := by
  obtain ⟨hlow, hhigh⟩ := hn
  revert h
  interval_cases n <;> decide

/-! ## One field -/

namespace FieldDecl

/-- Label and type are among those there are, and a group is given no default. -/
structure Regular (d : FieldDecl) : Prop where
  label : 1 ≤ d.getLabel ∧ d.getLabel ≤ 3
  type : 1 ≤ d.getType ∧ d.getType ≤ 18
  group : d.getType = 10 → d.default = none

instance (d : FieldDecl) : Decidable d.Regular :=
  decidable_of_iff ((1 ≤ d.getLabel ∧ d.getLabel ≤ 3) ∧ (1 ≤ d.getType ∧ d.getType ≤ 18)
      ∧ (d.getType = 10 → d.default = none))
    ⟨fun ⟨hl, ht, hg⟩ => ⟨hl, ht, hg⟩, fun h => ⟨h.label, h.type, h.group⟩⟩

/-- The default is an integer literal for the type of the field, with more digits than are ever
converted. -/
def IsOverlong (d : FieldDecl) (digits : Nat) : Prop :=
  ∃ s k, d.default = some s ∧ Scalar.ofNumber? d.getType = some k
    ∧ Default.IsOverlong s k digits

/-- What the log says of a default that is set and is no value of its type. -/
def discarded? (d : FieldDecl) : Option Event :=
  match d.default, StoredType.ofNumber? d.getType d.getTypeName with
  | some s, some t =>
    match Default.parse s t with
    | .ok _ => none
    | .error _ => some (.discardedDefault d.getName s)
  | _, _ => none

/-- A regular field is built as far as its default is read. -/
theorem Regular.ofDecl {d : FieldDecl} (h : d.Regular) :
    ∃ l t, StoredType.ofNumber? d.getType d.getTypeName = some t ∧ Field.ofDecl d
      = (Field.readDefault d.getName t d.default).map fun ve =>
        ({ name := d.getName, number := d.getNumber, label := l, type := t, default := ve.1,
           optional := d.isProto3Optional || l = .optional }, ve.2) := by
  -- The label and the type are there, so that only the default is left to fail.
  obtain ⟨l, hl⟩ := Label.exists_of_number h.label
  obtain ⟨t, ht⟩ := StoredType.exists_of_number h.type d.getTypeName
  refine ⟨l, t, ht, ?_⟩
  unfold Field.ofDecl
  rw [hl, ht]
  dsimp only
  cases Field.readDefault d.getName t d.default <;> rfl

/-- A default of too many digits stops the field. -/
theorem Regular.fault?_of_isOverlong {d : FieldDecl} (h : d.Regular) {n : Nat}
    (hn : d.IsOverlong n) : d.fault? = some (.tooManyDigits n) := by
  obtain ⟨l, t, ht, hbuild⟩ := h.ofDecl
  obtain ⟨s, k, hd, hk, hlong⟩ := hn
  rw [StoredType.ofNumber?_of_scalar hk] at ht
  obtain rfl := Option.some.inj ht
  rw [fault?_eq_some_iff, hbuild, hd, Field.readDefault, Default.parse_of_isOverlong hlong]
  rfl

/-- Otherwise the field is built, and the only event is about a default left out. -/
theorem Regular.overlong_or_built {d : FieldDecl} (h : d.Regular) :
    (∃ n, d.IsOverlong n) ∨ (d.fault? = none ∧ d.events = d.discarded?.toList) := by
  obtain ⟨l, t, ht, hbuild⟩ := h.ofDecl
  unfold fault? events discarded?
  rw [hbuild, ht]
  cases hd : d.default with
  | none => exact Or.inr ⟨rfl, rfl⟩
  | some s =>
    -- A default that cannot be read is discarded, unless it has too many digits.
    rw [Field.readDefault]
    dsimp only
    cases hp : Default.parse s t with
    | ok v => exact Or.inr ⟨rfl, rfl⟩
    | error e =>
      rcases Default.parse_error hp with rfl | ⟨hk, _⟩ | ⟨k, n, hk, hlong, _⟩
      · exact Or.inr ⟨rfl, rfl⟩
      · -- A group without a default has no text to parse.
        have hgroup := Scalar.number_of_group h.type (StoredType.scalar_of_ofNumber? ht hk)
        rw [h.group hgroup] at hd
        cases hd
      · exact Or.inl ⟨n, s, k, hd, StoredType.scalar_of_ofNumber? ht hk, hlong⟩

/-- **What becomes of a field.** It fails if its default is overlong; if not it is built, and a
default that does not fit is reported. -/
theorem Regular.outcome {d : FieldDecl} (h : d.Regular) :
    (∃ n, d.IsOverlong n ∧ d.fault? = some (.tooManyDigits n))
      ∨ ((∀ n, ¬ d.IsOverlong n) ∧ d.fault? = none ∧ d.events = d.discarded?.toList) := by
  rcases h.overlong_or_built with ⟨n, hn⟩ | ⟨hfault, hevents⟩
  · exact Or.inl ⟨n, hn, h.fault?_of_isOverlong hn⟩
  · refine Or.inr ⟨fun n hn => ?_, hfault, hevents⟩
    rw [h.fault?_of_isOverlong hn] at hfault
    cases hfault

end FieldDecl

/-- What becomes of the default of a field: its value if it fits the type, and else nothing. No
text fits a message or an enum. -/
structure Field.Lenient (d : FieldDecl) (f : Field) : Prop where
  unset : d.default = none → f.default = none
  fits : ∀ s v, d.default = some s → Default.parse s f.type = .ok v → f.default = some v
  misfit : ∀ s e, d.default = some s → Default.parse s f.type = .error e → f.default = none
  reference : d.getType = 11 ∨ d.getType = 14 → f.default = none

/-- References to messages and enums have no defaults. -/
theorem Default.parse_of_reference {n : Int} {name : String} {t : StoredType}
    (h : StoredType.ofNumber? n name = some t) (hn : n = 11 ∨ n = 14) (s : String) :
    parse s t = .error (.badText s) := by
  rcases hn with rfl | rfl
  · rw [← Option.some.inj h]
    rfl
  · rw [← Option.some.inj h]
    rfl

/-- A default that does not fit its type is as good as none. -/
theorem Field.Declared.lenient {d : FieldDecl} {f : Field} (h : f.Declared d) : f.Lenient d := by
  have hdefault := h.default
  refine ⟨fun hd => ?_, fun s v hd hp => ?_, fun s e hd hp => ?_, fun hd => ?_⟩
  -- No text, a text that is accepted, one that is not, and one of a type without defaults.
  · rw [hdefault, hd, Option.bind_none]
  · rw [hdefault, hd, Option.bind_some, hp]
    rfl
  · rw [hdefault, hd, Option.bind_some, hp]
    rfl
  · rw [hdefault]
    cases d.default with
    | none => rfl
    | some s => rw [Option.bind_some, Default.parse_of_reference h.type hd]; rfl

/-! ## The events of a walk -/

namespace Visit

/-- What is told of the visit. -/
def events : Visit → List Event
  | field d => d.events
  | file d => [.imported d.getName d.messages.length d.enums.length]
  | _ => []

theorem events_perform (p : Progress) (v : Visit) :
    (v.perform p).events.toList = p.events.toList ++ v.events := by
  cases v with
  | field d => exact Progress.noteAll_events p d.events
  | file d => exact Array.toList_push
  | enum path d => exact (List.append_nil _).symm
  | message path d => exact (List.append_nil _).symm

/-- A run of visits notes the events of each, in order. -/
theorem events_performAll (vs : List Visit) (p : Progress) :
    (vs.foldl perform p).events.toList = p.events.toList ++ vs.flatMap events := by
  induction vs generalizing p with
  | nil => simp
  | cons v vs ih => rw [List.foldl_cons, ih, events_perform, List.flatMap_cons, List.append_assoc]

end Visit

/-- Whether the event tells of a default that does not fit. -/
def Event.isDiscard : Event → Bool
  | discardedDefault .. => true
  | _ => false

/-- The fields of the files, in the order in which they are built. -/
def FileDecl.fields (files : List FileDecl) : List FieldDecl :=
  (preorderAll 0 files).flatMap fun x => x.decl.fields

/-- The event of a field is about its default. -/
theorem FieldDecl.isDiscard_of_discarded? {d : FieldDecl} {e : Event} (h : d.discarded? = some e) :
    e.isDiscard := by
  unfold discarded? at h
  split at h
  · split at h <;> cases h
    rfl
  · cases h

/-- Only fields tell of defaults, so a whole walk tells what they do one after another. -/
theorem filter_isDiscard_walk {files : List FileDecl}
    (h : ∀ d ∈ FileDecl.fields files, d.events = d.discarded?.toList) :
    ((files.flatMap FileDecl.walk).flatMap Visit.events).filter Event.isDiscard
      = (FileDecl.fields files).filterMap FieldDecl.discarded? := by
  have hfields : FileDecl.fields files = (files.flatMap FileDecl.walk).filterMap Visit.field? :=
    (fields_walk files).symm
  rw [hfields] at h ⊢
  -- Visit by visit: those that are not to a field tell of no default.
  rw [List.filterMap_filterMap, List.filterMap_eq_flatMap_toList, List.filter_flatMap]
  refine List.flatMap_congr fun v hv => ?_
  cases v with
  | field d =>
    show d.events.filter Event.isDiscard = d.discarded?.toList
    rw [h d (List.mem_filterMap.mpr ⟨_, hv, rfl⟩), List.filter_eq_self]
    intro e he
    exact FieldDecl.isDiscard_of_discarded? (Option.mem_toList.mp he)
  | _ => rfl

/-! ## Imports -/

/-- Without an overlong default every field can be built. -/
theorem verdict_of_regular {files : List FileDecl}
    (hreg : ∀ d ∈ FileDecl.fields files, d.Regular) :
    (Walk.verdict (files.flatMap FileDecl.walk) = .ok ()
        ↔ ∀ d ∈ FileDecl.fields files, ∀ n, ¬ d.IsOverlong n)
      ∧ ∀ e, Walk.verdict (files.flatMap FileDecl.walk) = .error e →
        ∃ d ∈ FileDecl.fields files, ∃ n, d.IsOverlong n ∧ e = .tooManyDigits n := by
  -- The faults are sought among the fields of all messages, wherever these are declared.
  have hfields : ∀ d, d ∈ FileDecl.fields files
      ↔ ∃ x ∈ FileDecl.preorderAll 0 files, d ∈ x.decl.fields := fun d => List.mem_flatMap
  refine ⟨?_, fun e he => ?_⟩
  · rw [verdict_files_eq_ok_iff]
    constructor
    · intro h d hd n hn
      obtain ⟨x, hx, hdx⟩ := (hfields d).mp hd
      rcases (hreg d hd).outcome with ⟨n', _, hfault⟩ | ⟨hnone, _⟩
      · rw [h x hx d hdx] at hfault
        cases hfault
      · exact hnone n hn
    · intro h x hx d hdx
      have hd := (hfields d).mpr ⟨x, hx, hdx⟩
      rcases (hreg d hd).outcome with ⟨n, hn, _⟩ | ⟨_, hnone, _⟩
      · exact absurd hn (h d hd n)
      · exact hnone
  · -- The field at which the import halts is one of the files, so its fault is known.
    obtain ⟨before, m, d', _, _, hhalts, _⟩ := exists_halts he
    obtain ⟨rest, horder⟩ := hhalts.order
    obtain ⟨ds, d, ds', hds, _, hfail⟩ := hhalts.fault
    have hd : d ∈ FileDecl.fields files := by
      refine (hfields d).mpr ⟨m, ?_, ?_⟩
      · rw [horder]; exact List.mem_append_right _ List.mem_cons_self
      · rw [hds]; exact List.mem_append_right _ List.mem_cons_self
    rcases (hreg d hd).outcome with ⟨n, hn, hfault⟩ | ⟨_, hnone, _⟩
    · rw [FieldDecl.fault?_eq_some_iff.mpr hfail] at hfault
      exact ⟨d, hd, n, hn, Option.some.inj hfault⟩
    · rw [FieldDecl.fault?_eq_some_iff.mpr hfail] at hnone
      cases hnone

namespace Workspace

/-- An import notes the events of the visits that it reaches. -/
theorem events_importFiles (w : Workspace) (name : String) (files : List FileDecl) :
    (w.apply name (.importFiles files)).events
      = (Walk.reached (files.flatMap FileDecl.walk)).flatMap Visit.events := by
  show ((Import.importFiles files).outcome (w.start name)).2.events.toList = _
  rw [Import.importFiles_follows files (w.start name)]
  exact Visit.events_performAll _ _

/--
**A default that does not fit stops no import, unless it is too long to be converted.**

Let labels and types be known and no group have a default. Then an import succeeds if and only if no
default is an integer literal, for an integer type, of more digits than are ever converted, and it
fails for no other cause. When it succeeds, every declared field is registered. It has the value of
its default if that fits, and otherwise none; and there is one report for each default that does not
fit, in pre-order of the messages and in the order of the fields.
-/
theorem import_despite_defaults (session : List (String × Change)) (name : String)
    (files : List FileDecl) (hreg : ∀ d ∈ FileDecl.fields files, d.Regular) :
    let w := after session
    let outcome := w.apply name (.importFiles files)
    (outcome.reply = .ok .done ↔ ∀ d ∈ FileDecl.fields files, ∀ n, ¬ d.IsOverlong n)
      ∧ (∀ err, outcome.reply = .error err → ∃ d ∈ FileDecl.fields files, ∃ n, d.IsOverlong n
        ∧ err = .declaration (.tooManyDigits n))
      ∧ (outcome.reply = .ok .done →
        (∃ ms es, Adds w outcome.workspace name ms es
          ∧ List.Forall₂ (fun sd m => Message.Declared sd.1.path sd.2 m
              ∧ List.Forall₂ Field.Lenient sd.2.fields m.fields.toList)
            (files.flatMap FileDecl.flatten) ms)
        ∧ outcome.events.filter Event.isDiscard
            = (FileDecl.fields files).filterMap FieldDecl.discarded?) := by
  intro w outcome
  obtain ⟨hok, herror⟩ := verdict_of_regular hreg
  have hreply : outcome.reply = ((Walk.verdict (files.flatMap FileDecl.walk)).mapError
      .declaration).map fun _ => .done := reply_importFiles w name files
  refine ⟨?_, ?_, ?_⟩
  -- The reply says whether the walk was without fault.
  · rw [← hok, hreply]
    cases Walk.verdict (files.flatMap FileDecl.walk) with
    | ok u => exact ⟨fun _ => rfl, fun _ => rfl⟩
    | error e => exact ⟨nofun, nofun⟩
  · intro err herr
    rw [hreply] at herr
    cases hverdict : Walk.verdict (files.flatMap FileDecl.walk) with
    | ok u => rw [hverdict] at herr; cases herr
    | error e =>
      rw [hverdict] at herr
      cases herr
      obtain ⟨d, hd, n, hn, rfl⟩ := herror e hverdict
      exact ⟨d, hd, n, hn, rfl⟩
  · intro hdone
    have hverdict := verdict_of_reply hdone
    have hreached := Walk.reached_eq_self hverdict
    refine ⟨⟨_, _, adds_importFiles (sound_after session) name files, ?_⟩, ?_⟩
    -- All visits have been made, so that all messages are registered as declared.
    · rw [hreached]
      refine (declared_messages hverdict).imp fun sd m hm => ⟨hm, ?_⟩
      obtain ⟨_, fs, hfs, hdecl⟩ := hm
      rw [hfs, Members.toList_ofList]
      exact hdecl.imp fun d f hf => hf.lenient
    -- Each discard is noted where its field was built.
    · rw [events_importFiles, hreached]
      refine filter_isDiscard_walk fun d hd => ?_
      rcases (hreg d hd).outcome with ⟨n, hn, _⟩ | ⟨_, _, hevents⟩
      · exact absurd hn (hok.mp hverdict d hd n)
      · exact hevents

/-- Defaults that fit and defaults that do not, at two levels, and one of a message field. -/
def mixedSample : FileDecl where
  name := some "mixed.proto"
  package := none
  messages :=
    [{ name := some "Outer"
       fields :=
         [{ FieldDecl.empty with name := some "count", type := some 5, default := some "ten" },
           { FieldDecl.empty with
             name := some "inner", type := some 11, typeName := some ".Outer.Inner"
             default := some "\x7b\x7d" }]
       messages := [{ MessageDecl.empty with
         name := some "Inner"
         fields :=
           [{ FieldDecl.empty with name := some "size", type := some 5, default := some "7" },
             { FieldDecl.empty with name := some "flag", type := some 8, default := some "yes" }] }]
       enums := [] }]
  enums := []

/-- An import with defaults that fit and one that does not. -/
theorem import_despite_defaults_mixedSample :
    let outcome := empty.apply "main" (.importFiles [mixedSample])
    (∀ d ∈ FileDecl.fields [mixedSample], d.Regular)
      ∧ outcome.reply = .ok .done
      ∧ outcome.events.filter Event.isDiscard
          = [.discardedDefault "count" "ten", .discardedDefault "inner" "\x7b\x7d",
            .discardedDefault "flag" "yes"] := by
  intro outcome
  have hreg : ∀ d ∈ FileDecl.fields [mixedSample], d.Regular := by decide
  obtain ⟨_, _, hdone⟩ := import_despite_defaults [] "main" [mixedSample] hreg
  have hreply : outcome.reply = .ok .done := rfl
  refine ⟨hreg, hreply, (hdone hreply).2.trans ?_⟩
  rfl

/-- A file with a message of one field. -/
def fieldSample (d : FieldDecl) : FileDecl where
  name := some "a.proto"
  package := none
  messages := [{ MessageDecl.empty with name := some "M", fields := [d] }]
  enums := []

theorem fields_fieldSample (d : FieldDecl) : FileDecl.fields [fieldSample d] = [d] := rfl

/-- A field with a fault stops the import of its file. -/
theorem reply_fieldSample {d : FieldDecl} {e : DeclarationError} (h : d.fault? = some e) :
    (empty.apply "main" (.importFiles [fieldSample d])).reply = .error (.declaration e) := by
  have hverdict : Walk.verdict ([fieldSample d].flatMap FileDecl.walk) = .error e := by
    show Walk.verdict (.field d :: _) = _
    unfold Walk.verdict
    rw [List.findSome?_cons, show Visit.fault? (.field d) = some e from h]
  rw [reply_importFiles, hverdict]
  rfl

/-- A field whose default is a number of one digit more than are ever converted. -/
def overlongField : FieldDecl where
  name := some "n"
  number := some 1
  label := some 1
  type := some 5
  typeName := none
  default := some (String.ofList (List.replicate 4301 '1'))
  proto3Optional := none

/-- The field has one digit more than are ever converted. -/
theorem isOverlong_overlongField : overlongField.IsOverlong 4301 := by
  refine ⟨_, .int32, rfl, rfl, Default.signed32, ⟨false, List.replicate 4301 '1'⟩, rfl,
    ⟨⟨fun h => ?_, fun c hc => ?_⟩, ?_⟩, List.length_replicate, by decide⟩
  · exact absurd ((List.replicate_eq_nil_iff _).mp h) (by decide)
  · rw [List.eq_of_mem_replicate hc]
    decide
  · exact Or.inr ⟨rfl, Or.inr String.toList_ofList⟩

/-- The number is far out of the range of its type, but the default is not just left out. -/
theorem overlong_default_stops_import :
    (∀ d ∈ FileDecl.fields [fieldSample overlongField], d.Regular)
      ∧ (empty.apply "main" (.importFiles [fieldSample overlongField])).reply
          = .error (.declaration (.tooManyDigits 4301)) := by
  have hregular : overlongField.Regular := ⟨by decide, by decide, nofun⟩
  refine ⟨fun d hd => ?_, ?_⟩
  · rw [fields_fieldSample, List.mem_singleton] at hd
    rw [hd]
    exact hregular
  · exact reply_fieldSample (hregular.fault?_of_isOverlong isOverlong_overlongField)

end Workspace

end SchemaRegistry
