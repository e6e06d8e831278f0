import SchemaRegistry.Proofs.Decoding
import SchemaRegistry.Proofs.Piecewise
import SchemaRegistry.Proofs.Writing

/-!
# Sets read back

Loading bytes that hold a set of files is importing these files, whatever else is among the bytes:
`load_held`.
-/

namespace SchemaRegistry.Load

open Wire

/--
**What a file holds is what is loaded.**

Let the bytes of a file hold a set of files: for each property that is set there is one field, with
the entries of a list in order, and between the fields at any level there may be unknown ones, that
is fields with other numbers or with another kind of payload, and groups. Then exactly these files
are read, with every property set or unset as it was, and the load of the file ends as if they had
been imported: with the same registry or with the same error.

In particular the binary form of a set holds its files, unless it is too large or too deep or has a
number out of range.
-/
theorem load_held (host : Host) (path : String) (files : List FileDecl) (bytes : List UInt8)
    (includeDirs : List String) (resolve : Bool) :
    (Storable files → (encodeFileSet files).length < 0x80000000 →
        HoldsFiles files (encodeFileSet files))
      ∧ (HoldsFiles files bytes → Path.hasNul path = false → host.read path = .ok bytes →
        (∀ p, ((readSet host path).outcome p).1 = .ok files)
          ∧ (isSource path = false →
            SameEnd ((loadRegistry host [path] includeDirs resolve).outcome .empty)
              (Action.outcome (do
                (Import.importFiles files).adaptExcept .declaration
                if resolve then modify Progress.resolve) .empty))) := by
  refine ⟨holdsFiles_encode, fun hholds hname hread => ⟨fun p => ?_, fun hset => ?_⟩⟩
  -- The bytes decode to the files, as nothing is wrong with the path.
  · have hdecode : decodeSet path (host.read path) = .ok files := by
      unfold decodeSet
      rw [hname, if_neg Bool.false_ne_true, hread]
      dsimp only
      rw [hholds.decode]
    exact ((reads_readSetWith host.read path p).1).trans hdecode
  -- The inputs stand for this one set, and one set is imported as its files are.
  · have hsets : inputSets host [path] includeDirs = [files].map .ok := by
      rw [inputSets_single ⟨hname, hset, hread⟩, hholds.decode]
      rfl
    have hend := sameEnd_loadSets host [path] includeDirs resolve
    rw [hsets, loadSets, importSets_ok, List.flatten_singleton] at hend
    exact hend

/-- An enum with a value of a negative number. -/
def heldEnum : EnumDecl := ⟨some "E", [⟨some "MINUS", some (-1)⟩]⟩

/-- An enum with a negative number, in a file whose package is set but empty. -/
def heldSample : FileDecl :=
  { FileDecl.empty with name := some "a", package := some "", enums := [heldEnum] }

/-- The value, with a field of another number between its properties. -/
def heldValueBytes : List UInt8 :=
  writeText 1 "MINUS" ++ (writeTag 7 5 ++ [1, 2, 3, 4]) ++ writeInt 2 (-1)

/-- The enum, with that value in it. -/
def heldEnumBytes : List UInt8 := writeText 1 "E" ++ writeDelimited 2 heldValueBytes

/-- The file, with a number under the number of its name. -/
def heldFileBytes : List UInt8 :=
  writeNumber 1 5 ++ writeText 1 "a" ++ writeText 2 "" ++ writeDelimited 5 heldEnumBytes

/-- The set, with a group inside a group in front of its file. -/
def heldBytes : List UInt8 :=
  writeTag 98 3 ++ ((writeTag 97 3 ++ (writeNumber 1 300 ++ (writeTag 97 4 ++ [])))
    ++ (writeTag 98 4 ++ writeDelimited 1 heldFileBytes))

/-- The bytes of the sample hold its enum value, although they are not the ones that are written for
it. -/
theorem holdsEnumValue_held (depth : Nat) : HoldsEnumValue (depth + 1)
    ⟨some "MINUS", some (-1)⟩ heldValueBytes := by
  have hname : Framed depth _ (writeText 1 "MINUS") :=
    framed_writeDelimited (by decide) (by decide)
  have hother : Framed depth [⟨7, .fixed32 [1, 2, 3, 4]⟩] (writeTag 7 5 ++ [1, 2, 3, 4]) :=
    framed_single (by decide) (.fixed32 rfl) (by decide)
  have hnumber : Framed depth _ (writeInt 2 (-1)) := framed_writeNumber (by decide) (by decide)
  refine ⟨_, (hname.append hother).append hnumber, rfl, fun i hi => ?_, rfl⟩
  cases hi
  decide

/-- The bytes of the sample hold its file, unknown fields and all. -/
theorem holdsFiles_held : HoldsFiles [heldSample] heldBytes := by
  -- From the inside out: the enum, the file with a field that it does not know, and the set.
  have henum : HoldsEnum (maxDepth - 1) heldEnum heldEnumBytes := by
    have hname : Framed (maxDepth - 2) _ (writeText 1 "E") :=
      framed_writeDelimited (by decide) (by decide)
    have hvalue : Framed (maxDepth - 2) _ (writeDelimited 2 heldValueBytes) :=
      framed_writeDelimited (by decide) (by decide +kernel)
    exact ⟨_, hname.append hvalue, rfl, .cons (holdsEnumValue_held _) .nil⟩
  have hfile : HoldsFile maxDepth heldSample heldFileBytes := by
    have hother : Framed (maxDepth - 1) _ (writeNumber 1 5) :=
      framed_writeNumber (by decide) (by decide)
    have hname : Framed (maxDepth - 1) _ (writeText 1 "a") :=
      framed_writeDelimited (by decide) (by decide)
    have hpackage : Framed (maxDepth - 1) _ (writeText 2 "") :=
      framed_writeDelimited (by decide) (by decide)
    have henums : Framed (maxDepth - 1) _ (writeDelimited 5 heldEnumBytes) :=
      framed_writeDelimited (by decide) (by decide +kernel)
    exact ⟨_, ((hother.append hname).append hpackage).append henums, rfl, rfl, .nil,
      .cons henum .nil⟩
  have hset : Framed maxDepth _ (writeDelimited 1 heldFileBytes) :=
    framed_writeDelimited (by decide) (by decide +kernel)
  -- In front of the set is a group in a group, which is skipped.
  have hinside : Framed (maxDepth - 2) _ (writeNumber 1 300) :=
    framed_writeNumber (by decide) (by decide)
  have htag {number wireType : Nat} (hnumber : 0 < number ∧ number < 0x20000000)
      (htype : wireType < 8) := isTag_writeTag hnumber htype
  exact ⟨_, .group (htag (by decide) (by decide))
    (.group (htag (by decide) (by decide)) hinside (htag (by decide) (by decide)) .nil)
    (htag (by decide) (by decide)) hset, .cons hfile .nil⟩

/-- A host on which every file holds the set. -/
def heldHost : Host where
  workingDirectory := "/work"
  read := fun _ => .ok heldBytes
  writeFault := fun _ => none
  compiler := .missing
  scratchDirectory := "/tmp"

theorem load_held_heldHost :
    HoldsFiles [heldSample] (encodeFileSet [heldSample])
      ∧ HoldsFiles [heldSample] heldBytes
      ∧ ((readSet heldHost "a.bin").outcome .empty).1 = .ok [heldSample]
      ∧ SameEnd ((loadRegistry heldHost ["a.bin"] [] true).outcome .empty)
        (Action.outcome (do
          (Import.importFiles [heldSample]).adaptExcept .declaration
          modify Progress.resolve) .empty) := by
  obtain ⟨hwritten, hheld⟩ := load_held heldHost "a.bin" [heldSample] heldBytes [] true
  obtain ⟨hread, hload⟩ := hheld holdsFiles_held (by decide) rfl
  have hstorable : Storable [heldSample] := by
    intro d hd
    obtain rfl := List.mem_singleton.mp hd
    refine ⟨nofun, fun e he => ?_⟩
    obtain rfl := List.mem_singleton.mp he
    intro v hv
    obtain rfl := List.mem_singleton.mp hv
    refine ⟨by decide, fun i hi => ?_⟩
    cases hi
    decide
  exact ⟨hwritten hstorable (by decide +kernel), holdsFiles_held, hread .empty, hload (by decide)⟩

end SchemaRegistry.Load
