import SchemaRegistry.Proofs.PathText
import SchemaRegistry.Proofs.Splitting

/-!
# Where imports are looked for

The compiler is given the directories of its sources and those that are asked for besides, each of
them once and in the order in which they first occur (`listsOnce_importPath`). Directories of
sources are normal paths, so sources that stand in one directory add it once between them, however
their paths are spelled. `compile_command` says all this of the command line that is run.
-/

namespace SchemaRegistry

namespace Load

/-! ## First occurrences -/

/-- All that is asked for is listed, except empty texts: each once, and in the order in which they
first occur. -/
structure ListsOnce (asked listed : List String) : Prop where
  nodup : listed.Nodup
  mem_iff : ∀ d, d ∈ listed ↔ d ∈ asked ∧ d ≠ ""
  ordered : listed.Pairwise fun d e => asked.idxOf d < asked.idxOf e

variable {d : String} {ds seen : List String}

theorem firstOccurrences_of_mem (h : d ∈ seen) :
    firstOccurrences seen (d :: ds) = firstOccurrences seen ds := if_pos h

theorem firstOccurrences_of_notMem (h : d ∉ seen) :
    firstOccurrences seen (d :: ds) = d :: firstOccurrences (d :: seen) ds := if_neg h

/-- No directory is lost but those that were seen. -/
theorem mem_firstOccurrences {x : String} :
    x ∈ firstOccurrences seen ds ↔ x ∈ ds ∧ x ∉ seen := by
  induction ds generalizing seen with
  | nil => simp [firstOccurrences]
  | cons d ds ih =>
    -- The directory is dropped if it was seen, and else it counts as seen from here on.
    by_cases hd : d ∈ seen
    · rw [firstOccurrences_of_mem hd, ih, List.mem_cons]
      refine and_congr_left fun hx => (or_iff_right ?_).symm
      rintro rfl
      exact hx hd
    · rw [firstOccurrences_of_notMem hd, List.mem_cons, ih, List.mem_cons, List.mem_cons]
      by_cases hx : x = d
      · subst hx
        simp [hd]
      · simp [hx]

/-- No directory is listed twice. -/
theorem nodup_firstOccurrences (seen ds : List String) : (firstOccurrences seen ds).Nodup := by
  induction ds generalizing seen with
  | nil => exact List.nodup_nil
  | cons d ds ih =>
    by_cases hd : d ∈ seen
    · rw [firstOccurrences_of_mem hd]
      exact ih seen
    · rw [firstOccurrences_of_notMem hd, List.nodup_cons]
      exact ⟨fun hmem => (mem_firstOccurrences.mp hmem).2 List.mem_cons_self, ih (d :: seen)⟩

/-- The directories come in the order in which they first occur. -/
theorem pairwise_firstOccurrences (seen ds : List String) :
    (firstOccurrences seen ds).Pairwise fun x y => ds.idxOf x < ds.idxOf y := by
  induction ds generalizing seen with
  | nil => exact .nil
  | cons d ds ih =>
    -- What is not `d` itself stands one place further on behind `d`.
    have hbehind {seen : List String} (hd : d ∈ seen) : (firstOccurrences seen ds).Pairwise
        fun x y => (d :: ds).idxOf x < (d :: ds).idxOf y := by
      refine (ih seen).imp_of_mem fun {x y} hx hy hlt => ?_
      have hne {z : String} (hz : z ∈ firstOccurrences seen ds) : d ≠ z :=
        fun heq => (mem_firstOccurrences.mp hz).2 (heq ▸ hd)
      rw [List.idxOf_cons_ne _ (hne hx), List.idxOf_cons_ne _ (hne hy)]
      exact Nat.succ_lt_succ hlt
    by_cases hd : d ∈ seen
    · rw [firstOccurrences_of_mem hd]
      exact hbehind hd
    · rw [firstOccurrences_of_notMem hd]
      refine .cons (fun x hx => ?_) (hbehind List.mem_cons_self)
      have hne : d ≠ x := fun heq => (mem_firstOccurrences.mp hx).2 (heq ▸ List.mem_cons_self)
      rw [List.idxOf_cons_self, List.idxOf_cons_ne _ hne]
      exact Nat.succ_pos _

/-- Leaving out the empty texts is the same as having seen one. -/
theorem firstOccurrences_nonempty {seen' : List String}
    (h : ∀ x, x ∈ seen' ↔ x = "" ∨ x ∈ seen) :
    firstOccurrences seen (ds.filter (· ≠ "")) = firstOccurrences seen' ds := by
  induction ds generalizing seen seen' with
  | nil => rfl
  | cons d ds ih =>
    -- Empty directories are as if they had been seen.
    by_cases hempty : d = ""
    · rw [List.filter_cons_of_neg (by simpa using hempty),
        firstOccurrences_of_mem ((h d).mpr (.inl hempty)), ih h]
    rw [List.filter_cons_of_pos (by simpa using hempty)]
    by_cases hd : d ∈ seen
    · rw [firstOccurrences_of_mem hd, firstOccurrences_of_mem ((h d).mpr (.inr hd)), ih h]
    · have hd' : d ∉ seen' := fun hmem => ((h d).mp hmem).elim hempty hd
      rw [firstOccurrences_of_notMem hd, firstOccurrences_of_notMem hd', ih fun x => ?_]
      rw [List.mem_cons, h x, List.mem_cons, or_left_comm]

/-- What has occurred before adds nothing. -/
theorem firstOccurrences_repeated {front : List String} (back : List String)
    (h : d ∈ seen ∨ d ∈ front) :
    firstOccurrences seen (front ++ d :: back) = firstOccurrences seen (front ++ back) := by
  induction front generalizing seen with
  | nil => exact firstOccurrences_of_mem (h.resolve_right List.not_mem_nil)
  | cons x front ih =>
    rw [List.cons_append, List.cons_append]
    -- Either way `d` has been seen when its repetition is come to.
    by_cases hx : x ∈ seen
    · rw [firstOccurrences_of_mem hx, firstOccurrences_of_mem hx]
      refine ih (h.elim .inl fun hd => ?_)
      rcases List.mem_cons.mp hd with rfl | hd
      · exact .inl hx
      · exact .inr hd
    · rw [firstOccurrences_of_notMem hx, firstOccurrences_of_notMem hx]
      refine congrArg (x :: ·)
        (ih (h.elim (fun hd => .inl (List.mem_cons_of_mem x hd)) fun hd => ?_))
      rcases List.mem_cons.mp hd with rfl | hd
      · exact .inl List.mem_cons_self
      · exact .inr hd

/-! ## The import path -/

/-- The directory that a source stands in. -/
def sourceDirectory (host : Host) (source : String) : String :=
  Path.directoryText (Path.absolute host.workingDirectory source).text

variable {host : Host} {sources includeDirs : List String}

theorem sourceDirectory_eq (host : Host) (source : String) : sourceDirectory host source
    = (Path.absolute host.workingDirectory source).parent.text :=
  Path.directoryText_text (Path.normal_absolute _ _)

/-- The path is the first occurrences of the directories of the sources, and of those given, without
empty ones. -/
theorem importPath_eq (host : Host) (sources includeDirs : List String) :
    importPath host sources includeDirs
      = firstOccurrences [""] (sources.map (sourceDirectory host) ++ includeDirs) := by
  rw [funext (sourceDirectory_eq host)]
  exact firstOccurrences_nonempty fun x => by simp

/-- The path lists the directories in the sense of `ListsOnce`. -/
theorem listsOnce_importPath (host : Host) (sources includeDirs : List String) :
    ListsOnce (sources.map (sourceDirectory host) ++ includeDirs)
      (importPath host sources includeDirs) := by
  rw [importPath_eq]
  exact ⟨nodup_firstOccurrences _ _,
    fun d => by rw [mem_firstOccurrences, List.mem_singleton], pairwise_firstOccurrences _ _⟩

/-- Sources have the same directory, as a text, only if they stand in the same one. -/
theorem sourceDirectory_eq_iff {s t : String} : sourceDirectory host s = sourceDirectory host t
    ↔ (Path.absolute host.workingDirectory s).parent
      = (Path.absolute host.workingDirectory t).parent := by
  rw [sourceDirectory_eq, sourceDirectory_eq]
  exact ⟨Path.text_injective (Path.normal_absolute _ _).parent (Path.normal_absolute _ _).parent,
    congrArg Path.Absolute.text⟩

/-- A source beside an earlier one adds nothing to the path. -/
theorem importPath_source (host : Host) (includeDirs more : List String) {t : String}
    (h : sourceDirectory host t ∈ sources.map (sourceDirectory host)) :
    importPath host (sources ++ t :: more) includeDirs
      = importPath host (sources ++ more) includeDirs := by
  rw [importPath_eq, importPath_eq, List.map_append, List.map_append, List.map_cons,
    List.append_assoc, List.append_assoc, List.cons_append]
  exact firstOccurrences_repeated _ (.inr h)

/-- A directory that was given before adds nothing to the path. -/
theorem importPath_includeDir (host : Host) (sources more : List String) (h : d ∈ includeDirs) :
    importPath host sources (includeDirs ++ d :: more)
      = importPath host sources (includeDirs ++ more) := by
  rw [importPath_eq, importPath_eq, ← List.append_assoc, ← List.append_assoc]
  exact firstOccurrences_repeated _ (.inr (List.mem_append_right _ h))

/--
**Imports are looked for in each directory once.**

The command line of a compilation has a directory behind each `-I`, and the sources behind them all,
as they are given. It is run, whatever becomes of that, unless there is a NUL character in one of
its words; then nothing is run and the compilation fails. The directories are those of the sources
and those asked for besides, without empty texts and repetitions, in the order in which they first
occur.

The directory of a source is that of the path which the source means in the working directory, and
its text is normal. Two sources have the same directory text only if they stand in one directory.
So the directory of a source is listed once, and a further source from there does not change the
list, whatever sources follow. Nor does a source or a directory that is given once more.
-/
theorem compile_command (host : Host) (sources includeDirs : List String) (p : Progress) :
    let path := Path.absolute host.workingDirectory
    let directory := fun s => Path.directoryText (path s).text
    let dirs := importPath host
    let line := ["protoc", "--include_imports", "--descriptor_set_out=" ++ outputPath host]
      ++ (dirs sources includeDirs).flatMap (fun d => ["-I", d]) ++ sources
    let compiled := (compileSet host sources includeDirs).outcome p
    ((∀ word ∈ line, Path.hasNul word = false) → compiled.2.commands = p.commands.push line)
      ∧ (∀ word ∈ line, Path.hasNul word = true →
        compiled.1 = .error .nulInPath ∧ compiled.2.commands = p.commands)
      ∧ ListsOnce (sources.map directory ++ includeDirs) (dirs sources includeDirs)
      ∧ (∀ s, Path.Means host.workingDirectory s (path s) ∧ Path.IsNormalText (directory s))
      ∧ (∀ s t, directory s = directory t ↔ (path s).parent = (path t).parent)
      ∧ (∀ s ∈ sources, (dirs sources includeDirs).count (directory s) = 1
        ∧ ∀ t more, (path t).parent = (path s).parent →
          dirs (sources ++ t :: more) includeDirs = dirs (sources ++ more) includeDirs)
      ∧ (∀ s ∈ sources, dirs (sources ++ [s]) includeDirs = dirs sources includeDirs)
      ∧ ∀ d ∈ includeDirs, dirs sources (includeDirs ++ [d]) = dirs sources includeDirs := by
  intro path directory dirs line compiled
  -- The directories, each listed once and spelled in its normal form.
  have hlists : ListsOnce (sources.map directory ++ includeDirs) (dirs sources includeDirs) :=
    listsOnce_importPath host sources includeDirs
  have hnormal (s : String) : Path.IsNormalText (directory s) := by
    rw [show directory s = (path s).parent.text from sourceDirectory_eq host s]
    exact (Path.normal_absolute _ _).parent.isNormalText
  have hsame (s t : String) : directory s = directory t ↔ (path s).parent = (path t).parent :=
    sourceDirectory_eq_iff
  have hcommands := commands_compileSet host sources includeDirs p
  refine ⟨fun hline => ?_, fun word hword hnul => ?_, hlists,
    fun s => ⟨Path.means_iff.mpr rfl, hnormal s⟩, hsame, fun s hs => ⟨?_, fun t more ht => ?_⟩,
    fun s hs => ?_, fun d hd => ?_⟩
  -- The command line is run, unless a word of it cannot be passed on.
  · exact hcommands.trans (if_neg (not_any_hasNul.mpr hline))
  · have hany : line.any Path.hasNul = true := List.any_eq_true.mpr ⟨word, hword, hnul⟩
    exact ⟨(reads_compileSet host sources includeDirs p).1.trans (if_pos hany),
      hcommands.trans (if_pos hany)⟩
  -- One directory for each source, and none that is new for sources beside others.
  · exact List.count_eq_one_of_mem hlists.nodup ((hlists.mem_iff _).mpr
      ⟨List.mem_append_left _ (List.mem_map_of_mem hs), (hnormal s).ne_empty⟩)
  · exact importPath_source host includeDirs more
      (List.mem_map.mpr ⟨s, hs, (hsame s t).mpr ht.symm⟩)
  · have h := importPath_source host includeDirs [] (List.mem_map_of_mem hs)
    rwa [List.append_nil] at h
  · have h := importPath_includeDir host sources [] hd
    rwa [List.append_nil] at h

/-- A host without files and without a compiler. -/
def searchHost : Host where
  workingDirectory := "/work"
  read := fun _ => .error .notFound
  writeFault := fun _ => none
  compiler := .missing
  scratchDirectory := "/tmp"

/-- Sources in three directories. -/
def spelledSample : List String :=
  ["a/x.proto", "./b/../a//y.proto", "//a/q.proto", "../../up.proto"]

/-- Directories asked for, of which one has a source in it. -/
def includeSample : List String := ["", "inc", "/work/a"]

theorem compile_command_spelledSample :
    let path := Path.absolute searchHost.workingDirectory
    let dirs := importPath searchHost
    let listed := ["/work/a", "//a", "/", "inc"]
    let line := ["protoc", "--include_imports", "--descriptor_set_out=/tmp/descriptor_set.pb",
      "-I", "/work/a", "-I", "//a", "-I", "/", "-I", "inc"] ++ spelledSample
    ("a/x.proto" ∈ spelledSample ∧ "inc" ∈ includeSample
        ∧ (path "/work/./a/z.proto").parent = (path "a/x.proto").parent)
      ∧ ((compileSet searchHost spelledSample includeSample).outcome .empty).2.commands = #[line]
      ∧ ((compileSet searchHost ["a.proto", "b\x00.proto"] []).outcome .empty).1
        = .error .nulInPath
      ∧ dirs spelledSample includeSample = listed ∧ listed.count "/work/a" = 1
      ∧ dirs (spelledSample ++ ["/work/./a/z.proto"]) includeSample = listed
      ∧ dirs (spelledSample ++ ["a/x.proto"]) includeSample = listed
      ∧ dirs spelledSample (includeSample ++ ["inc"]) = listed := by
  intro path dirs listed line
  have hsource : "a/x.proto" ∈ spelledSample := by decide
  have hincluded : "inc" ∈ includeSample := by decide
  have hparent : (path "/work/./a/z.proto").parent = (path "a/x.proto").parent := by decide
  have hlisted : dirs spelledSample includeSample = listed := by decide
  have hdirectory : Path.directoryText (path "a/x.proto").text = "/work/a" := by decide
  have hline : command searchHost spelledSample includeSample = line := by decide
  obtain ⟨hrun, -, -, -, -, hshared, hagain, hrepeated⟩ :=
    compile_command searchHost spelledSample includeSample .empty
  obtain ⟨-, hrefused, -⟩ := compile_command searchHost ["a.proto", "b\x00.proto"] [] .empty
  obtain ⟨hcount, hmore⟩ := hshared "a/x.proto" hsource
  refine ⟨⟨hsource, hincluded, hparent⟩, ?_, ?_, hlisted, ?_, ?_, ?_, ?_⟩
  · exact (hrun (by decide)).trans (congrArg (#[·]) hline)
  · exact (hrefused "b\x00.proto" (by decide) (by decide)).1
  · rw [← hlisted, ← hdirectory]
    exact hcount
  · exact (hmore "/work/./a/z.proto" [] hparent).trans hlisted
  · exact (hagain "a/x.proto" hsource).trans hlisted
  · exact (hrepeated "inc" hincluded).trans hlisted

end Load

end SchemaRegistry
