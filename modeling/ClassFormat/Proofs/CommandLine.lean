import ClassFormat.CommandLine
import ClassFormat.Proofs.ClassFile.RoundTrip

/-!
# Files on the command line

A setting of the options and a list of files can be asked for in many ways, as
options may stand anywhere in front of `--`. What is printed and how the program
ends is a matter of the setting and the files alone, and outcomes are put
together file by file: a file is listed among others as it is listed alone.
-/
namespace ClassFormat.CommandLine

/-- The arguments ask for these files, with this setting of the options. -/
def Asks (options : Dump.Options) (verbosity : Nat) (files arguments : List String) : Prop :=
  Arguments.parse arguments = some ⟨options, verbosity, files⟩

/-- One way to ask for files: all options, and then the files behind `--`. -/
def commandLine (options : Dump.Options) (verbosity : Nat) (files : List String) : List String :=
  (if options.constants then ["--constants"] else []) ++
    (if options.attributes then ["--attributes"] else []) ++
    List.replicate verbosity "--verbose" ++ "--" :: files

namespace Arguments

variable {arguments later : Arguments} {files rest : List String}

/-- Behind `--` every argument that is not empty is a file. -/
theorem foldlM_addFile (named : "" ∉ files) :
    files.foldlM addFile arguments = some { arguments with files := arguments.files ++ files } := by
  induction files generalizing arguments with
  | nil => simp
  | cons file files ih =>
      obtain ⟨some, others⟩ := List.ne_and_not_mem_of_not_mem_cons named
      have full : file.isEmpty = false := by simpa using some.symm
      rw [List.foldlM_cons, addFile, if_neg (by simp [full])]
      simp [ih others]

theorem add_separator (named : "" ∉ files) :
    add arguments ("--" :: files) = some { arguments with files := arguments.files ++ files } := by
  rw [add, if_pos rfl, foldlM_addFile named]

/-- An option changes the setting, and the rest is read on from there. -/
theorem add_option {option : String} (dashed : option.startsWith "-") (long : option ≠ "-")
    (open_ : option ≠ "--") (changed : arguments.addOption option = some later) :
    add arguments (option :: rest) = add later rest := by
  rw [add, if_neg open_, if_pos (by simp [dashed, long]), changed]
  rfl

theorem add_verbose (times : Nat) :
    add arguments (List.replicate times "--verbose" ++ rest) =
      add { arguments with verbosity := arguments.verbosity + times } rest := by
  induction times generalizing arguments with
  | zero => rfl
  | succ times ih =>
      have changed : arguments.addOption "--verbose" =
          some { arguments with verbosity := arguments.verbosity + 1 } := rfl
      rw [List.replicate_succ, List.cons_append,
        add_option (by simp) (by simp) (by simp) changed, ih, Nat.add_assoc, Nat.add_comm 1]

theorem add_commandLine (options : Dump.Options) (verbosity : Nat) (named : "" ∉ files) :
    add {} (commandLine options verbosity files) = some ⟨options, verbosity, files⟩ := by
  have tail (options : Dump.Options) : add { dump := options }
      (List.replicate verbosity "--verbose" ++ "--" :: files) =
        some ⟨options, verbosity, files⟩ := by
    rw [add_verbose, add_separator named]
    simp
  have constants : addOption {} "--constants" = some { dump := ⟨true, false⟩ } := rfl
  have attributes (before : Bool) : addOption { dump := ⟨before, false⟩ } "--attributes" =
      some { dump := ⟨before, true⟩ } := rfl
  obtain ⟨_ | _, _ | _⟩ := options
  · exact tail _
  · exact (add_option (by simp) (by simp) (by simp) (attributes false)).trans (tail _)
  · exact (add_option (by simp) (by simp) (by simp) constants).trans (tail _)
  · exact (add_option (by simp) (by simp) (by simp) constants).trans
      ((add_option (by simp) (by simp) (by simp) (attributes true)).trans (tail _))

end Arguments

/-- Any files that have names can be asked for, with any setting. -/
theorem asks_commandLine (options : Dump.Options) (verbosity : Nat) {files : List String}
    (some : files ≠ []) (named : "" ∉ files) :
    Asks options verbosity files (commandLine options verbosity files) := by
  rw [Asks, Arguments.parse, Arguments.add_commandLine options verbosity named]
  simpa using some

namespace Tally

theorem add_assoc (first second third : Tally) :
    (first.add second).add third = first.add (second.add third) := by
  simp [add, Nat.add_assoc, String.append_assoc]

theorem add_empty (tally : Tally) : tally.add {} = tally := by
  simp [add]

theorem empty_add (tally : Tally) : ({} : Tally).add tally = tally := by
  simp [add]

theorem output_outcome (tally : Tally) (files : Nat) : (tally.outcome files).output = tally.output := by
  unfold outcome
  split
  · simp [tell, add]
  · rfl

theorem exitCode_outcome (tally : Tally) (files : Nat) :
    (tally.outcome files).exitCode = if tally.failures = 0 then 0 else 255 := by
  unfold outcome
  split <;> split <;> first | rfl | omega

end Tally

section Listings

variable (options : Dump.Options) (level : Level)

/-- One turn of the loop adds what it makes of the file, whatever came before. -/
theorem listFile_eq (tally : Tally) (path : String) (content : Option Source) :
    listFile options level tally path content =
      tally.add (listFile options level {} path content) := by
  unfold listFile
  generalize ClassFile.readContent content = reading
  obtain ⟨result, log⟩ := reading
  cases result with
  | error e => simp only [Tally.tell, Tally.fail, Tally.add_assoc, Tally.empty_add]
  | ok c =>
      dsimp only
      generalize Dump.listing options c = listing
      obtain ⟨text, failure⟩ := listing
      cases failure with
      | none => simp only [Tally.tell, Tally.print, Tally.add_assoc, Tally.empty_add]
      | some e =>
          simp only [Tally.tell, Tally.print, Tally.fail, Tally.add_assoc, Tally.empty_add]

/-- The loop goes on from what it has come to as it does from nothing. -/
theorem listFrom_eq (tally : Tally) (files : List (String × Option Source)) :
    listFrom options level tally files = tally.add (listFrom options level {} files) := by
  induction files generalizing tally with
  | nil => exact tally.add_empty.symm
  | cons file files ih => rw [listFrom, ih, listFile_eq, Tally.add_assoc, listFrom, ← ih]

/-- What a loop comes to is what it comes to for some files, and then for the
others. -/
theorem listFrom_append (files others : List (String × Option Source)) :
    listFrom options level {} (files ++ others) =
      (listFrom options level {} files).add (listFrom options level {} others) := by
  have split (tally : Tally) : listFrom options level tally (files ++ others) =
      listFrom options level (listFrom options level tally files) others := by
    induction files generalizing tally with
    | nil => rfl
    | cons file files ih => exact ih _
  rw [split, listFrom_eq]

theorem output_listFiles (files : List (String × Option Source)) :
    (listFiles options level files).output = (listFrom options level {} files).output :=
  Tally.output_outcome _ _

theorem exitCode_listFiles (files : List (String × Option Source)) :
    (listFiles options level files).exitCode =
      if (listFrom options level {} files).failures = 0 then 0 else 255 :=
  Tally.exitCode_outcome _ _

theorem exitCode_listFiles_eq_zero (files : List (String × Option Source)) :
    (listFiles options level files).exitCode = 0 ↔
      (listFrom options level {} files).failures = 0 := by
  rw [exitCode_listFiles]
  split <;> simp_all

/-- Any number of files is printed as each of them is alone, and fails if one of
them does alone. -/
theorem listFiles_alone (files : List (String × Option Source)) :
    (listFiles options level files).output =
        String.join (files.map fun file => (listFiles options level [file]).output) ∧
      ((listFiles options level files).exitCode = 0 ↔
        ∀ file ∈ files, (listFiles options level [file]).exitCode = 0) := by
  simp only [output_listFiles, exitCode_listFiles_eq_zero]
  induction files with
  | nil => exact ⟨rfl, by simp [listFrom]⟩
  | cons file files ih =>
      obtain ⟨output, failures⟩ := ih
      rw [← List.singleton_append, listFrom_append]
      constructor
      · rw [Tally.add, output, List.singleton_append, List.map_cons, String.join_cons]
      · rw [Tally.add, Nat.add_eq_zero_iff, failures, List.singleton_append, List.forall_mem_cons]

end Listings

section Runs

variable {options : Dump.Options} {verbosity : Nat} {files others arguments : List String}

theorem run_of_asks (asks : Asks options verbosity files arguments)
    (contentOf : String → Option Source) :
    run arguments contentOf = listFiles options (levelOf verbosity)
      (files.map fun path => (path, contentOf path)) := by
  unfold run
  rw [asks]

/-- Command lines with one setting of the options: one for some files and others
behind them, one for the first files, one for the others, and one for every file
alone. -/
structure Split (options : Dump.Options) (verbosity : Nat) (files others : List String)
    (whole first later : List String) (alone : String → List String) : Prop where
  whole : Asks options verbosity (files ++ others) whole
  first : Asks options verbosity files first
  later : Asks options verbosity others later
  alone : ∀ file ∈ files ++ others, Asks options verbosity [file] (alone file)

theorem split_commandLine (options : Dump.Options) (verbosity : Nat) (some : files ≠ [])
    (more : others ≠ []) (named : "" ∉ files ++ others) :
    Split options verbosity files others (commandLine options verbosity (files ++ others))
      (commandLine options verbosity files) (commandLine options verbosity others)
      fun file => commandLine options verbosity [file] := by
  have both : files ++ others ≠ [] := by simp [some]
  have alone : ∀ file ∈ files ++ others,
      Asks options verbosity [file] (commandLine options verbosity [file]) := by
    intro file member
    refine asks_commandLine options verbosity (List.cons_ne_nil file []) ?_
    rw [List.mem_singleton]
    rintro rfl
    exact named member
  obtain ⟨front, back⟩ := not_or.mp (mt List.mem_append.mpr named)
  exact ⟨asks_commandLine options verbosity both named,
    asks_commandLine options verbosity some front, asks_commandLine options verbosity more back,
    alone⟩

/-- Whatever the files are, and however they are asked for, the output is that of
the first ones and then that of the others, each printed as it is alone. The exit
code is zero if it is zero for each of them alone, and 255 otherwise. -/
theorem run_append (options : Dump.Options) (verbosity : Nat) {files others : List String}
    (some : files ≠ []) (more : others ≠ []) (named : "" ∉ files ++ others)
    (contentOf : String → Option Source) :
    (∃ whole first later alone, Split options verbosity files others whole first later alone) ∧
    ∀ whole first later alone, Split options verbosity files others whole first later alone →
      (run whole contentOf).output = (run first contentOf).output ++ (run later contentOf).output ∧
      (run whole contentOf).output = String.join
        ((files ++ others).map fun file => (run (alone file) contentOf).output) ∧
      ((run whole contentOf).exitCode = 0 ↔
        ∀ file ∈ files ++ others, (run (alone file) contentOf).exitCode = 0) ∧
      ((run whole contentOf).exitCode = 0 ∨ (run whole contentOf).exitCode = 255) := by
  refine ⟨⟨_, _, _, _, split_commandLine options verbosity some more named⟩, ?_⟩
  intro whole first later alone split
  have each : ∀ file ∈ files ++ others, run (alone file) contentOf =
      listFiles options (levelOf verbosity) [(file, contentOf file)] :=
    fun file member => run_of_asks (split.alone file member) contentOf
  obtain ⟨output, code⟩ := listFiles_alone options (levelOf verbosity)
    ((files ++ others).map fun path => (path, contentOf path))
  rw [List.map_map] at output
  rw [List.forall_mem_map] at code
  rw [run_of_asks split.whole, run_of_asks split.first, run_of_asks split.later]
  refine ⟨?_, ?_, ?_, ?_⟩
  · rw [output_listFiles, List.map_append, listFrom_append, Tally.add, output_listFiles,
      output_listFiles]
  · rw [output]
    refine congrArg String.join (List.map_congr_left fun file member => ?_)
    rw [each file member]
    rfl
  · rw [code]
    refine forall₂_congr fun file member => ?_
    rw [each file member]
  · rw [exitCode_listFiles]
    split
    · exact .inl rfl
    · exact .inr rfl

end Runs

/-- A class file, a file that is too short to be one, and no others. -/
def sampleFiles (path : String) : Option Source :=
  if path = "Sample.class" then some ⟨ClassFile.sampleImage.encode.toArray⟩
  else if path = "Short.class" then some ⟨⟨#[0xCA, 0xFE]⟩⟩
  else none

/-- A class file is listed twice, between a missing file and a short one. -/
theorem run_append_sampleFiles :
    "" ∉ ["Sample.class", "None.class"] ++ ["Short.class", "Sample.class"] ∧
      (run ["Sample.class", "--constants", "None.class", "Short.class", "Sample.class"]
          sampleFiles).output =
        (run ["--constants", "Sample.class", "None.class"] sampleFiles).output ++
          (run ["Short.class", "Sample.class", "--constants"] sampleFiles).output ∧
      (run ["Sample.class", "--constants", "None.class", "Short.class", "Sample.class"]
          sampleFiles).exitCode = 255 := by
  have named : "" ∉ ["Sample.class", "None.class"] ++ ["Short.class", "Sample.class"] := by decide
  obtain ⟨-, splits⟩ := run_append ⟨true, false⟩ 0 (List.cons_ne_nil "Sample.class" ["None.class"])
    (List.cons_ne_nil "Short.class" ["Sample.class"]) named sampleFiles
  have whole : Asks ⟨true, false⟩ 0
      (["Sample.class", "None.class"] ++ ["Short.class", "Sample.class"])
      ["Sample.class", "--constants", "None.class", "Short.class", "Sample.class"] := by
    unfold Asks
    decide +kernel
  have first : Asks ⟨true, false⟩ 0 ["Sample.class", "None.class"]
      ["--constants", "Sample.class", "None.class"] := by
    unfold Asks
    decide +kernel
  have later : Asks ⟨true, false⟩ 0 ["Short.class", "Sample.class"]
      ["Short.class", "Sample.class", "--constants"] := by
    unfold Asks
    decide +kernel
  have alone : ∀ file ∈ ["Sample.class", "None.class"] ++ ["Short.class", "Sample.class"],
      Asks ⟨true, false⟩ 0 [file] ["--constants", file] := by
    unfold Asks
    decide +kernel
  obtain ⟨output, -, code, codes⟩ := splits _ _ _ _ ⟨whole, first, later, alone⟩
  have missing : (run ["--constants", "None.class"] sampleFiles).exitCode ≠ 0 := by
    decide +kernel
  exact ⟨named, output, codes.resolve_left fun fine =>
    missing (code.mp fine "None.class" (by decide))⟩

end ClassFormat.CommandLine
