import ClassFormat.Dump

/-!
# The command line

The arguments name files and set options; every file is listed on its own, in
order. A file that cannot be listed counts as failed and changes nothing for
the others.
-/
namespace ClassFormat.CommandLine

structure Arguments where
  dump : Dump.Options := {}
  verbosity : Nat := 0
  files : List String := []
deriving Repr, DecidableEq

/-- Whether an argument is a dash and one or more letters `v`. -/
def isVerbose (argument : String) : Bool :=
  match argument.toList with
  | '-' :: 'v' :: letters => letters.all (· = 'v')
  | _ => false

namespace Arguments

/-- A file must have a name. -/
def addFile (arguments : Arguments) (file : String) : Option Arguments :=
  if file.isEmpty then none else some { arguments with files := arguments.files ++ [file] }

/-- Options may stand anywhere in front of `--`. Each listing option may be
given once, `-v` and `--verbose` any number of times. -/
def addOption (arguments : Arguments) (option : String) : Option Arguments :=
  if option = "--constants" then
    if arguments.dump.constants then none
    else some { arguments with dump := { arguments.dump with constants := true } }
  else if option = "--attributes" then
    if arguments.dump.attributes then none
    else some { arguments with dump := { arguments.dump with attributes := true } }
  else if option = "--verbose" then
    some { arguments with verbosity := arguments.verbosity + 1 }
  else if isVerbose option then
    some { arguments with verbosity := arguments.verbosity + (option.length - 1) }
  else none

/-- Adds the arguments from left to right. A single dash is a file name. -/
def add (arguments : Arguments) : List String → Option Arguments
  | [] => some arguments
  | argument :: rest =>
    if argument = "--" then rest.foldlM addFile arguments
    else if argument.startsWith "-" && argument ≠ "-" then do
      add (← arguments.addOption argument) rest
    else do
      add (← arguments.addFile argument) rest

/-- The meaning of the arguments, if they are well formed and name a file. -/
def parse (arguments : List String) : Option Arguments := do
  let result ← add {} arguments
  if result.files.isEmpty then none else some result

end Arguments

/-- What a run prints, what it tells apart from that, and how it ends. -/
structure Outcome where
  exitCode : UInt8
  output : String
  messages : List String
deriving Repr, DecidableEq

/-- How much is told of the decoding, by the number of requests for more. -/
def levelOf : Nat → Level
  | 0 => .warning
  | 1 => .debug
  | _ => .trace

/-- What the loop over the files has come to: how many of them failed, what was
printed, and what was told apart from that. -/
structure Tally where
  failures : Nat := 0
  output : String := ""
  messages : List String := []
deriving Repr, DecidableEq

namespace Tally

def add (first later : Tally) : Tally :=
  ⟨first.failures + later.failures, first.output ++ later.output,
    first.messages ++ later.messages⟩

def tell (tally : Tally) (messages : List String) : Tally :=
  tally.add { messages := messages }

def print (tally : Tally) (text : String) : Tally :=
  tally.add { output := text }

/-- Counts a failure and tells its cause. -/
def fail (tally : Tally) (message : String) : Tally :=
  tally.add { failures := 1, messages := [message] }

end Tally

/-- What is told while a file is read: its path, if more than warnings are wanted,
and the events of the wanted levels. -/
def announcement (level : Level) (path : String) (log : Array Event) : List String :=
  (if level.rank = 0 then [] else [s!"Reading class file: {path}"]) ++
    (eventsUpTo level log).toList.map Event.message

/-- Lists one file. A file that cannot be read is passed over, and one that cannot
be listed to its end keeps what was printed of it. -/
def listFile (options : Dump.Options) (level : Level) (tally : Tally) (path : String)
    (content : Option Source) : Tally :=
  let reading := ClassFile.readContent content
  let told := tally.tell (announcement level path reading.log)
  match reading.result with
  | .error e => told.fail s!"Error reading {path}, cause:\n{e.message}"
  | .ok c =>
    let listing := Dump.listing options c
    let printed := told.print listing.text
    match listing.failure with
    | some e => printed.fail s!"Error dumping {path}, cause:\n{e.message}"
    | none => printed

/-- The loop over the files, each given by its path and its content. -/
def listFrom (options : Dump.Options) (level : Level) (tally : Tally) :
    List (String × Option Source) → Tally
  | [] => tally
  | (path, content) :: rest =>
    listFrom options level (listFile options level tally path content) rest

/-- How a run over so many files ends: with 255 if one of them failed. -/
def Tally.outcome (tally : Tally) (files : Nat) : Outcome :=
  if 0 < tally.failures then
    let told := tally.tell [s!"{tally.failures} of {files} files failed."]
    ⟨255, told.output, told.messages⟩
  else ⟨0, tally.output, tally.messages⟩

def listFiles (options : Dump.Options) (level : Level) (files : List (String × Option Source)) :
    Outcome :=
  (listFrom options level {} files).outcome files.length

def usage : String :=
  "Name at least one file; options: --constants, --attributes, -v or --verbose"

/-- Runs the program on its arguments, given what the files hold. -/
def run (arguments : List String) (contentOf : String → Option Source) : Outcome :=
  match Arguments.parse arguments with
  | none => ⟨2, "", [usage]⟩
  | some parsed =>
    listFiles parsed.dump (levelOf parsed.verbosity)
      (parsed.files.map fun path => (path, contentOf path))

end ClassFormat.CommandLine
