import LoxLang.FileTree
import LoxLang.Session
import LoxLang.Text.Quoted
import LoxLang.Text.Utf8
import LoxLang.Tree.Encoding
import LoxLang.Tree.Prefix

/-!
# The command line

The three subcommands: show the tokens of a file, show its tree, or run it. Each answers with an exit
code and the texts for the two output streams.

| exit code | meaning |
|---|---|
| 0 | success, also when no file was named |
| 1 | the file cannot be read |
| 2 | the arguments make no sense |
| 65 | the program has static errors |
| 70 | the program stopped at a runtime error |
-/

namespace LoxLang

/-- What to do with a file. -/
inductive Subcommand where
  | tokenize
  | parse
  | run
deriving DecidableEq, Repr

/-- The subcommand with this name. -/
def Subcommand.ofName? : String → Option Subcommand
  | "tokenize" => some tokenize
  | "parse" => some parse
  | "run" => some run
  | _ => none

/-- The arguments of a command. -/
structure Invocation where
  subcommand : Subcommand
  file : Option String := none
  json : Bool := false
  /-- Asks for a log, which this library does not write. -/
  log : Bool := false
deriving DecidableEq, Repr

namespace Invocation

/-- Takes an argument as the name of the file, which is not empty and given at most once. -/
def takeFile (i : Invocation) (argument : String) : Option Invocation :=
  if i.file.isSome || argument.isEmpty then none else some { i with file := some argument }

/-- Takes one argument behind the name of the subcommand, each at most once. -/
def take (i : Invocation) (argument : String) : Option Invocation :=
  if argument = "--log" then if i.log then none else some { i with log := true }
  else if argument = "--json" then
    if i.json || i.subcommand == .run then none else some { i with json := true }
  else if argument.startsWith "-" && argument != "-" then none
  else i.takeFile argument

/-- Takes the arguments behind the name of the subcommand. What follows `--` is no option. -/
def takeAll (i : Invocation) : List String → Option Invocation
  | [] => some i
  | argument :: rest =>
    if argument = "--" then rest.foldlM takeFile i else (i.take argument).bind (takeAll · rest)

/-- The command that arguments ask for. Only the request for a log may stand before the subcommand,
and it may be repeated behind it. -/
def ofArguments? : List String → Option Invocation
  | [] => none
  | "--log" :: name :: rest => do
    let subcommand ← Subcommand.ofName? name
    let i ← takeAll { subcommand } rest
    some { i with log := true }
  | name :: rest => do
    let subcommand ← Subcommand.ofName? name
    takeAll { subcommand } rest

end Invocation

/-- What a command can see: files, the input of the program it runs, and the time. -/
structure Surroundings where
  openFile : String → Except OpenFault ByteArray
  input : List UInt8 := []
  clock : Clock := fun _ => 0

/-- What a command leaves behind. -/
structure CommandResult where
  exitCode : Nat
  stdout : String := ""
  stderr : String := ""
deriving DecidableEq, Repr

/-- Texts on lines of their own. -/
def unlines (lines : List String) : String := String.join (lines.map fun line => line ++ "\n")

/-- An error that has a cause. -/
def causedText (what cause : String) : String :=
  "Error: " ++ what ++ "\n\nCaused by:\n    " ++ cause ++ "\n"

/-- What was done to a file when the fault was found. A folder can be opened, but its contents cannot be
had. -/
def OpenFault.attempt : OpenFault → String
  | isFolder => "Failed to map file "
  | _ => "Failed to open file "

/-- The text of a file, or the error text that says why there is none. -/
def Surroundings.readFile (s : Surroundings) (path : String) : Except String String :=
  match s.openFile path with
  | .error fault => .error (causedText (fault.attempt ++ Text.quoted path) fault.message)
  | .ok bytes =>
    match Text.decodeUtf8 bytes with
    | .ok text => .ok text
    | .error fault =>
      .error (causedText ("File " ++ Text.quoted path ++ " is not valid UTF-8") fault.message)

/-- The result of a program with static errors, after what was already written. -/
def rejectedResult (errors : List StaticError) (stdout : String) : CommandResult :=
  { exitCode := 65, stdout, stderr := unlines (errors.map StaticError.text) }

/-- Shows the tokens of a text. Errors do not keep the tokens from being shown. -/
def tokenizeText (json : Bool) (source : String) : CommandResult :=
  let shown :=
    if json then (Json.array ((tokens source).map Token.toJson)).indented ++ "\n"
    else unlines ((tokens source).map Token.render)
  match lexicalErrors source with
  | [] => { exitCode := 0, stdout := shown }
  | errors => rejectedResult errors shown

/-- Shows the tree of a text. -/
def parseText (json : Bool) (source : String) : CommandResult :=
  match (checkProgram source 0).1 with
  | .error errors => rejectedResult errors ""
  | .ok program =>
    let shown :=
      if json then (Json.array (program.map Stmt.toJson)).indented ++ "\n"
      else unlines (program.map Stmt.prefixText)
    { exitCode := 0, stdout := shown }

/-- Runs a text as a program. -/
def runText (s : Surroundings) (source : String) : CommandResult :=
  let session := Session.start { input := s.input } s.clock
  let (report, _) := session.run source
  let stderr := unlines (report.ending.diagnostics.map Diagnostic.text)
  let exitCode :=
    match report.ending with
    | .completed => 0
    | .rejected _ => 65
    | .stopped _ => 70
    | .outOfFuel => 70
  { exitCode, stdout := report.output, stderr }

/-- The text for arguments that make no sense. -/
def usage : String := "Usage: [--log] (tokenize [--json] | parse [--json] | run) [FILE]\n"

/-- Carries out a command. -/
def command (s : Surroundings) (arguments : List String) : CommandResult :=
  match Invocation.ofArguments? arguments with
  | none => { exitCode := 2, stderr := usage }
  | some i =>
    match i.file with
    | none => { exitCode := 0, stdout := "No input filepath was provided. Exiting...\n" }
    | some path =>
      match s.readFile path with
      | .error text => { exitCode := 1, stderr := text }
      | .ok source =>
        match i.subcommand with
        | .tokenize => tokenizeText i.json source
        | .parse => parseText i.json source
        | .run => runText s source

end LoxLang
