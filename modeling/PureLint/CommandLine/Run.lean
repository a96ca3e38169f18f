import PureLint.CommandLine.Arguments
import PureLint.CommandLine.Help
import PureLint.Project.Lint
import PureLint.Report.Basic

/-!
# Running a command line

What a command line comes to: an exit code and the texts for the two output streams. Checking a
directory needs its files, what a parser returns for each, and how long it took.
-/

namespace PureLint

/-- What a run of the program comes to. -/
structure RunResult where
  exitCode : Nat
  output : String := ""
  errors : String := ""
  deriving DecidableEq, Repr

namespace CommandLine

/-- The version of the program. -/
def version : String := "0.1.0"

/-- What the program is told to do. -/
inductive Request where
  | showVersion
  | showHelp (of : Option Subcommand)
  | list (what : Subcommand)
  | check (directory : String) (settings : Settings)
  | reject (e : UsageError)
  deriving DecidableEq, Repr

/-- The request that ends the reading early. -/
def ofStop : Stop → Request
  | .version => .showVersion
  | .wrong e => .reject e

/-- The request of a command line from which a subcommand has been taken. Its operands mean
nothing, and it knows no flags of its own. -/
def ofSubcommand (c : Subcommand) (unknown : List String) : Request :=
  match Arguments.read [] unknown {} with
  | .error stop => ofStop stop
  | .ok a =>
    if a.asksHelp then .showHelp (some c)
    else
      match a.unknown with
      | argument :: _ => .reject (Arguments.unknownFlag argument)
      | [] => .list c

/-- The request of a command line that has been taken apart. Operands after the directory mean
nothing. -/
def ofArguments (a : Arguments) : Request :=
  match a.operands.head?.bind Subcommand.ofName? with
  | some c => ofSubcommand c a.unknown
  | none =>
    if a.asksHelp then .showHelp none
    else
      match a.unknown with
      | argument :: _ => .reject (Arguments.unknownFlag argument)
      | [] => .check (a.operands.head?.getD ".") a.settings

/-- The request of a command line. -/
def request (arguments : List String) : Request :=
  match Arguments.read Flag.all arguments {} with
  | .error stop => ofStop stop
  | .ok a => ofArguments a

/-- The paths in a value that lists them between commas. -/
def pathList (value : String) : List String :=
  ((value.toList.splitOn ',').map fun item => String.ofList (Text.trim item)).filter (· != "")

/-- The options that settings give. -/
def options (s : Settings) : LintOptions where
  preset := s.preset
  testRunner := s.test
  entry := s.entry.map pathList
  main := s.main.map pathList

/-- A line of a listing: a name in a column, and what it is. -/
def listingLine (width : Nat) (name description : String) : String :=
  "  " ++ Help.pad width name ++ " " ++ description ++ "\n"

/-- The listing that a subcommand shows. -/
def listing : Subcommand → String
  | .rules =>
    String.join (Rule.all.map (fun rule => listingLine 28 rule.id rule.description) ++
      Policy.all.map fun policy => listingLine 28 policy.id policy.description)
  | .presets =>
    String.join (Preset.all.map fun preset => listingLine 12 preset.name preset.description)

/-- What is told while a directory is being checked. -/
def progress : String := "- Checking...\n"

/-- What is told in the end where a directory could not be checked. -/
def breakOff (warnings : List String) (e : ProjectError) : RunResult :=
  { exitCode := 1
    errors := progress ++ String.join (warnings.map (· ++ "\n")) ++ s!"✖ {e.message}\n" }

/-- What checking a directory comes to. It fails if anything was found. -/
def check (d : Directory) (parser : String → RawParse) (settings : Settings) (elapsedMs : Float) :
    RunResult :=
  match d.loadConfig with
  | .error e => breakOff [] e
  | .ok loaded =>
    match d.lintUnder loaded.config parser (options settings) with
    | .error e => breakOff loaded.warnings e
    | .ok result =>
      let files := result.files.map fun file =>
        ⟨file.filePath, file.source, file.analysis.diagnostics, file.analysis.parseErrors⟩
      let style : ReportStyle :=
        { verbose := settings.verbose || loaded.config.verbose.getD false }
      { exitCode := if result.errorCount = 0 then 0 else 1
        output := Report.text style files elapsedMs ++ "\n"
        errors := progress ++
          String.join ((loaded.warnings ++ result.warnings).map (· ++ "\n")) }

/-- What a request comes to in a directory. -/
def answer (d : Directory) (parser : String → RawParse) (elapsedMs : Float) : Request → RunResult
  | .showVersion => { exitCode := 0, output := version ++ "\n" }
  | .showHelp none => { exitCode := 0, output := Help.program }
  | .showHelp (some c) => { exitCode := 0, output := Help.subcommand c }
  | .list what => { exitCode := 0, output := listing what }
  | .reject e => { exitCode := 1, errors := e.message ++ "\n" }
  | .check path settings => check (d.enter path) parser settings elapsedMs

/-- What a command line comes to in a directory. -/
def run (arguments : List String) (d : Directory) (parser : String → RawParse)
    (elapsedMs : Float) : RunResult :=
  answer d parser elapsedMs (request arguments)

end CommandLine

end PureLint
