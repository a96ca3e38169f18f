import PureLint.Config.Basic
import PureLint.Glob.Pattern
import PureLint.Project.Directory

/-!
# Finding the source files

The source files of a project are found by their extensions, leaving out what the built-in patterns,
the configuration and the ignore file leave out. A directory that such a pattern matches as a whole
is left out with everything below it. Names that start with a dot are never found.
-/

namespace PureLint.Scan

/-- The patterns of source files. -/
def sourcePatterns : List String := ["**/*.ts", "**/*.tsx", "**/*.mts", "**/*.cts"]

/-- The patterns that are always left out. -/
def builtInIgnores : List String :=
  ["**/node_modules/**", "**/dist/**", "**/build/**", "**/*.d.ts", "**/*.d.mts", "**/*.d.cts"]

/-- The name of the ignore file. -/
def ignoreFileName : String := ".gitignore"

/-- The pattern that a line of the ignore file asks for: at any depth, also if the line starts with
a slash. Empty lines, comments and lines that start with an exclamation mark ask for none. -/
def ignoreLine? (line : List Char) : Option String :=
  let text := String.ofList (Text.trim line)
  if text = "" || Text.startsWith text "#" || Text.startsWith text "!" then none
  else
    let bare := Text.stripStart text "/"
    some (if Text.startsWith bare "**/" then bare else "**/" ++ bare)

/-- The patterns that the text of the ignore file asks for. -/
def ignoreLines (text : String) : List String := (Text.lines text.toList).filterMap ignoreLine?

/-- All patterns that are left out of a project. -/
def ignorePatterns (d : Directory) (config : Config) : List Glob.Pattern :=
  let configured := (config.ignore.bind (·.files)).getD []
  let listed := ((d.read? ignoreFileName).map ignoreLines).getD []
  (builtInIgnores ++ configured ++ listed).flatMap Glob.read

/-- The segments of a path. -/
def segments (path : String) : List (List Char) := path.toList.splitOn '/'

/-- Whether a segment of the path starts with a dot. -/
def isHidden (path : String) : Bool := (segments path).any fun segment => segment.head? == some '.'

/-- The directories that a path lies in, outermost first. -/
def ancestors (path : String) : List String :=
  let parts := segments path
  (List.range parts.length).tail.map fun n =>
    String.ofList (['/'].intercalate (parts.take n))

/-- Whether a path has the form of a source file. -/
def isSource (path : String) : Bool :=
  !isHidden path && (sourcePatterns.flatMap Glob.read).any (·.test path)

/-- Whether a pattern leaves out a file: it matches the file, or a directory around it as a whole.
A pattern from the root of the file system is held against the full path. -/
def leavesOut (root path : String) (pattern : Glob.Pattern) : Bool :=
  if pattern.isAbsolute then pattern.test (root ++ "/" ++ path)
  else pattern.test path || (pattern.prunes && (ancestors path).any pattern.test)

/-- Whether a path is a source file that no pattern leaves out. -/
def finds (root : String) (ignores : List Glob.Pattern) (path : String) : Bool :=
  isSource path && !ignores.any (leavesOut root path)

/-- The source files of a project in the order of their names, where the ignore file is readable. -/
def run (d : Directory) (config : Config) : List String :=
  let ignores := ignorePatterns d config
  Text.sortByUnits ((d.files.map (·.1)).filter (finds d.root ignores))

/-- The search for source files, which fails where the ignore file cannot be read. -/
def attempt (d : Directory) (config : Config) : Except ReadError (List String) := do
  let _ ← d.read ignoreFileName
  return run d config

/-- The search finds the paths of the project that are source files and not left out. -/
theorem mem_run_iff {d : Directory} {config : Config} {path : String} :
    path ∈ run d config ↔
      path ∈ d.files.map (·.1) ∧ finds d.root (ignorePatterns d config) path = true := by
  simp [run, Text.sortByUnits]

end PureLint.Scan
