import PureLint.Text.Search

/-!
# Path traits

What a file's path tells about it: its name and stem, the directory convention it falls under, and
whether it is a test, an entry point, a main entry or an error file. A path is brought into one form
first, with forward slashes and a leading slash, so that every directory shows as `/name/`.
-/

namespace PureLint

/-- The directory convention that a file falls under. -/
inductive Convention where
  | types
  | errors
  | pure
  | io
  | regular
  deriving DecidableEq, Repr

/-- The name of a directory convention. -/
def Convention.name : Convention → String
  | .types => "types"
  | .errors => "errors"
  | .pure => "pure"
  | .io => "io"
  | .regular => "regular"

/-- What the path of a file tells about it. -/
structure PathTraits where
  /-- The path with forward slashes and a leading slash. -/
  path : String
  /-- The last segment of the path. -/
  basename : String
  /-- The basename without its extension. -/
  stem : String
  directory : Convention
  isTest : Bool
  isEntryPoint : Bool
  isMainEntry : Bool
  isErrorFile : Bool

/-- Paths that count as entry points or main entries besides `index` and `main`. -/
structure EntryPaths where
  entry : List String := []
  main : List String := []

namespace Path

/-- A path with forward slashes, without a leading `./`, and with a leading slash. -/
def normalize (path : String) : String :=
  let forward := path.toList.map fun c => if c = '\\' then '/' else c
  let bare := (Text.dropStart? ['.', '/'] forward).getD forward
  String.ofList (if bare.head? = some '/' then bare else '/' :: bare)

/-- The last segment of a path. -/
def basename (path : String) : String :=
  String.ofList ((path.toList.splitOn '/').getLast?.getD [])

/-- The extensions of the source files that are checked. -/
def extensions : List String := [".ts", ".tsx", ".cts", ".ctsx", ".mts", ".mtsx"]

/-- The endings of a stem that mark a test file. -/
def testEndings : List String := [".test", ".spec", "_test"]

/-- The string without the first of the endings that it has. -/
def stripEnding (endings : List String) (s : String) : String :=
  (endings.findSome? (Text.stripEnd? s)).getD s

/-- Whether a directory of this name is on the path. -/
def hasDirectory (path name : String) : Bool := Text.contains path ("/" ++ name ++ "/")

/-- Whether the path is one of the candidates or ends with one, at the beginning of a segment. -/
def endsWithAny (path : String) (candidates : List String) : Bool :=
  candidates.any fun candidate => Text.endsWith path (normalize candidate)

/-- The convention of a path: the first of `types`, `errors`, `pure` and `io` that is a directory
on it. -/
def directory (path : String) : Convention :=
  if hasDirectory path "types" then .types
  else if hasDirectory path "errors" then .errors
  else if hasDirectory path "pure" then .pure
  else if hasDirectory path "io" then .io
  else .regular

/-- Whether a basename is a stem with a test ending, before one of the extensions. -/
def isTestName (basename : String) : Bool :=
  testEndings.any fun ending => extensions.any fun extension =>
    Text.endsWith basename (ending ++ extension)

/-- The traits of a path. -/
def classify (filePath : String) (entries : EntryPaths := {}) : PathTraits :=
  let path := normalize filePath
  let name := basename path
  let stem := stripEnding extensions name
  { path := path
    basename := name
    stem := stem
    directory := directory path
    isTest := isTestName name
    isEntryPoint := stem == "index" || endsWithAny path entries.entry
    isMainEntry := stem == "main" || endsWithAny path entries.main
    isErrorFile := hasDirectory path "errors" }

end Path

/-- The name that a test file tests: its stem without a test ending. -/
def PathTraits.testedName (traits : PathTraits) : String :=
  Path.stripEnding Path.testEndings traits.stem

end PureLint
