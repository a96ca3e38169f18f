import PureLint.Text.Search

/-!
# Directories

The files of a project, as far as checking it reads them.
-/

namespace PureLint

/-- What reading a path can fail with. -/
structure ReadError where
  message : String
  deriving DecidableEq, Repr

/-- The error where a directory is read. -/
def ReadError.isDirectory : ReadError := ⟨"EISDIR: illegal operation on a directory, read"⟩

/-- The files of a project by their paths relative to its root, with forward slashes. -/
structure Directory where
  root : String := "/project"
  files : List (String × String) := []
  /-- What else is there and cannot be read, such as an empty directory. -/
  unreadable : List (String × ReadError) := []

namespace Directory

/-- The text of a file, if it exists. -/
def read? (d : Directory) (path : String) : Option String := d.files.lookup path

/-- Whether files lie below a path. -/
def holdsFiles (d : Directory) (path : String) : Bool :=
  d.files.any fun (name, _) => Text.startsWith name (path ++ "/")

/-- The text at a path, `none` if nothing is there. -/
def read (d : Directory) (path : String) : Except ReadError (Option String) :=
  match d.read? path with
  | some text => .ok (some text)
  | none =>
    match d.unreadable.lookup path with
    | some e => .error e
    | none => if d.holdsFiles path then .error .isDirectory else .ok none

/-- The segments that a path leads to from others: an empty segment and a dot lead nowhere, and two
dots lead out. -/
def follow (start : List (List Char)) (path : List (List Char)) : List (List Char) :=
  path.foldl (fun reached segment =>
    if segment = [] ∨ segment = ['.'] then reached
    else if segment = ['.', '.'] then reached.dropLast
    else reached ++ [segment]) start

/-- The full path that a path means, seen from a root. A path that starts with a slash is full
already. -/
def resolve (root path : String) : String :=
  let base := if Text.startsWith path "/" then [] else follow [] (root.toList.splitOn '/')
  String.ofList ('/' :: ['/'].intercalate (follow base (path.toList.splitOn '/')))

/-- The directory that a path leads to, with what lies in it. -/
def enter (d : Directory) (path : String) : Directory :=
  let root := resolve d.root path
  let inside := if root = "/" then root else root ++ "/"
  let below? (name : String) : Option String :=
    (Text.dropStart? inside.toList (d.root ++ "/" ++ name).toList).map String.ofList
  { root := root
    files := d.files.filterMap fun (name, text) => (below? name).map fun rest => (rest, text)
    unreadable := d.unreadable.filterMap fun (name, e) => (below? name).map fun rest => (rest, e) }

end Directory

end PureLint
