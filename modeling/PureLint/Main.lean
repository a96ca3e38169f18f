import PureLint.CommandLine.Run
import PureLint.Json.Parser

/-!
# The program

The command line at work on the files of a disk. What a parser returned for a source file is read
from a data file beside it, which has the same name with `.ast.json` after it.
-/

namespace PureLint.Disk

/-- What checking a project reads among directory entries and below them, by paths after `start`:
texts, and what stands in the place of one but cannot be read. -/
partial def readEntries (start : String) (entries : Array IO.FS.DirEntry) :
    IO (List (String × Except ReadError String)) :=
  entries.toList.flatMapM fun entry => do
    let path := start ++ entry.fileName
    if ← entry.path.isDir then
      let below ← readEntries (path ++ "/") (← entry.path.readDir)
      return if isRead path then (path, .error .isDirectory) :: below else below
    else if isRead path then
      try return [(path, .ok (← IO.FS.readFile entry.path))]
      catch e => return [(path, .error ⟨e.toString⟩)]
    else return []

/-- The directory of this full path, with nothing in it if it does not exist. -/
def readDirectory (root : String) : IO Directory := do
  try
    let entries ← readEntries "" (← (← IO.FS.realPath root).readDir)
    return {
      root := root
      files := entries.filterMap fun (path, content) =>
        content.toOption.map fun text => (path, text)
      unreadable := entries.filterMap fun
        | (path, .error e) => some (path, e)
        | _ => none }
  catch _ => return { root := root }

/-- The parse result beside a source file, empty if there is none. -/
def readParse (root path : String) : IO RawParse := do
  try
    let text ← IO.FS.readFile (root ++ "/" ++ path ++ ".ast.json")
    return ((Json.parse? text.toList).map RawParse.ofJson).getD {}
  catch _ => return {}

/-- The parse results beside the source files of a directory. -/
def readParses (d : Directory) : IO (List (String × RawParse)) :=
  (d.files.map (·.1)).mapM fun path => return (path, ← readParse d.root path)

/-- What a command line comes to in the current directory. -/
def run (arguments : List String) : IO RunResult := do
  match CommandLine.request arguments with
  | .check path settings =>
    let start ← IO.monoMsNow
    let d ← readDirectory (Directory.resolve (← IO.currentDir).toString path)
    let parses ← readParses d
    let elapsed := (← IO.monoMsNow) - start
    return CommandLine.check d (fun path => (parses.lookup path).getD {}) settings elapsed.toFloat
  | request => return CommandLine.answer {} (fun _ => {}) 0 request

end PureLint.Disk

/-- Runs the program on its arguments. -/
def main (arguments : List String) : IO UInt32 := do
  let result ← PureLint.Disk.run arguments
  (← IO.getStderr).putStr result.errors
  (← IO.getStdout).putStr result.output
  return UInt32.ofNat result.exitCode
