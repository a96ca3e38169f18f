import PureLint.Decimal.Fixed
import PureLint.Diagnostic.Basic
import PureLint.Report.Palette

/-!
# Reports

The report on a run: a line for each complaint of a parser and each diagnostic, file by file, and a
summary. A verbose report shows under each diagnostic the line it is about, and a caret under the
column.
-/

namespace PureLint

/-- What is reported about one file. -/
structure FileReport where
  filePath : String
  source : String
  diagnostics : List Diagnostic
  parseErrors : List String

namespace Report

/-- The text of a line without the carriage return at its end, empty if there is no such line.
Lines are counted from one. -/
def lineText (source : String) : Nat → List Char
  | 0 => []
  | index + 1 =>
    let line := ((Text.lines source.toList)[index]?).getD []
    (Text.dropStart? ['\r'] line.reverse).elim line List.reverse

/-- The spaces before the caret for a column. -/
def indentOf : Number → Nat
  | .int n => (n - 1).toNat
  | .float x => (x - 1.0).toUInt64.toNat

/-- The caret line for a column. -/
def caret (column : Number) : List Char := List.replicate (indentOf column) ' ' ++ ['^']

/-- The first line about a diagnostic. -/
def header (r : ReportStyle) (d : Diagnostic) : String :=
  let line := d.position.line
  let column := d.position.column.text
  let place := r.paint .bold (d.filePath ++ s!":{line}:{column}")
  let rule := r.paint .red ("[" ++ d.rule ++ "]")
  place ++ " " ++ rule ++ " " ++ d.message

/-- The lines about a diagnostic. -/
def diagnosticLines (r : ReportStyle) (source : String) (d : Diagnostic) : List String :=
  if r.verbose then
    [header r d,
     "  " ++ String.ofList (lineText source d.position.line),
     "  " ++ r.paint .yellow (String.ofList (caret d.position.column))]
  else [header r d]

/-- The text about a diagnostic. -/
def diagnosticText (r : ReportStyle) (source : String) (d : Diagnostic) : String :=
  "\n".intercalate (diagnosticLines r source d)

/-- The text about a complaint of a parser. -/
def parseErrorText (r : ReportStyle) (filePath message : String) : String :=
  r.paint .bold (filePath ++ ":1:1") ++ " " ++ r.paint .red "Parse error:" ++ " " ++ message

/-- The number of messages about files. -/
def messageCount (files : List FileReport) : Nat :=
  files.foldr (fun file count => file.diagnostics.length + file.parseErrors.length + count) 0

/-- What a summary tells. -/
structure Summary where
  errorCount : Nat
  fileCount : Nat
  elapsedMs : Float

/-- A duration in seconds with two decimals. -/
def secondsText (elapsedMs : Float) : String := (Double.ofFloat (elapsedMs / 1000.0)).fixedText

/-- The text of a summary. -/
def summaryText (r : ReportStyle) (s : Summary) : String :=
  let seconds := secondsText s.elapsedMs
  let files := s.fileCount
  let errors := s.errorCount
  if errors = 0 then r.paint .green s!"✓ No errors found in {files} files ({seconds}s)"
  else
    let noun := if errors = 1 then "error" else "errors"
    r.paint .red s!"✗ {errors} {noun} found in {seconds}s"

/-- The texts about a file. -/
def fileTexts (r : ReportStyle) (file : FileReport) : List String :=
  file.parseErrors.map (parseErrorText r file.filePath) ++
    file.diagnostics.map (diagnosticText r file.source)

/-- The text of a whole report: what there is to tell, an empty line after it, and the summary. -/
def text (r : ReportStyle) (files : List FileReport) (elapsedMs : Float) : String :=
  let told := files.flatMap (fileTexts r)
  let summary := summaryText r ⟨messageCount files, files.length, elapsedMs⟩
  "\n".intercalate (told ++ (if told.isEmpty then [] else [""]) ++ [summary])

end Report

end PureLint
