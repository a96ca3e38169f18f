import PureLint.Text.Search
import PureLint.Text.Units

/-!
# Features

A file may grant itself features by lines `@allow <feature>` in its first doc block. A granted
feature that is never used is reported, so use is kept track of.
-/

namespace PureLint

/-- What a file can be allowed to use. -/
inductive Feature where
  | timers
  | console
  | net
  | dom
  | throws
  deriving DecidableEq, Repr

namespace Feature

/-- All features, in the order unused ones are reported. -/
def all : List Feature := [.timers, .console, .net, .dom, .throws]

/-- The name by which a file grants a feature. -/
def name : Feature → String
  | .timers => "timers"
  | .console => "console"
  | .net => "net"
  | .dom => "dom"
  | .throws => "throws"

/-- The feature of this name. -/
def ofName? (s : String) : Option Feature := all.find? fun feature => feature.name == s

/-- Every feature is found under its name. -/
theorem ofName?_name (f : Feature) : ofName? f.name = some f := by
  cases f <;> rfl

/-- A line of a doc block without its leading asterisks and the blanks around it. -/
def docLine (line : List Char) : List Char :=
  Text.trim ((Text.trim line).dropWhile (· == '*'))

/-- The feature that a line of the doc block grants. -/
def grantedBy? (line : List Char) : Option Feature := do
  let rest ← Text.dropStart? "@allow ".toList (docLine line)
  ofName? (String.ofList (Text.firstWord (Text.trim rest)))

/-- The text of the first doc block, between its delimiters. -/
def docBlock? (source : List Char) : Option (List Char) := do
  let rest ← Text.after? "/**".toList source
  Text.before? "*/".toList rest

/-- The features that a source grants. -/
def granted (source : String) : List Feature :=
  match docBlock? source.toList with
  | some block => (Text.lines block).filterMap grantedBy?
  | none => []

/-- The granted features that are not among the used ones. -/
def unused (granted used : List Feature) : List Feature :=
  all.filter fun feature => granted.contains feature && !used.contains feature

end Feature

end PureLint
