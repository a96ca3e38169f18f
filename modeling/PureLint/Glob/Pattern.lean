import PureLint.Glob.Brace
import PureLint.Glob.Translation

/-!
# Patterns of paths

How a written pattern is read. Its braces are expanded, and each glob that they leave is held
against whole paths. A leading `./` means nothing. An exclamation mark at the beginning means
nothing either, but more of them turn the glob around each time.
-/

namespace PureLint.Glob

/-- A pattern without braces. -/
structure Pattern where
  text : List Char
  /-- Whether the pattern matches the lines that its expression does not match. -/
  negated : Bool
  /-- The expression of the glob, `none` if the glob is invalid. -/
  regex : Option Regex

namespace Pattern

/-- Reads a pattern without braces. -/
def ofChars (text : List Char) : Pattern :=
  let known := ((shorter.lookup (String.ofList text)).map String.toList).getD text
  let bare := (Text.dropStart? ['.', '/'] known).getD known
  let marks := bare.takeWhile (· == '!')
  let regex := if marks.isEmpty then translate bare else general? (bare.drop marks.length)
  ⟨text, marks.length % 2 == 1, regex⟩

/-- Whether a path matches. -/
def test (p : Pattern) (path : String) : Bool :=
  let us := Text.units path.toList
  match p.regex with
  | some regex =>
    if p.negated then us.all UnitSet.inLine.contains && !regex.accepts us else regex.accepts us
  | none => false

/-- Whether the pattern starts at the root of the file system. -/
def isAbsolute (p : Pattern) : Bool := p.text.head? == some '/'

/-- The last segment, slashes at the end aside. -/
def basename (p : Pattern) : List Char :=
  let bare := (p.text.reverse.dropWhile (· == '/')).reverse
  (bare.splitOn '/').getLast?.getD []

/-- Whether a segment has none of the marks of a pattern. -/
def isLiteral (segment : List Char) : Bool :=
  !segment.contains '*' && !segment.contains '?' && !segment.contains '\\' &&
    segment.head? != some '!' && !hasClass segment
where
  hasClass : List Char → Bool
    | [] => false
    | c :: rest => (c == '[' && closes rest) || hasClass rest
  closes (rest : List Char) : Bool :=
    (rest.dropWhile fun c => c != '[' && c != ']').head? == some ']'

/-- Whether a directory that matches is left out with everything below it: the pattern ends in
`/**`, or its last segment is literal. -/
def prunes (p : Pattern) : Bool :=
  ['/', '*', '*'].isSuffixOf p.text || isLiteral p.basename

end Pattern

/-- The text with each run of slashes, other than at its beginning, made one slash. -/
def singleSlashes : List Char → List Char
  | [] => []
  | c :: rest => c :: go rest
where
  go : List Char → List Char
    | [] => []
    | '/' :: '/' :: rest => go ('/' :: rest)
    | c :: rest => c :: go rest

/-- The patterns that a written pattern stands for. -/
def read (written : String) : List Pattern :=
  let expanded := (expandBraces written.toList).filter fun text => !text.isEmpty
  expanded.map fun text =>
    let text := singleSlashes text
    Pattern.ofChars ((Text.dropStart? ['!'] text).getD text)

end PureLint.Glob
