import PureLint.Glob.Token
import PureLint.Regex.Assembly

/-!
# The regular expression of a glob

Within a segment of a path a star stands for any units, a question mark for one unit, and brackets
for one unit of a class. A segment of two stars stands for any number of segments; stars in a row
anywhere else mean what one star means. A single star at the beginning of a segment asks for at
least one more unit of the line there.

A class can also stand for its own text, unless it holds a character that is a mark in regular
expressions. A plus sign after a class or a group repeats it. The segments `.` and `..` do not occur
in the paths that globs are held against, so that no glob has to pass over them.
-/

namespace PureLint.Glob

open Regex (Lexeme)

/-- The unit of the slash. -/
def slash : UInt16 := 47

/-- The expression of a slash. -/
def slashPart : Regex := .one (.only slash)

/-- One unit within a segment. -/
def unitPart : Regex := .one { negated := true, ranges := [(slash, slash)] }

/-- Any units within a segment. -/
def starPart : Regex := .many unitPart

/-- Any units of a line. -/
def deepPart : Regex := .many (.one .inLine)

/-- A star at the beginning of a segment. -/
def firstStarPart : Regex := .both (.next .inLine) starPart

/-- Any segments and a slash after them. -/
def segmentsPart : Regex := .both deepPart slashPart

/-! ## Classes -/

/-- The units of a class as ranges; a hyphen between two units makes a range of them. -/
def ranges : List UInt16 → List (UInt16 × UInt16)
  | a :: 45 :: b :: rest => (a, b) :: ranges rest
  | a :: rest => (a, a) :: ranges rest
  | [] => []

/-- The characters that keep a class from standing for its own text. -/
def classMarks : List Char :=
  ['-', '*', '+', '?', '.', '^', '$', '{', '}', '(', '|', ')', '[', ']']

/-- The lexeme of a class. A negated class takes no slash. A range whose ends are in the wrong order
makes the glob invalid. -/
def setLexeme (inside : List Char) : Lexeme :=
  let (negated, members) :=
    match inside with
    | '!' :: rest => (true, rest)
    | '^' :: rest => (true, rest)
    | _ => (false, inside)
  let found := ranges (Text.units members)
  if found.any fun (first, last) => last < first then .broken
  else if negated then .part (.one { negated := true, ranges := (slash, slash) :: found })
  else if inside.any classMarks.contains then .part (.one { ranges := found })
  else .part (.either (.ofChars ('[' :: inside ++ [']'])) (.one { ranges := found }))

/-- The lexemes of a class that is never closed. Its brackets stand for themselves, and other
characters for what they mean in regular expressions, where a mark of negation matches nothing. -/
def unclosedLexemes (inside : List Char) : List Lexeme :=
  .ofChar '[' ::
    match inside with
    | '!' :: rest => .ofMark '^' :: rest.map member
    | _ => inside.map member
where
  member (c : Char) : Lexeme := if c = '[' || c = ']' then .ofChar c else .ofMark c

/-! ## Tokens in their places -/

/-- Whether stars may stand for segments after this token: at the beginning of a segment or of a
group. -/
def startsDeep (braces : Nat) : Option Token → Bool
  | none => true
  | some .slash => true
  | some .openParen => true
  | some .closeParen => true
  | some .openBrace => true
  | some .closeBrace => braces != 0
  | some .comma => braces != 0
  | _ => false

/-- Whether stars that stand for segments may end before these tokens. -/
def endsDeep (braces : Nat) : List Token → Bool
  | [] => true
  | .slash :: _ => true
  | .openParen :: _ => true
  | .closeParen :: _ => true
  | .openBrace :: _ => true
  | .closeBrace :: _ => braces != 0
  | .comma :: _ => braces != 0
  | _ => false

/-- What stars in a row stand for between the token before them and those after them. -/
def starsPart (braces : Nat) (before : Option Token) (count : Nat) (rest : List Token) : Regex :=
  if count = 1 && (before.isNone || before == some .slash) then firstStarPart
  else if count = 2 && startsDeep braces before && endsDeep braces rest then deepPart
  else starPart

/-- Whether a plus sign after this token repeats it. -/
def isRepeatable : Option Token → Bool
  | some (.set _) => true
  | some (.unclosed _) => true
  | some .closeParen => true
  | some .openBrace => true
  | some .closeBrace => true
  | _ => false

/-- The lexeme of a plus sign. It repeats what is before it after a class or a group, and anywhere
within parentheses. -/
def plusLexeme (parens : Nat) (before : Option Token) : Lexeme :=
  if before != some .openParen && (isRepeatable before || parens != 0) then .plus else .ofChar '+'

/-- The lexeme of a question mark, which makes a group before it optional. -/
def questionLexeme : Option Token → Lexeme
  | some .openParen => .ofChar '?'
  | some .closeParen => .question
  | _ => .part unitPart

/-- Whether a token is a row of stars. -/
def isStars : Option Token → Bool
  | some (.stars _) => true
  | _ => false

/-- The lexemes of tokens, given how many parentheses and braces are open and the token before. The
slash before a segment of two stars can be left out together with all that the segment stands for,
at the end of the glob only if no stars are before the slash. -/
def lexemes (parens braces : Nat) (before : Option Token) : List Token → List Lexeme
  | [] => []
  | [.slash, .stars 2] =>
    if before.isNone || isStars before then [.part slashPart, .part deepPart]
    else [.part (.either (.both slashPart deepPart) .atEnd)]
  | .slash :: .stars 2 :: .slash :: rest =>
    let short := if rest.isEmpty then slashPart else .either slashPart .atEnd
    .part (if before.isNone then .both slashPart segmentsPart
      else .either (.both slashPart segmentsPart) short) ::
      lexemes parens braces (some .slash) rest
  | .slash :: rest => .part slashPart :: lexemes parens braces (some .slash) rest
  | .stars count :: rest =>
    .part (starsPart braces before count rest) ::
      lexemes parens braces (some (.stars count)) rest
  | .question :: rest => questionLexeme before :: lexemes parens braces (some .question) rest
  | .plus :: rest => plusLexeme parens before :: lexemes parens braces (some .plus) rest
  | .bar :: rest => .bar :: lexemes parens braces (some .bar) rest
  | .comma :: rest => .comma :: lexemes parens braces (some .comma) rest
  | .openParen :: rest => .openParen :: lexemes (parens + 1) braces (some .openParen) rest
  | .closeParen :: rest => .closeParen :: lexemes (parens - 1) braces (some .closeParen) rest
  | .openBrace :: rest => .openBrace :: lexemes parens (braces + 1) (some .openBrace) rest
  | .closeBrace :: rest =>
    .closeBrace ::
      lexemes parens (braces - 1) (some (if braces = 0 then .plain '}' else .closeBrace)) rest
  | .set inside :: rest => setLexeme inside :: lexemes parens braces (some (.set inside)) rest
  | .unclosed inside :: rest =>
    unclosedLexemes inside ++ lexemes parens braces (some (.unclosed inside)) rest
  | .plain c :: rest => .ofChar c :: lexemes parens braces (some (.plain c)) rest

/-- The lexemes of a whole glob. A first segment of two stars can be left out together with the
slash after it. -/
def globLexemes : List Token → List Lexeme
  | .stars 2 :: .slash :: rest =>
    .part (.either .empty (.either slashPart segmentsPart)) :: lexemes 0 0 (some .slash) rest
  | rest => lexemes 0 0 none rest

/-- The segment that stands for any number of segments. -/
def deep : List Char := ['*', '*']

/-- Segments without repetitions of two stars. -/
def collapseDeep : List (List Char) → List (List Char)
  | a :: b :: rest =>
    if a = deep ∧ b = deep then collapseDeep (b :: rest) else a :: collapseDeep (b :: rest)
  | short => short

/-! ## Globs without groups and slashes -/

/-- Whether a glob has no slash, no brackets of any kind and no quotes, and does not start with a
star or an exclamation mark. -/
def isFlat (glob : List Char) : Bool :=
  !(glob.any "/()[]\x7b\x7d\"".toList.contains) && glob.head? != some '*' &&
    glob.head? != some '!'

/-- The lexemes of a flat glob, given the character before. Stars mean the same everywhere. Other
characters stand for themselves, but a mark of regular expressions only the first time in a row. -/
def flatLexemes (before : Option Char) : List Char → List Lexeme
  | [] => []
  | '\\' :: c :: rest => .ofChar c :: flatLexemes (some c) rest
  | c :: rest =>
    let here : List Lexeme :=
      if c = '*' then if before = some '*' then [] else [.part starPart]
      else if c = '?' then [.part unitPart]
      else if c ≠ '.' ∧ before = some c then [.ofMark c]
      else [.ofChar c]
    here ++ flatLexemes (some c) rest

/-! ## Common globs -/

/-- Segments that can be left out together with the slash after them. -/
def anySegmentsPart : Regex := .optional segmentsPart

/-- A dot and at least one more unit of the line, then anything within the segment. -/
def extensionPart : Regex := .both (.ofChars ['.']) firstStarPart

/-- The globs that are read as a whole. Here stars before a dot can stand for nothing. -/
def commonGlobs : List (String × Regex) :=
  [("*", firstStarPart),
    (".*", extensionPart),
    ("*.*", .both starPart extensionPart),
    ("*/*", .both starPart (.both slashPart firstStarPart)),
    ("**", deepPart),
    ("**/*", .both anySegmentsPart firstStarPart),
    ("**/*.*", .both anySegmentsPart (.both starPart extensionPart)),
    ("**/.*", .both anySegmentsPart extensionPart)]

/-- Whether a character is an ASCII letter or digit or an underscore. -/
def isWord (c : Char) : Bool := c.isAlphanum || c == '_'

/-- Whether a text is a row of extensions: dots with words after them. -/
def isExtensions (text : List Char) : Bool :=
  match text.splitOn '.' with
  | first :: words => first.isEmpty && words.all fun word => !word.isEmpty && word.all isWord
  | [] => true

/-- The expression of a common glob with extensions after it. -/
def common? (glob : List Char) : Option Regex :=
  commonGlobs.findSome? fun (form, regex) => do
    let rest ← Text.dropStart? form.toList glob
    if isExtensions rest then some (.both regex (.ofChars rest)) else none

/-- The globs that are short for others. -/
def shorter : List (String × String) := [("***", "*"), ("**/**", "**"), ("**/**/**", "**")]

/-- A glob without the segments at its beginning that stand for the place where it starts. -/
def dropHere : List Char → List Char
  | '.' :: '/' :: rest => dropHere rest
  | glob => glob

/-- The expression of any glob that is not common. -/
def general? (glob : List Char) : Option Regex :=
  let text := ['/'].intercalate (collapseDeep ((dropHere glob).splitOn '/'))
  Regex.ofLexemes? (globLexemes (tokens .tokens text))

/-- The regular expression of a glob, `none` if it is invalid. -/
def translate (glob : List Char) : Option Regex :=
  match common? glob with
  | some regex => some regex
  | none => if isFlat glob then Regex.ofLexemes? (flatLexemes none glob) else general? glob

end PureLint.Glob
