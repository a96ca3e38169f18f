import PureLint.Text.Search

/-!
# Tokens of a glob

A glob is a pattern of paths. Stars, question marks, brackets, slashes and a few more characters are
its marks; every other character is plain, and so is one after a backslash. All that stands between
double quotes is plain too, but right after a plain character a quote is one itself.
-/

namespace PureLint.Glob

/-- A token of a glob. -/
inductive Token where
  | slash
  /-- So many stars in a row. -/
  | stars (count : Nat)
  | question
  | plus
  | bar
  | comma
  | openParen
  | closeParen
  | openBrace
  | closeBrace
  /-- A class of characters: what stands between its brackets. -/
  | set (inside : List Char)
  /-- An opening bracket whose class is never closed, and what follows it. -/
  | unclosed (inside : List Char)
  | plain (c : Char)
  deriving DecidableEq

/-- What is being read: tokens, those right after a plain character, the character after a
backslash, what stands between quotes, or a class, whose characters so far come last first. -/
inductive Reading where
  | tokens
  | afterPlain
  | escaped
  | quoted
  | inSet (inside : List Char)

/-- The marks that are one token each. A dot, an at sign and a closing bracket stand for
themselves. -/
def marks : List (Char × Token) :=
  [('/', .slash), ('?', .question), ('+', .plus), ('|', .bar), (',', .comma), ('(', .openParen),
    (')', .closeParen), ('{', .openBrace), ('}', .closeBrace), ('.', .plain '.'),
    ('@', .plain '@'), (']', .plain ']')]

/-- Adds a star to the tokens after it. -/
def addStar : List Token → List Token
  | .stars n :: rest => .stars (n + 1) :: rest
  | rest => .stars 1 :: rest

/-- Whether a closing bracket ends a class: it does not right after the opening bracket or a mark of
negation, where it is a member. -/
def endsSet (inside : List Char) : Bool := !([[], ['!'], ['^']].contains inside)

/-- The tokens of a glob. An opening bracket with no closing one after it opens no class. -/
def tokens : Reading → List Char → List Token
  | .tokens, [] => []
  | .afterPlain, [] => []
  | .quoted, [] => []
  | .escaped, [] => [.plain '\\']
  | .inSet inside, [] => [.unclosed inside.reverse]
  | .escaped, c :: rest => (if c = '/' then .slash else .plain c) :: tokens .tokens rest
  | .quoted, c :: rest =>
    if c = '"' then tokens .tokens rest else .plain c :: tokens .quoted rest
  | .inSet inside, c :: rest =>
    if c = ']' && endsSet inside then .set inside.reverse :: tokens .tokens rest
    else tokens (.inSet (c :: inside)) rest
  | .tokens, '"' :: rest => tokens .quoted rest
  | _, c :: rest =>
    match marks.lookup c with
    | some token => token :: tokens .tokens rest
    | none =>
      if c = '*' then addStar (tokens .tokens rest)
      else if c = '\\' then tokens .escaped rest
      else if c ≠ '[' then .plain c :: tokens .afterPlain rest
      else if rest.contains ']' then tokens (.inSet []) rest
      else .unclosed [] :: tokens .tokens rest

end PureLint.Glob
