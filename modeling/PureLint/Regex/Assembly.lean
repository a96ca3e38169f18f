import PureLint.Regex.Basic

/-!
# Putting regular expressions together

A regular expression is written as a row of lexemes: parts, quantifiers that repeat the part before
them, bars between alternatives, and groups. A row in which a quantifier has nothing to repeat is no
regular expression.

Parentheses group what stands between them. Braces do so too if there is a comma between them, which
then separates alternatives; without a comma they stand for themselves. So does a parenthesis that
has no partner, but a brace that is never closed makes the row invalid.
-/

namespace PureLint.Regex

/-- A lexeme of a written regular expression. -/
inductive Lexeme where
  /-- An expression that can be repeated. -/
  | part (r : Regex)
  /-- Repeats the part before it at least once. -/
  | plus
  /-- Repeats the part before it any number of times. -/
  | star
  /-- Makes the part before it optional. -/
  | question
  /-- Separates alternatives. -/
  | bar
  /-- Separates alternatives between braces and stands for itself elsewhere. -/
  | comma
  | openParen
  | closeParen
  | openBrace
  | closeBrace
  /-- Makes the row invalid. -/
  | broken

/-- The lexeme of one character that stands for itself. -/
def Lexeme.ofChar (c : Char) : Lexeme := .part (ofChars [c])

/-- What a character stands for in a regular expression where nothing keeps it from being a mark. -/
def Lexeme.ofMark : Char → Lexeme
  | '+' => .plus
  | '*' => .star
  | '?' => .question
  | '|' => .bar
  | '(' => .openParen
  | ')' => .closeParen
  | '.' => .part (one .inLine)
  | '^' => .part (one .nothing)
  | '$' => .part atEnd
  | c => .ofChar c

/-- A group that is being read: the alternatives before the last bar, last first, and the terms of
the alternative being read, last first. -/
structure Group where
  isBrace : Bool := false
  hasComma : Bool := false
  done : List Regex := []
  terms : List Regex := []
  /-- Whether the last term can be repeated. -/
  canRepeat : Bool := false

namespace Group

/-- Adds a term. -/
def add (g : Group) (r : Regex) : Group := { g with terms := r :: g.terms, canRepeat := true }

/-- The alternative being read. -/
def current (g : Group) : Regex := sequence g.terms.reverse

/-- Ends the alternative being read. -/
def split (g : Group) : Group :=
  { g with done := g.current :: g.done, terms := [], canRepeat := false }

/-- The expression of the whole group. -/
def whole (g : Group) : Regex := g.done.foldl (fun later earlier => either earlier later) g.current

/-- Replaces the last term, which a quantifier repeats. -/
def quantify (g : Group) (change : Regex → Regex) : Option Group :=
  match g.canRepeat, g.terms with
  | true, last :: before => some { g with terms := change last :: before, canRepeat := false }
  | _, _ => none

/-- Goes on with what an inner group holds after a mark that stands for itself. -/
def inline (outer inner : Group) (mark : Char) : Group :=
  match inner.done.reverse with
  | [] => { outer with
      terms := inner.terms ++ ofChars [mark] :: outer.terms, canRepeat := inner.canRepeat }
  | first :: others =>
    { outer with
      done := others.reverse ++
        sequence (first :: ofChars [mark] :: outer.terms).reverse :: outer.done
      terms := inner.terms
      canRepeat := inner.canRepeat }

/-- Takes one lexeme, given the group being read and those around it. -/
def step (state : Group × List Group) (lexeme : Lexeme) : Option (Group × List Group) :=
  let (g, around) := state
  match lexeme, around with
  | .part r, _ => some (g.add r, around)
  | .plus, _ => (g.quantify atLeastOnce).map (·, around)
  | .star, _ => (g.quantify many).map (·, around)
  | .question, _ => (g.quantify optional).map (·, around)
  | .bar, _ => some (g.split, around)
  | .comma, _ =>
    some (if g.isBrace then { g.split with hasComma := true } else g.add (ofChars [',']), around)
  | .openParen, _ => some ({}, g :: around)
  | .openBrace, _ => some ({ isBrace := true }, g :: around)
  | .closeParen, outer :: others =>
    some (if g.isBrace then (g.add (ofChars [')']), around) else (outer.add g.whole, others))
  | .closeParen, [] => some (g.add (ofChars [')']), [])
  | .closeBrace, outer :: others =>
    some (
      if !g.isBrace then (g.add (ofChars ['}']), around)
      else if g.hasComma then (outer.add g.whole, others)
      else ((outer.inline g '{').add (ofChars ['}']), others))
  | .closeBrace, [] => some (g.add (ofChars ['}']), [])
  | .broken, _ => none

/-- The expression once no more lexemes come. -/
def finish (g : Group) : List Group → Option Regex
  | [] => some g.whole
  | outer :: around => if g.isBrace then none else finish (outer.inline g '(') around

end Group

/-- The regular expression that a row of lexemes writes. -/
def ofLexemes? (lexemes : List Lexeme) : Option Regex := do
  let (g, around) ← lexemes.foldlM Group.step ({}, [])
  g.finish around

end PureLint.Regex
