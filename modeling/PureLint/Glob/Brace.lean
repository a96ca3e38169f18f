import PureLint.Text.Search

/-!
# Alternatives in braces

A pattern with alternatives in braces stands for all patterns that picking one alternative at each
place leaves. Braces stand for themselves if there is no comma between them, if they are never
closed, or if a dollar sign is before them or before braces around them.

Nothing is a mark here after a backslash, between brackets or between quotes. Commas between
parentheses separate no alternatives of the braces around them. Quotes are left out, and so are
no-break spaces and byte order marks.
-/

namespace PureLint.Glob

/-- A group of braces or parentheses that is still open: the alternatives before the last comma,
last first, each as the texts it stands for, and the texts of the alternative being read. -/
structure Brace where
  isParen : Bool := false
  /-- Whether the braces stand for themselves because of a dollar sign. -/
  isDollar : Bool := false
  done : List (List (List Char)) := []
  current : List (List Char) := [[]]

namespace Brace

/-- Each of the one texts followed by each of the others. -/
def product (lefts rights : List (List Char)) : List (List Char) :=
  lefts.flatMap fun left => rights.map fun right => left ++ right

/-- Adds a text to the alternative being read. -/
def push (b : Brace) (text : List Char) : Brace := { b with current := product b.current [text] }

/-- The alternatives in order. -/
def alternatives (b : Brace) : List (List (List Char)) := (b.current :: b.done).reverse

/-- The texts of a group and all in it as plain characters. -/
def plain (b : Brace) (ending : List Char) : List (List Char) :=
  let opening := if b.isParen then ['('] else ['{']
  let joined := (b.alternatives.intersperse [[',']]).foldl product [opening]
  product joined [ending]

/-- The texts that closed braces stand for. -/
def closed (b : Brace) : List (List Char) :=
  if b.done.isEmpty || b.isDollar then b.plain ['}'] else b.alternatives.flatten

/-- Goes on after an inner group, given the texts that it stands for. -/
def append (b : Brace) (texts : List (List Char)) : Brace :=
  { b with current := product b.current texts }

/-- The texts once no more characters come: what is still open is plain. -/
def finish (b : Brace) : List Brace → List (List Char)
  | [] => b.current
  | outer :: around => finish (outer.append (b.plain [])) around

end Brace

/-- What the next character of a pattern belongs to. -/
inductive BraceMode where
  | text
  | escaped
  /-- So many brackets that are open. -/
  | brackets (depth : Nat) (escaped : Bool)
  | quotes (mark : Char) (escaped : Bool)

/-- A pattern with braces while it is read. -/
structure BraceReading where
  mode : BraceMode := .text
  afterDollar : Bool := false
  top : Brace := {}
  around : List Brace := []

namespace BraceReading

/-- Takes a text as it is. -/
def take (r : BraceReading) (text : List Char) (mode : BraceMode) : BraceReading :=
  { r with mode, afterDollar := text.getLast? == some '$', top := r.top.push text }

/-- The quotes. -/
def quoteMarks : List Char := "\"'`".toList

/-- The characters that are left out. -/
def leftOut : List Char := [Char.ofNat 0xA0, Char.ofNat 0xFEFF]

/-- Takes a character that is outside brackets and quotes. -/
def stepText (r : BraceReading) (c : Char) : BraceReading :=
  match c, r.around with
  | '\\', _ => r.take [c] .escaped
  | '[', _ => r.take [c] (.brackets 1 false)
  | ']', _ => r.take ['\\', c] .text
  | '(', _ => { top := { isParen := true }, around := r.top :: r.around }
  | '{', _ =>
    { top := { isDollar := r.afterDollar || r.top.isDollar }, around := r.top :: r.around }
  | ')', outer :: others =>
    if r.top.isParen then { top := outer.append (r.top.plain [c]), around := others }
    else r.take [c] .text
  | '}', outer :: others =>
    if r.top.isParen then r.take [c] .text
    else { top := outer.append r.top.closed, around := others }
  | ',', _ :: _ =>
    if r.top.isParen then r.take [c] .text
    else { r with
      afterDollar := false
      top := { r.top with done := r.top.current :: r.top.done, current := [[]] } }
  | c, _ =>
    if leftOut.contains c then r
    else if quoteMarks.contains c then { r with mode := .quotes c false, afterDollar := false }
    else r.take [c] .text

/-- Takes one character. -/
def step (r : BraceReading) (c : Char) : BraceReading :=
  match r.mode with
  | .text => r.stepText c
  | .escaped => r.take [c] .text
  | .brackets depth true => r.take [c] (.brackets depth false)
  | .brackets depth false =>
    r.take [c] <|
      if c = '\\' then .brackets depth true
      else if c = '[' then .brackets (depth + 1) false
      else if c ≠ ']' then .brackets depth false
      else if depth ≤ 1 then .text
      else .brackets (depth - 1) false
  | .quotes mark true => r.take [c] (.quotes mark false)
  | .quotes mark false =>
    if c = mark then { r with mode := .text } else r.take [c] (.quotes mark (c == '\\'))

end BraceReading

/-- Whether there is a closing brace somewhere after the first opening one. -/
def hasBraces (pattern : List Char) : Bool :=
  ((Text.after? ['{'] pattern).getD []).contains '}'

/-- The patterns without alternatives that a pattern stands for. -/
def expandBraces (pattern : List Char) : List (List Char) :=
  if hasBraces pattern then
    let reading := pattern.foldl BraceReading.step {}
    reading.top.finish reading.around
  else [pattern]

end PureLint.Glob
