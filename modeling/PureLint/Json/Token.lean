import PureLint.Json.Basic
import PureLint.Text.Units

/-!
# Tokens of a data file

A machine reads the characters one by one and collects tokens. It is between tokens, or inside a
text, or inside a bare word, which is a number or one of the words `null`, `true` and `false`.
Anything outside the grammar stops it.
-/

namespace PureLint.Json

/-- A token: a punctuation mark, or a value without parts. -/
inductive Token where
  | openBrace
  | closeBrace
  | openBracket
  | closeBracket
  | colon
  | comma
  | scalar (value : Json)

namespace Token

/-- The token that a punctuation mark is. -/
def ofMark? : Char → Option Token
  | '{' => some .openBrace
  | '}' => some .closeBrace
  | '[' => some .openBracket
  | ']' => some .closeBracket
  | ':' => some .colon
  | ',' => some .comma
  | _ => none

/-- Whether a character only separates tokens. -/
def isSpace (c : Char) : Bool := c == ' ' || c == '\t' || c == '\n' || c == '\r'

/-- The exponent in the rest of a number, from the letter `e` on, zero if there is no rest. -/
def exponent? : List Char → Option Int
  | [] => some 0
  | e :: rest =>
    if e = 'e' ∨ e = 'E' then
      match rest with
      | '-' :: ds => (Text.digits? ds).map fun n => -(n : Int)
      | '+' :: ds => (Text.digits? ds).map fun n => (n : Int)
      | ds => (Text.digits? ds).map fun n => (n : Int)
    else none

/-- The number that a word without a sign spells: a whole part without leading zeros, a fraction if
there is a point, and an exponent if there is one. -/
def unsigned? (negative : Bool) (word : List Char) : Option Number := do
  let whole := word.takeWhile Char.isDigit
  let rest := word.dropWhile Char.isDigit
  let digits ← Text.plainDigits? whole
  match rest with
  | '.' :: more =>
    let fraction := more.takeWhile Char.isDigit
    if fraction.isEmpty then none
    else
      let e ← exponent? (more.dropWhile Char.isDigit)
      some (Number.ofDecimal negative (Text.digitsValue (whole ++ fraction)) (e - fraction.length))
  | _ =>
    let e ← exponent? rest
    some (Number.ofDecimal negative digits e)

/-- The value that a bare word is. -/
def ofWord? (word : List Char) : Option Token :=
  if word = "null".toList then some (.scalar .null)
  else if word = "true".toList then some (.scalar (.bool true))
  else if word = "false".toList then some (.scalar (.bool false))
  else
    match word with
    | '-' :: rest => (unsigned? true rest).map fun x => .scalar (.number x)
    | rest => (unsigned? false rest).map fun x => .scalar (.number x)

/-- The character that a letter after a backslash stands for. -/
def escaped? : Char → Option Char
  | '"' => some '"'
  | '\\' => some '\\'
  | '/' => some '/'
  | 'b' => some '\x08'
  | 'f' => some '\x0c'
  | 'n' => some '\n'
  | 'r' => some '\r'
  | 't' => some '\t'
  | _ => none

/-- The value of a hexadecimal digit. -/
def hexDigit? (c : Char) : Option Nat :=
  if '0' ≤ c ∧ c ≤ '9' then some (c.toNat - '0'.toNat)
  else if 'a' ≤ c ∧ c ≤ 'f' then some (c.toNat - 'a'.toNat + 10)
  else if 'A' ≤ c ∧ c ≤ 'F' then some (c.toNat - 'A'.toNat + 10)
  else none

end Token

/-- What the machine is reading. Units of a text and characters of a word are kept last first. -/
inductive Reading where
  | between
  | word (chars : List Char)
  | text (units : List UInt16)
  | escape (units : List UInt16)
  /-- An escape by number: the digits so far, and how many are still to come. -/
  | hex (units : List UInt16) (value left : Nat)

/-- The state of the machine: the tokens so far, last first, and what it is reading. -/
structure Lexer where
  tokens : List Token := []
  reading : Reading := .between

namespace Lexer

/-- Takes a character between two tokens. -/
def start (tokens : List Token) (c : Char) : Lexer :=
  if Token.isSpace c then ⟨tokens, .between⟩
  else if c = '"' then ⟨tokens, .text []⟩
  else
    match Token.ofMark? c with
    | some mark => ⟨mark :: tokens, .between⟩
    | none => ⟨tokens, .word [c]⟩

/-- Whether a character ends a bare word. -/
def endsWord (c : Char) : Bool := Token.isSpace c || c == '"' || (Token.ofMark? c).isSome

/-- Takes one character. -/
def step (lexer : Lexer) (c : Char) : Option Lexer :=
  match lexer.reading with
  | .between => some (start lexer.tokens c)
  | .word chars =>
    if endsWord c then (Token.ofWord? chars.reverse).map fun t => start (t :: lexer.tokens) c
    else some { lexer with reading := .word (c :: chars) }
  | .text units =>
    if c = '"' then
      let s := String.ofList (Text.ofUnits units.reverse)
      some ⟨.scalar (.text s) :: lexer.tokens, .between⟩
    else if c = '\\' then some { lexer with reading := .escape units }
    else if c < ' ' then none
    else some { lexer with reading := .text ((Text.unitsOf c).reverse ++ units) }
  | .escape units =>
    if c = 'u' then some { lexer with reading := .hex units 0 4 }
    else (Token.escaped? c).map fun e =>
      { lexer with reading := .text ((Text.unitsOf e).reverse ++ units) }
  | .hex units value left =>
    (Token.hexDigit? c).map fun d =>
      let value := 16 * value + d
      if left ≤ 1 then { lexer with reading := .text (UInt16.ofNat value :: units) }
      else { lexer with reading := .hex units value (left - 1) }

/-- The tokens once all characters are taken, in order. -/
def finish (lexer : Lexer) : Option (List Token) :=
  match lexer.reading with
  | .between => some lexer.tokens.reverse
  | .word chars => (Token.ofWord? chars.reverse).map fun t => (t :: lexer.tokens).reverse
  | _ => none

end Lexer

/-- The tokens of a text, `none` if it is not made of tokens. -/
def tokens? (text : List Char) : Option (List Token) := do
  (← text.foldlM Lexer.step {}).finish

end PureLint.Json
