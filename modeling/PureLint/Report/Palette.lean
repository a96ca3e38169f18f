import PureLint.Text.Search
import PureLint.Text.Units

/-!
# Terminal styles

A style puts a text between an opening and a closing code. Where the text already holds the closing
code, the style would end too early there, so the code is replaced by one that opens the style
again. Codes that start within the length of the opening code are not looked for.
-/

namespace PureLint

/-- A style of text on a terminal. -/
inductive Style where
  | bold
  | red
  | green
  | yellow
  deriving DecidableEq, Repr

namespace Style

/-- The code of this number. -/
def code (n : String) : String := "\x1b[" ++ n ++ "m"

/-- The code that opens a style. -/
def opening : Style → String
  | .bold => code "1"
  | .red => code "31"
  | .green => code "32"
  | .yellow => code "33"

/-- The code that closes a style. -/
def closing : Style → String
  | .bold => code "22"
  | _ => code "39"

/-- What a closing code inside a text is replaced by. -/
def reopening : Style → String
  | .bold => closing .bold ++ opening .bold
  | style => style.opening

/-- The text with each occurrence of the pattern replaced, those that start within the first `skip`
units aside. After an occurrence, `drop` more characters belong to it. -/
def replaceFrom (pattern replacement : List Char) (skip drop : Nat) : List Char → List Char
  | [] => []
  | c :: rest =>
    if drop ≠ 0 then replaceFrom pattern replacement 0 (drop - 1) rest
    else if skip ≠ 0 then
      c :: replaceFrom pattern replacement (skip - (Text.unitsOf c).length) 0 rest
    else if (Text.dropStart? pattern (c :: rest)).isSome then
      replacement ++ replaceFrom pattern replacement 0 (pattern.length - 1) rest
    else c :: replaceFrom pattern replacement 0 0 rest

/-- A text in a style. -/
def paint (style : Style) (s : String) : String :=
  let inside := replaceFrom style.closing.toList style.reopening.toList style.opening.length 0
    s.toList
  style.opening ++ String.ofList inside ++ style.closing

end Style

/-- How a report is written. -/
structure ReportStyle where
  /-- Whether the offending line is shown under each message. -/
  verbose : Bool := false
  colored : Bool := false

/-- A text in a style, if the report is colored. -/
def ReportStyle.paint (r : ReportStyle) (style : Style) (s : String) : String :=
  if r.colored then style.paint s else s

end PureLint
