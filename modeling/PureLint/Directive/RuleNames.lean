import PureLint.Text.Blank

/-!
# Rule names in a directive

A directive lists rule names after its marker, separated by commas and blanks. The closing of a
block comment is not a name.
-/

namespace PureLint.Directive

/-- Whether a character separates rule names. -/
def isSeparator (c : Char) : Bool := c == ',' || Text.isBlank c

/-- Whether a run of characters names a rule: it is not empty and does not close a comment. -/
def isRuleName (run : List Char) : Bool := !run.isEmpty && !(['*', '/'].isPrefixOf run)

/-- The rule names in a text, in order. -/
def ruleNames (text : List Char) : List String :=
  ((text.splitOnP isSeparator).filter isRuleName).map String.ofList

end PureLint.Directive
