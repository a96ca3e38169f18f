import PureLint.Directive.Feature

/-!
# Parameter tags

The names that the `@param` tags of a doc comment give, one tag a line: `@param name`,
`@param {T} name`, `@param [name]` and `@param [name=default]`. A name with a dot describes a field
of a parameter and is left out.
-/

namespace PureLint.ParamTag

/-- A tag's text after the type in braces that it may start with. A type that is never closed takes
all of it. -/
def afterType (rest : List Char) : List Char :=
  match rest with
  | '{' :: _ => (Text.after? ['}'] rest).elim [] Text.trim
  | _ => rest

/-- The text without its first character if that is `c`. -/
def dropFirst (c : Char) (cs : List Char) : List Char := (Text.dropStart? [c] cs).getD cs

/-- The text without its last character if that is `c`. -/
def dropLast (c : Char) (cs : List Char) : List Char := (dropFirst c cs.reverse).reverse

/-- The name in a word of a tag, without brackets and default. -/
def nameIn (word : List Char) : List Char :=
  (dropLast ']' (dropFirst '[' word)).takeWhile (· != '=')

/-- The name that a line of a doc comment gives a tag for. -/
def ofLine? (line : List Char) : Option String := do
  let rest ← Text.dropStart? "@param".toList (Feature.docLine line)
  let name := nameIn (Text.firstWord (afterType (Text.trim rest)))
  if name.isEmpty || name.contains '.' then none else some (String.ofList name)

/-- The names of the tags in a doc comment, in order. -/
def names (doc : String) : List String := (Text.lines doc.toList).filterMap ofLine?

end PureLint.ParamTag
