import PureLint.Rule.Basic

/-!
# Names and exports

Rules that look at the whole file once it has been walked: names that are never read, and how many
functions are exported. A name that starts with an underscore is meant to stay unread.
-/

namespace PureLint.Rule

/-- The entries of a table whose names are not read, and not meant to stay so. -/
def unread (table : NameTable) (used : List String) : NameTable :=
  table.filter fun (name, _) => !Text.startsWith name "_" && !used.contains name

/-- Bans variables and parameters that are never read, other than exported ones. -/
def noUnusedVariables : Rule where
  id := "no-unused-variables"
  description := "Flags variables and function parameters that are never read."
  finish := reportingAtEnd fun survey =>
    (unread survey.names.declared survey.names.used).filterMap fun (name, span) =>
      if survey.topLevel.names.contains name then none
      else some ⟨span, s!"Variable '{name}' is declared but never used"⟩

/-- Bans imports that are never read. -/
def noUnusedImports : Rule where
  id := "no-unused-imports"
  description := "Flags imported bindings that are never referenced."
  finish := reportingAtEnd fun survey =>
    (unread survey.names.imported survey.names.used).map fun (name, span) =>
      ⟨span, s!"Import '{name}' is declared but never used"⟩

/-- Allows one exported function and no other value. -/
def onePublicFunction : Rule where
  id := "one-public-function"
  description := "Allows at most one exported function per file and nothing else."
  finish := reportingAtEnd fun survey =>
    survey.topLevel.others.map (fun ⟨name, span⟩ =>
      ⟨span, s!"Only functions can be exported. Found non-function export: {name}"⟩) ++
    (survey.topLevel.functions.drop 1).map fun ⟨name, span⟩ =>
      ⟨span, s!"Only one function can be exported per file. Found additional export: {name}"⟩

end PureLint.Rule
