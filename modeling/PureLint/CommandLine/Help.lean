import PureLint.CommandLine.Flag
import PureLint.Text.Units

/-!
# Help texts

A help text lists terms in one column and what they mean in another, which is broken between words
where it would pass the eightieth column.
-/

namespace PureLint.Help

/-- The lines into which words are filled, each at most `width` long where its words allow it. -/
def fill (width : Nat) (words : List String) : List String :=
  let (lines, last) := words.foldl (fun (lines, line) word =>
    if line = "" then (lines, word)
    else if line.length + 1 + word.length ≤ width then (lines, line ++ " " ++ word)
    else (lines ++ [line], word)) (([] : List String), "")
  lines ++ [last]

/-- A text filled up with spaces to a width. -/
def pad (width : Nat) (s : String) : String :=
  s ++ String.ofList (List.replicate (width - s.length) ' ')

/-- A term and what it means. -/
structure Item where
  term : String
  meaning : String

/-- The width of a help text. -/
def columns : Nat := 80

/-- The text of an item, where all terms of the help text fit into `width`. Terms are indented by
two columns, two more columns stand before the meaning, and one column stays free after it. -/
def Item.text (width : Nat) (item : Item) : String :=
  let words := (item.meaning.toList.splitOn ' ').map String.ofList
  let newline := "\n" ++ pad (width + 4) ""
  "  " ++ pad (width + 2) item.term ++
    newline.intercalate (fill (columns - (width + 4) - 1) words)

/-- A part of a help text: a title over items. -/
structure Part where
  title : String
  items : List Item

/-- A help text from its usage, its summary and its parts. -/
def text (usage summary : String) (parts : List Part) : String :=
  let parts := parts.filter fun part => !part.items.isEmpty
  let width := (parts.flatMap fun part => part.items.map (·.term.length)).foldl max 0
  let shown := parts.map fun part =>
    (part.title ++ ":") :: part.items.map (Item.text width)
  "\n\n".intercalate ([s!"Usage: {usage}", summary] ++ shown.map ("\n".intercalate ·)) ++ "\n"

/-- The values that a flag takes, as help tells them. -/
def choicesText (flag : Flag) : String :=
  if flag.choices.isEmpty then ""
  else
    let quoted := flag.choices.map fun choice => "\"" ++ choice ++ "\""
    " (choices: " ++ ", ".intercalate quoted ++ ")"

/-- The item of a flag. -/
def flagItem (flag : Flag) : Item := ⟨flag.text, flag.description ++ choicesText flag⟩

/-- The item of the flag that asks for help. -/
def helpItem : Item := ⟨", ".intercalate helpFlags, "display help for command"⟩

/-- The name of the program. -/
def programName : String := "purets"

/-- The help text of the program. -/
def program : String :=
  text (programName ++ " [options] [command] [directory]")
    "Enforce a pure, functional subset of TypeScript"
    [⟨"Arguments", [⟨"directory", "Directory to check (default: \".\")"⟩]⟩,
     ⟨"Options", Flag.all.map flagItem ++ [helpItem]⟩,
     ⟨"Commands", Subcommand.all.map fun c => ⟨c.name, c.description⟩⟩]

/-- The help text of a subcommand. -/
def subcommand (c : Subcommand) : String :=
  let name := c.name
  text (programName ++ s!" {name} [options]") c.description [⟨"Options", [helpItem]⟩]

end PureLint.Help
