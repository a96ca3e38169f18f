import PureLint.Text.Search
import PureLint.Text.Units
import PureLint.Tree.Value

/-!
# Comments

The comments of a source, in the order they start, and the doc block that stands directly above an
offset: the last comment that ends at or before it, if that is a block opened by two asterisks and
only blanks lie between.
-/

namespace PureLint

/-- The two forms of comment. -/
inductive CommentKind where
  | line
  | block
  deriving DecidableEq, Repr

/-- A comment: the text between its delimiters, and its offsets. -/
structure Comment where
  kind : CommentKind
  text : String
  start : Number
  stop : Number

namespace Comment

/-- The kind of comment of this name. -/
def kindOfName? : String → Option CommentKind
  | "Line" => some .line
  | "Block" => some .block
  | _ => none

/-- The comment that a value describes, if all its fields are there and of the right sort. -/
def ofValue? : Value → Option Comment
  | .object _ fields => do
    let kind ← kindOfName? (← Value.textField? fields "type")
    let text ← Value.textField? fields "value"
    let start ← Value.numberField? fields "start"
    let stop ← Value.numberField? fields "end"
    some ⟨kind, text, start, stop⟩
  | _ => none

/-- Comments put in the order they start, those with equal starts in the order given. -/
def inOrder (comments : List Comment) : List Comment :=
  comments.mergeSort fun a b => !b.start.lt a.start

/-- Whether a comment is a block that documents what follows it. -/
def isDoc (c : Comment) : Bool := c.kind == .block && Text.startsWith c.text "*"

/-- The last of the leading comments that end at or before an offset. -/
def lastBefore? (comments : List Comment) (offset : Number) : Option Comment :=
  (comments.takeWhile fun c => !offset.lt c.stop).getLast?

/-- Whether only blanks lie between two offsets of a text. -/
def blankBetween (source : List UInt16) (start stop : Number) : Bool :=
  let first := start.bound source.length
  let last := stop.bound source.length
  Text.allBlank ((source.take last).drop first)

/-- The text of the doc block directly above an offset. -/
def docBefore (source : List UInt16) (comments : List Comment) (offset : Number) :
    Option String := do
  let found ← lastBefore? comments offset
  if found.isDoc && blankBetween source found.stop offset then some found.text else none

end Comment

end PureLint
