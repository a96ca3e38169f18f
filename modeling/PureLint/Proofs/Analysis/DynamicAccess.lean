import PureLint.Proofs.Analysis.Arrays
import PureLint.Proofs.Decimal.Rounding
import PureLint.Proofs.Survey.Reference
import PureLint.Proofs.Text.Digits
import PureLint.Proofs.Tree.Placement

/-!
# Computed members

A computed member is reported unless its key is a position: a number, or a text that spells an
integer of 32 bits, however many digits it has. The rule reads such a text as a double, which is
rounded, and still it decides by the exact integer. The message depends on whether the member is
itself the target of an assignment, not on whether something around it or inside it is.
-/

namespace PureLint

open Text (Spells)

namespace Node

/-- A key that is a position: a number, or a text that spells an integer of 32 bits. -/
inductive IsPosition (key : Node) : Prop
  | number {x : Number} :
    key.kind = "Literal" → key.fields.lookup "value" = some (.number x) → IsPosition key
  | text {text : String} {n : Int} :
    key.kind = "Literal" → key.fields.lookup "value" = some (.text text) →
      Spells text.toList n → -2 ^ 31 ≤ n → n ≤ 2 ^ 31 - 1 → IsPosition key

/-- A computed member whose key, if it is there, is not a position. -/
structure IsDynamicAccess (n : Node) : Prop where
  kind : n.kind = "MemberExpression"
  computed : n.flag "computed" = true
  key : ∀ property, n.child "property" = some property → ¬property.IsPosition

variable {key : Node}

/-- A text found in a literal is the value of its field. -/
theorem literalText?_eq_some_iff {text : String} :
    key.literalText? = some text ↔
      key.kind = "Literal" ∧ key.fields.lookup "value" = some (.text text) := by
  rw [literalText?, Option.ite_none_right_eq_some, text?, Value.textField?]
  apply and_congr_right'
  split <;> simp_all

/-- A number is found in a literal where its field holds one. -/
theorem isNumber_iff :
    key.isNumber = true ↔
      key.kind = "Literal" ∧ ∃ x, key.fields.lookup "value" = some (.number x) := by
  rw [isNumber, Bool.and_eq_true, beq_iff_eq, Value.numberField?]
  apply and_congr_right'
  split <;> simp_all

/-- A key is a position where it is a number, or a text in it spells an integer of 32 bits. -/
theorem isPosition_iff :
    key.IsPosition ↔ key.isNumber = true ∨ ∃ text, key.literalText? = some text ∧
      ∃ n, Spells text.toList n ∧ -2 ^ 31 ≤ n ∧ n ≤ 2 ^ 31 - 1 := by
  simp only [isNumber_iff, literalText?_eq_some_iff]
  constructor
  · rintro (⟨hkind, hvalue⟩ | ⟨hkind, hvalue, hspells, hlower, hupper⟩)
    · exact Or.inl ⟨hkind, _, hvalue⟩
    · exact Or.inr ⟨_, ⟨hkind, hvalue⟩, _, hspells, hlower, hupper⟩
  · rintro (⟨hkind, x, hvalue⟩ | ⟨text, ⟨hkind, hvalue⟩, n, hspells, hlower, hupper⟩)
    · exact .number hkind hvalue
    · exact .text hkind hvalue hspells hlower hupper

end Node

/-- A visited node is itself the left side of the assignment that is its parent. -/
def Visit.IsTarget (visit : Visit) : Prop :=
  ∃ parent left, visit.parent = some parent ∧ parent.kind = "AssignmentExpression" ∧
    parent.child "left" = some left ∧ visit.node.id = left.id

namespace Rule

variable {key : Node} {visit : Visit}

/-- The double of an integer of any size lies within the positions exactly if the integer does. -/
theorem inPositions_ofNat_iff {negative : Bool} {n : Nat} :
    inPositions (Double.ofNat negative n) = true ↔
      -2 ^ 31 ≤ signed negative n ∧ signed negative n ≤ 2 ^ 31 - 1 := by
  have hleast : leastPosition.natAbs < twoTo 53 := by decide
  have hgreatest : greatestPosition.natAbs < twoTo 53 := by decide
  rw [inPositions, Bool.and_eq_true, (Double.ofNat_compares hleast).1,
    (Double.ofNat_compares hgreatest).2]
  rfl

/-- A key is told to be a position where it is one. -/
theorem isPositionKey_iff : isPositionKey key = true ↔ key.IsPosition := by
  rw [Node.isPosition_iff, isPositionKey, Bool.or_eq_true, Option.any_eq_true]
  apply or_congr_right
  simp only [Option.bind_eq_some_iff, ← exists_signedDigits?_iff, inPositions_ofNat_iff,
    Prod.exists]
  constructor
  · rintro ⟨negative, n, ⟨text, htext, hread⟩, hrange⟩
    exact ⟨text, htext, _, ⟨negative, n, hread, rfl⟩, hrange⟩
  · rintro ⟨text, htext, _, ⟨negative, n, hread, rfl⟩, hrange⟩
    exact ⟨negative, n, ⟨text, htext, hread⟩, hrange⟩

/-- A visited node is told to be assigned to where it is the target of an assignment. -/
theorem isAssigned_iff : isAssigned visit = true ↔ visit.IsTarget := by
  simp only [isAssigned, Option.any_eq_true, Bool.and_eq_true, beq_iff_eq, Node.same,
    Visit.IsTarget, exists_and_left]

end Rule

instance (key : Node) : Decidable key.IsPosition := decidable_of_iff _ Rule.isPositionKey_iff

instance (visit : Visit) : Decidable visit.IsTarget := decidable_of_iff _ Rule.isAssigned_iff

/-- A computed member is one to report where the rule finds its key not to be a position. -/
theorem Node.isDynamicAccess_iff {n : Node} :
    n.IsDynamicAccess ↔ n.kind = "MemberExpression" ∧
      (n.flag "computed" && !(n.child "property").any Rule.isPositionKey) = true := by
  have hkey : (!(n.child "property").any Rule.isPositionKey) = true ↔
      ∀ property, n.child "property" = some property → ¬property.IsPosition := by
    simp only [← Rule.isPositionKey_iff]
    cases n.child "property" <;> simp
  rw [Bool.and_eq_true, hkey]
  constructor
  · intro h
    exact ⟨h.kind, h.computed, h.key⟩
  · rintro ⟨hkind, hcomputed, hkey⟩
    exact ⟨hkind, hcomputed, hkey⟩

instance (n : Node) : Decidable n.IsDynamicAccess :=
  decidable_of_iff _ Node.isDynamicAccess_iff.symm

namespace AnalysisOptions

/-- **Before any directive takes one away, there is one report for each visit to a computed member
whose key is not a position, at the member, and no other.** It is one on an assignment where the
member itself is what the assignment around it assigns to, and one on an access else. In a tree of
distinct nodes, that target is the very member that is visited. -/
theorem messagesOf_noDynamicAccess (o : AnalysisOptions) (program : Node)
    (comments : List Comment) (hnames : (o.rules.map (·.id) ++ o.policies.map (·.id)).Nodup)
    (hrule : Rule.noDynamicAccess ∈ o.rules) :
    o.messagesOf program comments "no-dynamic-access" =
        ((program.visits.filter fun visit => visit.node.IsDynamicAccess).map fun visit =>
          ⟨"no-dynamic-access",
            if visit.IsTarget then
              "Dynamic property assignment is not allowed. Use dot notation instead"
            else
              "Dynamic property access is not allowed. Use dot notation or destructuring instead",
            visit.node.span⟩) ∧
      (program.Distinct → ∀ visit ∈ program.visits, visit.IsTarget ↔
        ∃ parent, visit.parent = some parent ∧ parent.kind = "AssignmentExpression" ∧
          parent.child "left" = some visit.node) := by
  constructor
  · have hmessages : o.messagesOf program comments "no-dynamic-access" = _ :=
      messagesOf_reporting hnames (List.nodup_singleton _) (by decide) hrule
    have hvisits : program.visits =
        ((Survey.ofProgram program).stages program.events).map Prod.fst :=
      (Survey.stages_fst _ _).symm
    rw [hmessages, List.map_flatMap, hvisits, List.filter_map, List.map_map, List.map_eq_flatMap,
      flatMap_filter]
    apply List.flatMap_congr
    rintro ⟨visit, survey⟩ -
    simp only [Function.comp_apply, List.mem_singleton, decide_eq_true_eq,
      Node.isDynamicAccess_iff, ← Rule.isAssigned_iff]
    by_cases hkind : visit.node.kind = "MemberExpression"
    · simp only [hkind, if_true, true_and, reportIf]
      split <;> rfl
    · simp [hkind]
  · intro hroot visit hvisit
    constructor
    · rintro ⟨parent, left, hparent, hkind, hleft, hid⟩
      have hplaces := (Node.reaches_parent hvisit hparent).places_child hleft
      rw [hroot.node_unique ⟨visit, hvisit, rfl⟩ hplaces.reaches hid]
      exact ⟨parent, hparent, hkind, hleft⟩
    · rintro ⟨parent, hparent, hkind, hleft⟩
      exact ⟨parent, visit.node, hparent, hkind, hleft, rfl⟩

/-- The member of a name by a key that is a text, from a number for its identity on. -/
def textMember (id : Nat) (name key : String) : Value :=
  .atStart id "MemberExpression" [
    ("object", .atStart (id + 1) "Identifier" [("name", .text name)]),
    ("property", .atStart (id + 2) "Literal" [("value", .text key)]),
    ("computed", .bool true)]

/-- The tree of `t[k][i] = a["+007"]; b["2147483648"]; c["-2147483648"]; d["9007199254740993"];`
and `e["000000000000000000000000000002147483647"]; f.g;`. -/
def keyedAccesses : Node :=
  ⟨0, "Program", .int 0, .int 0, [("body", .array [
    .atStart 1 "ExpressionStatement" [("expression", .atStart 2 "AssignmentExpression" [
      ("left", .atStart 3 "MemberExpression" [
        ("object", .atStart 4 "MemberExpression" [
          ("object", .atStart 5 "Identifier" [("name", .text "t")]),
          ("property", .atStart 6 "Identifier" [("name", .text "k")]),
          ("computed", .bool true)]),
        ("property", .atStart 7 "Identifier" [("name", .text "i")]),
        ("computed", .bool true)]),
      ("right", textMember 8 "a" "+007")])],
    .atStart 11 "ExpressionStatement" [("expression", textMember 12 "b" "2147483648")],
    .atStart 15 "ExpressionStatement" [("expression", textMember 16 "c" "-2147483648")],
    .atStart 19 "ExpressionStatement" [("expression", textMember 20 "d" "9007199254740993")],
    .atStart 23 "ExpressionStatement" [
      ("expression", textMember 24 "e" "000000000000000000000000000002147483647")],
    .atStart 27 "ExpressionStatement" [("expression", .atStart 28 "MemberExpression" [
      ("object", .atStart 29 "Identifier" [("name", .text "f")]),
      ("property", .atStart 30 "Identifier" [("name", .text "g")]),
      ("computed", .bool false)])]])]⟩

/-- The outer one of the members on the left is assigned to and the inner one is not. Of the keys
that are texts, the one that is one too large for 32 bits is reported and so is the one of 54 bits,
which is rounded. The least integer of 32 bits and the greatest one after many zeros are not. -/
theorem messagesOf_noDynamicAccess_keyedAccesses :
    keyedAccesses.Distinct ∧
      Double.ofInt 9007199254740993 = Double.ofInt 9007199254740992 ∧
      (allRules.messagesOf keyedAccesses [] "no-dynamic-access").map (·.text) =
        ["Dynamic property assignment is not allowed. Use dot notation instead",
          "Dynamic property access is not allowed. Use dot notation or destructuring instead",
          "Dynamic property access is not allowed. Use dot notation or destructuring instead",
          "Dynamic property access is not allowed. Use dot notation or destructuring instead"] := by
  have hrule : Rule.noDynamicAccess ∈ allRules.rules := by simp [allRules, Rule.all]
  have hdistinct : keyedAccesses.Distinct := by decide +kernel
  obtain ⟨hmessages, -⟩ :=
    messagesOf_noDynamicAccess allRules keyedAccesses [] nodup_names_allRules hrule
  refine ⟨hdistinct, by decide +kernel, ?_⟩
  rw [hmessages]
  decide +kernel

end AnalysisOptions

end PureLint
