import PureLint.Proofs.Analysis.Unread
import PureLint.Proofs.Survey.Renaming

/-!
# Reports on names of components

In markup an element refers to a component by its name. The rules on unread names do not see these
references: what they report does not depend on any name in the markup of a file, so that an import
or a variable that serves as a component is reported unless an identifier elsewhere reads it.
-/

namespace PureLint

namespace Node

/-- The name under which the name of an element refers to a component: the name itself, or the
first part of a name with dots. -/
def componentName? (tag : Node) : Option String :=
  if tag.kind = "JSXIdentifier" then tag.text? "name"
  else if tag.kind = "JSXMemberExpression" then
    match _h : tag.child "object" with
    | some object => object.componentName?
    | none => none
  else none
termination_by tag.weight
decreasing_by exact weight_child ‹_›

/-- Somewhere in the tree an element refers to a component by the name. -/
def UsesComponent (root : Node) (name : String) : Prop :=
  ∃ visit ∈ root.visits, visit.node.kind = "JSXOpeningElement" ∧
    (visit.node.child "name").bind componentName? = some name

instance (root : Node) (name : String) : Decidable (root.UsesComponent name) :=
  inferInstanceAs (Decidable (∃ visit ∈ root.visits, _))

variable {f : String → String}

/-- A name of an element refers to a component, as the name of its object does. -/
theorem componentName?_eq (tag : Node) :
    tag.componentName? =
      if tag.kind = "JSXIdentifier" then tag.text? "name"
      else if tag.kind = "JSXMemberExpression" then (tag.child "object").bind componentName?
      else none := by
  rw [componentName?]
  congr 2
  cases tag.child "object" <;> rfl

/-- Changing the names in markup changes the component that an element refers to. -/
theorem componentName?_renameMarkup (tag : Node) :
    (tag.renameMarkup f).componentName? = tag.componentName?.map f := by
  induction tag using componentName?.induct with
  | case1 tag hkind =>
    rw [componentName?_eq, componentName?_eq tag, kind_renameMarkup, if_pos hkind, if_pos hkind,
      text?_name_renameMarkup hkind]
  | case2 tag hname hkind object hobject ih =>
    rw [componentName?_eq, componentName?_eq tag]
    simp [hkind, hobject, ih]
  | case3 tag hname hkind hnone =>
    rw [componentName?_eq, componentName?_eq tag]
    simp [hkind, hnone]
  | case4 tag hname hkind =>
    rw [componentName?_eq, componentName?_eq tag]
    simp [hname, hkind]

/-- Changing the names in markup changes the components that are used. -/
theorem UsesComponent.renameMarkup {root : Node} {name : String} (h : root.UsesComponent name) :
    (root.renameMarkup f).UsesComponent (f name) := by
  obtain ⟨visit, hvisit, hkind, hname⟩ := h
  refine ⟨visit.renameMarkup f, ?_, hkind, ?_⟩
  · rw [visits_renameMarkup]
    exact List.mem_map_of_mem hvisit
  · obtain ⟨tag, htag, hname⟩ := Option.bind_eq_some_iff.mp hname
    have hchild : (visit.renameMarkup f).node.child "name" = some (tag.renameMarkup f) := by
      rw [Visit.renameMarkup, child_renameMarkup, htag, Option.map_some]
    rw [hchild, Option.bind_some, componentName?_renameMarkup, hname, Option.map_some]

end Node

namespace Rule

/-- Which names are unread depends only on which are read. -/
theorem unread_congr {used others : List String} (h : ∀ name, name ∈ used ↔ name ∈ others)
    (table : NameTable) : unread table used = unread table others := by
  refine List.filter_congr fun entry _ => ?_
  have hcontains : used.contains entry.1 = others.contains entry.1 := by
    rw [Bool.eq_iff_iff, List.contains_iff_mem, List.contains_iff_mem, h]
  exact congrArg (!Text.startsWith entry.1 "_" && !·) hcontains

end Rule

/-- The variables that are unread are those of the tree before its markup was changed. -/
theorem Survey.unreadVariables_renameMarkup (f : String → String) (program : Node) :
    ((Survey.ofProgram (program.renameMarkup f)).run
        (program.renameMarkup f).events).unreadVariables =
      ((Survey.ofProgram program).run program.events).unreadVariables := by
  rw [unreadVariables, unreadVariables, declared_renameMarkup,
    Rule.unread_congr fun _ => mem_used_renameMarkup_iff program]
  refine List.filter_congr fun entry _ => congrArg (!·) ?_
  rw [Bool.eq_iff_iff, List.contains_iff_mem, List.contains_iff_mem, mem_exported_renameMarkup_iff]

/-- A text between two others can be told from the whole. -/
theorem eq_of_between {before after text other : String}
    (h : before ++ text ++ after = before ++ other ++ after) : text = other := by
  have hchars := congrArg String.toList h
  simp only [String.toList_append, List.append_cancel_right_eq, List.append_cancel_left_eq]
    at hchars
  exact String.toList_injective hchars

namespace AnalysisOptions

variable {o : AnalysisOptions} (program : Node) (comments : List Comment)
  (hnames : (o.rules.map (·.id) ++ o.policies.map (·.id)).Nodup)

include hnames

/-- Names in markup are nothing to the rule on unread imports. -/
theorem messagesOf_noUnusedImports_renameMarkup (hrule : Rule.noUnusedImports ∈ o.rules)
    (f : String → String) :
    o.messagesOf (program.renameMarkup f) comments "no-unused-imports" =
      o.messagesOf program comments "no-unused-imports" := by
  rw [messagesOf_reportingAtEnd hnames hrule, messagesOf_reportingAtEnd hnames hrule,
    Survey.imported_renameMarkup,
    Rule.unread_congr fun _ => Survey.mem_used_renameMarkup_iff program]

/-- Names in markup are nothing to the rule on unread variables. -/
theorem messagesOf_noUnusedVariables_renameMarkup (hrule : Rule.noUnusedVariables ∈ o.rules)
    (f : String → String) :
    o.messagesOf (program.renameMarkup f) comments "no-unused-variables" =
      o.messagesOf program comments "no-unused-variables" := by
  rw [messagesOf_reportingAtEnd hnames hrule, messagesOf_reportingAtEnd hnames hrule,
    Rule.unusedVariableReports_eq, Rule.unusedVariableReports_eq,
    Survey.unreadVariables_renameMarkup]

omit hnames

/-- A message on an unread name is there if the name is among the unread ones. -/
theorem exists_message_iff {unread : NameTable} {rule before after name : String}
    {messages : List Message}
    (h : messages = unread.map fun (name, span) => ⟨rule, before ++ name ++ after, span⟩) :
    (∃ m ∈ messages, m.text = before ++ name ++ after) ↔ name ∈ unread.map Prod.fst := by
  subst h
  constructor
  · rintro ⟨m, hm, htext⟩
    obtain ⟨entry, hentry, rfl⟩ := List.mem_map.mp hm
    exact List.mem_map.mpr ⟨entry, hentry, eq_of_between htext⟩
  · intro hmem
    obtain ⟨entry, hentry, rfl⟩ := List.mem_map.mp hmem
    exact ⟨_, List.mem_map_of_mem hentry, rfl⟩

/-- **A reference to a component reads no name.** Before any directive takes messages away, what the
two rules on unread names report stays the same if the elements of a file are made to refer to other
components, in any way. So of the components that they refer to, those that the file imports are
reported as unread unless they start with an underscore or an identifier somewhere in the tree reads
their names, and so are those that it declares and does not export. -/
theorem messagesOf_components (o : AnalysisOptions) (program : Node) (comments : List Comment)
    (hnames : (o.rules.map (·.id) ++ o.policies.map (·.id)).Nodup)
    (himports : Rule.noUnusedImports ∈ o.rules) (hvariables : Rule.noUnusedVariables ∈ o.rules) :
    (∀ f : String → String,
      (∀ name, program.UsesComponent name → (program.renameMarkup f).UsesComponent (f name)) ∧
      o.messagesOf (program.renameMarkup f) comments "no-unused-imports" =
        o.messagesOf program comments "no-unused-imports" ∧
      o.messagesOf (program.renameMarkup f) comments "no-unused-variables" =
        o.messagesOf program comments "no-unused-variables") ∧
    ∀ name, program.UsesComponent name → ¬Text.startsWith name "_" = true →
      ((∃ visit ∈ program.visits, name ∈ visit.node.importedNames) →
        ((∃ m ∈ o.messagesOf program comments "no-unused-imports",
          m.text = s!"Import '{name}' is declared but never used") ↔ ¬program.Reads name)) ∧
      ((∃ visit ∈ program.visits, ∃ declared, (name, declared) ∈ visit.node.declarations) →
        (∀ statement ∈ program.children "body", ¬TopLevel.ExportsName statement name) →
        ((∃ m ∈ o.messagesOf program comments "no-unused-variables",
          m.text = s!"Variable '{name}' is declared but never used") ↔ ¬program.Reads name)) := by
  refine ⟨fun f => ⟨fun _ h => h.renameMarkup,
    messagesOf_noUnusedImports_renameMarkup program comments hnames himports f,
    messagesOf_noUnusedVariables_renameMarkup program comments hnames hvariables f⟩, ?_⟩
  intro name _ hplain
  constructor
  · intro himported
    obtain ⟨unread, hmessages, hlists⟩ :=
      messagesOf_noUnusedImports program comments hnames himports
    refine (exists_message_iff hmessages).trans ((hlists.mem_iff name).trans ?_)
    exact ⟨fun h => h.2.2, fun h => ⟨himported, hplain, h⟩⟩
  · intro hdeclared hexports
    obtain ⟨unread, hmessages, hlists⟩ :=
      messagesOf_noUnusedVariables program comments hnames hvariables
    refine (exists_message_iff hmessages).trans ((hlists.mem_iff name).trans ?_)
    exact ⟨fun h => h.2.2.1, fun h => ⟨hdeclared, hplain, h, hexports⟩⟩

/-- The tree of `import { Button } from "./button.js"; const Box = make(); export const view =
<Box><Button /></Box>;`. -/
def boxedButton : Node :=
  ⟨0, "Program", .int 0, .int 0, [("body", .array [
    .atStart 1 "ImportDeclaration" [
      ("specifiers", .array [
        .atStart 2 "ImportSpecifier" [
          ("imported", .atStart 3 "Identifier" [("name", .text "Button")]),
          ("local", .atStart 4 "Identifier" [("name", .text "Button")])]]),
      ("source", .atStart 5 "Literal" [("value", .text "./button.js")])],
    .atStart 6 "VariableDeclaration" [("declarations", .array [
      .atStart 7 "VariableDeclarator" [
        ("id", .atStart 8 "Identifier" [("name", .text "Box")]),
        ("init", .atStart 9 "CallExpression" [
          ("callee", .atStart 10 "Identifier" [("name", .text "make")]),
          ("arguments", .array [])])]])],
    .atStart 11 "ExportNamedDeclaration" [
      ("declaration", .atStart 12 "VariableDeclaration" [("declarations", .array [
        .atStart 13 "VariableDeclarator" [
          ("id", .atStart 14 "Identifier" [("name", .text "view")]),
          ("init", .atStart 15 "JSXElement" [
            ("openingElement", .atStart 16 "JSXOpeningElement" [
              ("name", .atStart 17 "JSXIdentifier" [("name", .text "Box")])]),
            ("children", .array [.atStart 18 "JSXElement" [
              ("openingElement", .atStart 19 "JSXOpeningElement" [
                ("name", .atStart 20 "JSXIdentifier" [("name", .text "Button")])])]]),
            ("closingElement", .atStart 21 "JSXClosingElement" [
              ("name", .atStart 22 "JSXIdentifier" [("name", .text "Box")])])])]])])]])]⟩

/-- What is reported on that tree is the same if all its elements refer to another component, and no
identifier reads the names of the two components there. -/
theorem messagesOf_components_boxedButton :
    ((boxedButton.renameMarkup fun _ => "view").UsesComponent "view" ∧
      onlyUnread.messagesOf (boxedButton.renameMarkup fun _ => "view") [] "no-unused-imports" =
        onlyUnread.messagesOf boxedButton [] "no-unused-imports" ∧
      onlyUnread.messagesOf (boxedButton.renameMarkup fun _ => "view") [] "no-unused-variables" =
        onlyUnread.messagesOf boxedButton [] "no-unused-variables") ∧
    ¬boxedButton.Reads "Button" ∧ ¬boxedButton.Reads "Box" := by
  have hnames : (onlyUnread.rules.map (·.id) ++ onlyUnread.policies.map (·.id)).Nodup := by decide
  obtain ⟨hrename, hcomponents⟩ := messagesOf_components onlyUnread boxedButton [] hnames
    (List.mem_cons_of_mem _ List.mem_cons_self) List.mem_cons_self
  have hunexported : ∀ statement ∈ boxedButton.children "body",
      ¬TopLevel.ExportsName statement "Box" := by
    have hnone : "Box" ∉ (TopLevel.ofProgram boxedButton).names := by decide +kernel
    rw [TopLevel.mem_names_iff] at hnone
    exact fun statement hstatement h => hnone ⟨statement, hstatement, h⟩
  have hdeclared : ∃ visit ∈ boxedButton.visits, ∃ declared,
      ("Box", declared) ∈ visit.node.declarations := by
    have hsome : ∃ visit ∈ boxedButton.visits, "Box" ∈ visit.node.declarations.map Prod.fst := by
      decide +kernel
    obtain ⟨visit, hvisit, hmem⟩ := hsome
    obtain ⟨⟨_, declared⟩, hdeclared, rfl⟩ := List.mem_map.mp hmem
    exact ⟨visit, hvisit, declared, hdeclared⟩
  obtain ⟨huses, hsame⟩ := hrename fun _ => "view"
  refine ⟨⟨huses "Box" (by decide +kernel), hsame⟩, ?_, ?_⟩
  · exact ((hcomponents "Button" (by decide +kernel) (by decide +kernel)).1
      (by decide +kernel)).mp (by decide +kernel)
  · exact ((hcomponents "Box" (by decide +kernel) (by decide +kernel)).2 hdeclared
      hunexported).mp (by decide +kernel)

/-- Both components of that tree are used, and both are reported. -/
theorem messagesOf_unread_boxedButton :
    (boxedButton.UsesComponent "Button" ∧ boxedButton.UsesComponent "Box") ∧
      (onlyUnread.messagesOf boxedButton [] "no-unused-imports").map (·.text) =
        ["Import 'Button' is declared but never used"] ∧
      (onlyUnread.messagesOf boxedButton [] "no-unused-variables").map (·.text) =
        ["Variable 'Box' is declared but never used"] := by
  decide +kernel

end AnalysisOptions

end PureLint
