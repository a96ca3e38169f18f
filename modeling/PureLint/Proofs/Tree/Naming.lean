import PureLint.Proofs.Tree.Parentheses
import PureLint.Tree.NamedFunction

/-!
# Names of functions

A function is named by the one declaration of variables or default export that holds it, if there is
one, and by itself. The two exclude each other where the function stands directly in what holds it,
but not where it stands in parentheses there.
-/

namespace PureLint

namespace Node

/-- The functions that the nodes of a tree name, in the order of the walk. -/
def namings (root : Node) : List NamedFunction :=
  root.visits.flatMap fun visit => visit.node.namedFunctions visit.parent

/-- The ways in which a node holds a function under a name: a declaration of variables as the value
of one that has a plain name, and a default export as what it exports, unless this is a declaration.
Both are seen through parentheses. -/
inductive HoldsAs (holder fn : Node) (name : String) : Prop
  | bound {declarator value : Node} :
    holder.kind = "VariableDeclaration" → declarator ∈ holder.children "declarations" →
      declarator.nameAt "id" = some name → declarator.child "init" = some value →
      value.unparenthesized = fn → HoldsAs holder fn name
  | exported {value : Node} :
    holder.kind = "ExportDefaultDeclaration" → holder.child "declaration" = some value →
      value.unparenthesized = fn → fn.kind ≠ "FunctionDeclaration" →
      name = (fn.nameAt "id").getD "default" → HoldsAs holder fn name

end Node

/-- The ways in which a function names itself: a declaration by its name, or as the default that it
is exported as, and an expression by its name, unless it stands directly in a declarator or a
default export. -/
inductive Visit.NamesItself (visit : Visit) (name : String) : Prop
  | declared :
    visit.node.kind = "FunctionDeclaration" → visit.node.nameAt "id" = some name →
      NamesItself visit name
  | exported {parent : Node} :
    visit.node.kind = "FunctionDeclaration" → visit.node.nameAt "id" = none →
      visit.parent = some parent → parent.kind = "ExportDefaultDeclaration" → name = "default" →
      NamesItself visit name
  | expressed :
    visit.node.kind = "FunctionExpression" →
      (∀ parent, visit.parent = some parent →
        parent.kind ≠ "VariableDeclarator" ∧ parent.kind ≠ "ExportDefaultDeclaration") →
      visit.node.nameAt "id" = some name → NamesItself visit name

namespace NamedFunction

variable {n fn anchor declarator : Node} {parent : Option Node} {named : NamedFunction}
  {name : String}

/-- The function that a declarator binds to its variable. -/
def boundBy? (anchor declarator : Node) : Option NamedFunction := do
  let name ← declarator.nameAt "id"
  let init ← declarator.child "init"
  if init.isFunction then some ⟨name, init.unparenthesized, anchor⟩ else none

/-- A declarator binds the function that its initial value is, to its plain name. -/
theorem boundBy?_eq_some_iff :
    boundBy? anchor declarator = some named ↔ ∃ value, declarator.nameAt "id" = some named.name ∧
      declarator.child "init" = some value ∧ value.isFunction = true ∧
        value.unparenthesized = named.fn ∧ anchor = named.anchor := by
  obtain ⟨name, fn, place⟩ := named
  constructor
  · intro h
    obtain ⟨other, hname, h⟩ := Option.bind_eq_some_iff.mp h
    obtain ⟨value, hvalue, h⟩ := Option.bind_eq_some_iff.mp h
    rw [Option.ite_none_right_eq_some] at h
    obtain ⟨hfunction, h⟩ := h
    cases h
    exact ⟨value, hname, hvalue, hfunction, rfl, rfl⟩
  · rintro ⟨value, hname, hvalue, hfunction, rfl, rfl⟩
    simp [boundBy?, hname, hvalue, hfunction]

/-- A declaration of variables names the functions that its declarators bind. -/
theorem namedFunctions_variables (hkind : n.kind = "VariableDeclaration") :
    n.namedFunctions parent =
      (n.children "declarations").filterMap (boundBy? (anchorOf n parent)) := by
  simp only [Node.namedFunctions, hkind]
  rfl

/-- A default export names the function that it exports, unless this is a declaration. -/
theorem namedFunctions_defaultExport (hkind : n.kind = "ExportDefaultDeclaration") :
    n.namedFunctions parent = ofDefaultExport n := by
  simp only [Node.namedFunctions, hkind]

/-- A default export names one function at most. -/
theorem length_ofDefaultExport_le_one (n : Node) : (ofDefaultExport n).length ≤ 1 := by
  unfold ofDefaultExport
  split
  · exact Nat.zero_le 1
  · simp only
    split
    · exact Nat.le_refl 1
    · exact Nat.zero_le 1

/-- A node of another kind names nothing. -/
theorem namedFunctions_eq_nil (h : n.kind ∉ kinds) : n.namedFunctions parent = [] := by
  simp only [kinds, List.mem_cons, List.not_mem_nil, or_false, not_or] at h
  obtain ⟨hdeclaration, hexpression, hvariables, hexport⟩ := h
  unfold Node.namedFunctions
  split
  case h_1 hkind => exact absurd hkind hdeclaration
  case h_2 hkind => exact absurd hkind hexpression
  case h_3 hkind => exact absurd hkind hvariables
  case h_4 hkind => exact absurd hkind hexport
  case h_5 => rfl

/-- What can name a function is a function, a declaration of variables or a default export. -/
theorem cases_of_mem_kinds (h : n.kind ∈ kinds) : n.hasKind Node.functionKinds = true ∨
    n.kind = "VariableDeclaration" ∨ n.kind = "ExportDefaultDeclaration" := by
  simp only [kinds, List.mem_cons, List.not_mem_nil, or_false] at h
  rcases h with hkind | hkind | hkind | hkind
  · exact Or.inl (by simp [Node.hasKind, Node.functionKinds, hkind])
  · exact Or.inl (by simp [Node.hasKind, Node.functionKinds, hkind])
  · exact Or.inr (Or.inl hkind)
  · exact Or.inr (Or.inr hkind)

/-- The functions that are expressions are those that are no declarations. -/
theorem isExpression_iff : fn.hasKind ["ArrowFunctionExpression", "FunctionExpression"] = true ↔
    fn.hasKind Node.functionKinds = true ∧ fn.kind ≠ "FunctionDeclaration" := by
  simp only [Node.hasKind, Node.functionKinds, List.contains_iff_mem, List.mem_cons,
    List.not_mem_nil, or_false]
  constructor
  · rintro (h | h) <;> simp [h]
  · rintro ⟨h | h | h, hne⟩
    · exact absurd h hne
    · exact Or.inr h
    · exact Or.inl h

/-- What is no function names functions, and these are held by it. -/
theorem holdsAs_of_mem (hn : ¬n.hasKind Node.functionKinds = true)
    (h : named ∈ n.namedFunctions parent) :
    named.fn.hasKind Node.functionKinds = true ∧ n.HoldsAs named.fn named.name := by
  have hmem : n.kind ∈ kinds := by
    by_contra hother
    rw [namedFunctions_eq_nil hother] at h
    cases h
  rcases cases_of_mem_kinds hmem with hfunction | hvariables | hexport
  · exact absurd hfunction hn
  · rw [namedFunctions_variables hvariables] at h
    obtain ⟨declarator, hdeclarator, h⟩ := List.mem_filterMap.mp h
    obtain ⟨value, hname, hvalue, hfn, hinside, -⟩ := boundBy?_eq_some_iff.mp h
    rw [Node.isFunction, hinside] at hfn
    exact ⟨hfn, .bound hvariables hdeclarator hname hvalue hinside⟩
  · rw [namedFunctions_defaultExport hexport, ofDefaultExport] at h
    split at h
    · cases h
    · rename_i value hvalue
      simp only at h
      split at h
      · rename_i hexpression
        cases List.mem_singleton.mp h
        obtain ⟨hfn, hne⟩ := isExpression_iff.mp hexpression
        exact ⟨hfn, .exported hexport hvalue rfl hne rfl⟩
      · cases h

end NamedFunction

/-- A function is named by what holds it. -/
theorem Node.HoldsAs.exists_named {holder fn : Node} {name : String} (h : holder.HoldsAs fn name)
    (hfn : fn.hasKind Node.functionKinds = true) (parent : Option Node) :
    ∃ named ∈ holder.namedFunctions parent, named.fn = fn ∧ named.name = name := by
  cases h with
  | @bound declarator value hkind hdeclarator hname hvalue hinside =>
    rw [NamedFunction.namedFunctions_variables hkind]
    refine ⟨⟨name, fn, NamedFunction.anchorOf holder parent⟩,
      List.mem_filterMap.mpr ⟨declarator, hdeclarator, ?_⟩, rfl, rfl⟩
    refine NamedFunction.boundBy?_eq_some_iff.mpr ⟨value, hname, hvalue, ?_, hinside, rfl⟩
    rw [Node.isFunction, hinside]
    exact hfn
  | exported hkind hvalue hinside hne hname =>
    have hexpression := NamedFunction.isExpression_iff.mpr ⟨hfn, hne⟩
    rw [NamedFunction.namedFunctions_defaultExport hkind]
    simp only [NamedFunction.ofDefaultExport, hvalue, hinside, if_pos hexpression]
    exact ⟨_, List.mem_singleton.mpr rfl, rfl, hname.symm⟩

namespace NamedFunction

/-- A function names itself and no other function, under the name by which it does. -/
theorem exists_own {visit : Visit} (hfn : visit.node.hasKind Node.functionKinds = true) :
    ∃ (own : Option String) (anchor : Node), visit.node.namedFunctions visit.parent =
        (own.map fun name => ⟨name, visit.node, anchor⟩).toList ∧
      ∀ name, own = some name ↔ visit.NamesItself name := by
  have hparent (kinds : List String) : (visit.parent.any fun parent => parent.hasKind kinds) =
      true ↔ ∃ parent, visit.parent = some parent ∧ parent.kind ∈ kinds := by
    cases visit.parent <;> simp [Node.hasKind]
  simp only [Node.hasKind, Node.functionKinds, List.contains_iff_mem, List.mem_cons,
    List.not_mem_nil, or_false] at hfn
  rcases hfn with hkind | hkind | hkind
  · have hnamed : visit.node.namedFunctions visit.parent =
        ofDeclaration visit.node visit.parent := by
      simp only [Node.namedFunctions, hkind]
    refine ⟨_, anchorOf visit.node visit.parent, hnamed, ?_⟩
    intro name
    rw [Option.or_eq_some_iff, Option.ite_none_right_eq_some, hparent]
    constructor
    · rintro (hname | ⟨hnone, ⟨parent, hparent, hexport⟩, hdefault⟩)
      · exact .declared hkind hname
      · exact .exported hkind hnone hparent (List.mem_singleton.mp hexport)
          (Option.some.inj hdefault).symm
    · intro h
      cases h with
      | declared _ hname => exact Or.inl hname
      | exported _ hnone hparent hexport hdefault =>
        exact Or.inr ⟨hnone, ⟨_, hparent, List.mem_singleton.mpr hexport⟩, by rw [hdefault]⟩
      | expressed hother =>
        rw [hkind] at hother
        exact absurd hother (by decide)
  · have hnamed : visit.node.namedFunctions visit.parent =
        ofExpression visit.node visit.parent := by
      simp only [Node.namedFunctions, hkind]
    have hdirect : (visit.parent.any fun parent =>
        parent.hasKind ["VariableDeclarator", "ExportDefaultDeclaration"]) = true ↔
        ¬∀ parent, visit.parent = some parent →
          parent.kind ≠ "VariableDeclarator" ∧ parent.kind ≠ "ExportDefaultDeclaration" := by
      rw [hparent]
      push Not
      refine exists_congr fun parent => and_congr_right fun _ => ?_
      simp only [List.mem_cons, List.not_mem_nil, or_false]
      tauto
    have hnames (name : String) : visit.NamesItself name ↔
        (∀ parent, visit.parent = some parent →
          parent.kind ≠ "VariableDeclarator" ∧ parent.kind ≠ "ExportDefaultDeclaration") ∧
        visit.node.nameAt "id" = some name := by
      constructor
      · intro h
        cases h with
        | expressed _ hparent hname => exact ⟨hparent, hname⟩
        | declared hother | exported hother =>
          rw [hkind] at hother
          exact absurd hother (by decide)
      · rintro ⟨hparent, hname⟩
        exact .expressed hkind hparent hname
    rw [hnamed, ofExpression]
    split
    · rename_i hheld
      refine ⟨none, visit.node, rfl, ?_⟩
      intro name
      simp [hnames, hdirect.mp hheld]
    · rename_i hfree
      refine ⟨visit.node.nameAt "id", visit.node, rfl, ?_⟩
      intro name
      rw [hnames, and_iff_right (not_not.mp (mt hdirect.mpr hfree))]
  · have hnamed : visit.node.namedFunctions visit.parent = [] := by
      simp [Node.namedFunctions, hkind]
    refine ⟨none, visit.node, hnamed, ?_⟩
    intro name
    constructor
    · intro h
      cases h
    · intro h
      cases h with
      | declared hother | exported hother | expressed hother =>
        rw [hkind] at hother
        exact absurd hother (by decide)

end NamedFunction

namespace Node

variable {root : Node}

/-- A function that is held stands, outside its parentheses, in a declarator of its holder or in the
holder itself. -/
theorem HoldsAs.exists_place {holder fn : Node} {name : String} (h : holder.HoldsAs fn name)
    (hholder : root.Reaches holder) :
    ∃ value outer key, value.unparenthesized = fn ∧ root.Places outer key value ∧
      (key = "init" ∧ root.Places holder "declarations" outer ∧ outer.nameAt "id" = some name ∨
        key = "declaration" ∧ outer = holder ∧ name = (fn.nameAt "id").getD "default") := by
  cases h with
  | bound _ hdeclarator hname hvalue hinside =>
    have hplace := hholder.places_children hdeclarator
    exact ⟨_, _, _, hinside, hplace.reaches.places_child hvalue, Or.inl ⟨rfl, hplace, hname⟩⟩
  | exported _ hvalue hinside _ hname =>
    exact ⟨_, _, _, hinside, hholder.places_child hvalue, Or.inr ⟨rfl, rfl, hname⟩⟩

/-- The walk comes to the functions that it finds held. -/
theorem HoldsAs.reaches {holder fn : Node} {name : String} (h : holder.HoldsAs fn name)
    (hholder : root.Reaches holder) : root.Reaches fn := by
  obtain ⟨value, outer, key, rfl, hplace, -⟩ := h.exists_place hholder
  exact hplace.reaches.of_encloses value.encloses_unparenthesized

/-- In a tree of distinct nodes a function has one holder, and one name there. -/
theorem HoldsAs.unique (hroot : root.Distinct) {holder other fn : Node} {name otherName : String}
    (h : holder.HoldsAs fn name) (hholder : root.Reaches holder)
    (h' : other.HoldsAs fn otherName) (hother : root.Reaches other) :
    holder = other ∧ name = otherName := by
  obtain ⟨value, outer, key, hinside, hplace, hkey⟩ := h.exists_place hholder
  obtain ⟨value', outer', key', hinside', hplace', hkey'⟩ := h'.exists_place hother
  have houtside {key : String} {P Q : Prop} (h : key = "init" ∧ P ∨ key = "declaration" ∧ Q) :
      key ≠ "expression" := by
    rcases h with ⟨rfl, -⟩ | ⟨rfl, -⟩ <;> decide
  obtain ⟨rfl, rfl, rfl⟩ := hroot.outside_unique hplace hplace' (houtside hkey) (houtside hkey')
    (hinside.trans hinside'.symm)
  rcases hkey with ⟨rfl, houter, hname⟩ | ⟨rfl, rfl, rfl⟩
  · rcases hkey' with ⟨-, houter', hname'⟩ | ⟨hkey', -⟩
    · exact ⟨(hroot.place_unique houter houter').1, Option.some.inj (hname.symm.trans hname')⟩
    · exact absurd hkey' (by decide)
  · rcases hkey' with ⟨hkey', -⟩ | ⟨-, rfl, rfl⟩
    · exact absurd hkey' (by decide)
    · exact ⟨rfl, rfl⟩

/-- A function expression that is held and names itself stands directly in parentheses, or its
holder has a declarator of another kind. -/
theorem HoldsAs.encloses (hroot : root.Distinct) {holder : Node} {name own : String} {visit : Visit}
    (h : holder.HoldsAs visit.node name) (hholder : root.Reaches holder)
    (hvisit : visit ∈ root.visits) (hkind : visit.node.kind = "FunctionExpression")
    (hself : visit.NamesItself own) :
    (∃ outer, visit.parent = some outer ∧ Encloses outer visit.node) ∨
      ∃ declarator ∈ holder.children "declarations", declarator.kind ≠ "VariableDeclarator" := by
  have hparent {outer : Node} {key : String} (hplace : root.Places outer key visit.node) :
      visit.parent = some outer :=
    congrArg Visit.parent (hroot.visit_unique hvisit hplace rfl)
  have hfree : ∀ outer, visit.parent = some outer →
      outer.kind ≠ "VariableDeclarator" ∧ outer.kind ≠ "ExportDefaultDeclaration" := by
    cases hself with
    | expressed _ hfree _ => exact hfree
    | declared hother | exported hother =>
      rw [hkind] at hother
      exact absurd hother (by decide)
  cases h with
  | @bound declarator value _ hdeclarator _ hvalue hinside =>
    have hplace := (hholder.places_children hdeclarator).reaches.places_child hvalue
    rcases eq_or_encloses_unparenthesized hplace.reaches with heq | ⟨outer, hencloses, houter⟩
    · rw [← heq, hinside] at hplace
      exact Or.inr ⟨declarator, hdeclarator, (hfree declarator (hparent hplace)).1⟩
    · rw [hinside] at hencloses houter
      exact Or.inl ⟨outer, hparent houter, hencloses⟩
  | @exported value hexport hvalue hinside _ _ =>
    have hplace := hholder.places_child hvalue
    rcases eq_or_encloses_unparenthesized hplace.reaches with heq | ⟨outer, hencloses, houter⟩
    · rw [← heq, hinside] at hplace
      exact absurd hexport (hfree holder (hparent hplace)).2
    · rw [hinside] at hencloses houter
      exact Or.inl ⟨outer, hparent houter, hencloses⟩

/-- What is named is a function that the walk comes to. -/
theorem exists_visit_of_mem_namings {named : NamedFunction} (h : named ∈ root.namings) :
    ∃ visit ∈ root.visits, visit.node = named.fn ∧ visit.node.hasKind functionKinds = true := by
  obtain ⟨visit, hvisit, hnamed⟩ := List.mem_flatMap.mp h
  by_cases hfunction : visit.node.hasKind functionKinds = true
  · obtain ⟨own, anchor, hown, -⟩ := NamedFunction.exists_own hfunction
    rw [hown, Option.mem_toList] at hnamed
    obtain ⟨name, -, rfl⟩ := Option.map_eq_some_iff.mp hnamed
    exact ⟨visit, hvisit, rfl, hfunction⟩
  · obtain ⟨hfn, hholds⟩ := NamedFunction.holdsAs_of_mem hfunction hnamed
    obtain ⟨inner, hinner, heq⟩ := hholds.reaches ⟨visit, hvisit, rfl⟩
    exact ⟨inner, hinner, heq, heq ▸ hfn⟩

/-- How the nodes for which something holds name a function. -/
def namingsBy (root : Node) (p : Node → Bool) (fn : Node) : List NamedFunction :=
  (root.visits.filter fun visit => p visit.node).flatMap fun visit =>
    (visit.node.namedFunctions visit.parent).filter fun named => named.fn.same fn

/-- A naming by such nodes is a naming of the function by one of them. -/
theorem mem_namingsBy {p : Node → Bool} {fn : Node} {named : NamedFunction} :
    named ∈ root.namingsBy p fn ↔ ∃ visit ∈ root.visits, p visit.node = true ∧
      named ∈ visit.node.namedFunctions visit.parent ∧ named.fn.id = fn.id := by
  simp only [namingsBy, List.mem_flatMap, List.mem_filter, same, beq_iff_eq, and_assoc]

/-- The namings of a function are those by nodes for which something holds, and those by the
others. -/
theorem perm_namingsBy (root : Node) (p : Node → Bool) (fn : Node) :
    (root.namings.filter fun named => named.fn.same fn).Perm
      (root.namingsBy p fn ++ root.namingsBy (fun n => !p n) fn) := by
  rw [namings, List.filter_flatMap, namingsBy, namingsBy, ← List.flatMap_append]
  exact (List.filter_append_perm _ _).symm.flatMap_right _

/-- If one visit at most names the function, and that once, the namings come to an optional name. -/
theorem exists_toList_namingsBy (hroot : root.Distinct) (p : Node → Bool) (fn : Node)
    (hone : ∀ visit ∈ root.visits, p visit.node = true →
      ((visit.node.namedFunctions visit.parent).filter fun named => named.fn.same fn).length ≤ 1)
    (hunique : ∀ visit ∈ root.visits, ∀ other ∈ root.visits,
      p visit.node = true → p other.node = true →
        ∀ named ∈ visit.node.namedFunctions visit.parent, named.fn.id = fn.id →
          ∀ named ∈ other.node.namedFunctions other.parent, named.fn.id = fn.id → visit = other) :
    ∃ name : Option String, (root.namingsBy p fn).map (·.name) = name.toList := by
  apply exists_toList_eq
  rw [List.length_map]
  have hvisits := (List.Nodup.of_map _ hroot).filter fun visit => p visit.node
  apply length_flatMap_le_one hvisits
  · intro visit hvisit
    obtain ⟨hvisit, hp⟩ := List.mem_filter.mp hvisit
    exact hone visit hvisit hp
  · intro visit hvisit other hother hsome hotherSome
    obtain ⟨hvisit, hp⟩ := List.mem_filter.mp hvisit
    obtain ⟨hother, hotherp⟩ := List.mem_filter.mp hother
    obtain ⟨named, hnamed⟩ := List.exists_mem_of_ne_nil _ hsome
    obtain ⟨otherNamed, hotherNamed⟩ := List.exists_mem_of_ne_nil _ hotherSome
    simp only [List.mem_filter, same, beq_iff_eq] at hnamed hotherNamed
    exact hunique visit hvisit other hother hp hotherp named hnamed.1 hnamed.2 otherNamed
      hotherNamed.1 hotherNamed.2

/-- In a tree of distinct nodes, a declaration of variables names a function once at most. -/
theorem Distinct.length_variables_le_one (hroot : root.Distinct) {n : Node} (hn : root.Reaches n)
    (anchor fn : Node) :
    (((n.children "declarations").filterMap (NamedFunction.boundBy? anchor)).filter fun named =>
      named.fn.same fn).length ≤ 1 := by
  rw [List.filterMap_eq_flatMap_toList, List.filter_flatMap]
  apply length_flatMap_le_one (hroot.nodup_children hn "declarations")
  · intro declarator _
    exact Nat.le_trans (List.length_filter_le _ _) Option.length_toList_le
  · -- two declarators that bind the function would both stand outside its parentheses
    intro declarator hdeclarator other hother hsome hotherSome
    have hbound {declarator : Node} (hdeclarator : declarator ∈ n.children "declarations")
        (hsome : (NamedFunction.boundBy? anchor declarator).toList.filter
          (fun named => named.fn.same fn) ≠ []) :
        ∃ value, root.Places declarator "init" value ∧ value.unparenthesized.id = fn.id := by
      obtain ⟨named, hnamed⟩ := List.exists_mem_of_ne_nil _ hsome
      rw [List.mem_filter, Option.mem_toList, same, beq_iff_eq] at hnamed
      obtain ⟨value, -, hvalue, -, hinside, -⟩ := NamedFunction.boundBy?_eq_some_iff.mp hnamed.1
      have hplace := (hn.places_children hdeclarator).reaches.places_child hvalue
      exact ⟨value, hplace, by rw [hinside, hnamed.2]⟩
    obtain ⟨value, hplace, hid⟩ := hbound hdeclarator hsome
    obtain ⟨otherValue, hotherPlace, hotherId⟩ := hbound hother hotherSome
    have heq := hroot.node_unique (hplace.reaches.of_encloses value.encloses_unparenthesized)
      (hotherPlace.reaches.of_encloses otherValue.encloses_unparenthesized)
      (hid.trans hotherId.symm)
    exact (hroot.outside_unique hplace hotherPlace (by decide) (by decide) heq).1

/-- In a tree of distinct nodes, a node names a function once at most. -/
theorem Distinct.length_named_le_one (hroot : root.Distinct) {n : Node} (hn : root.Reaches n)
    (parent : Option Node) (fn : Node) :
    ((n.namedFunctions parent).filter fun named => named.fn.same fn).length ≤ 1 := by
  by_cases hmem : n.kind ∈ NamedFunction.kinds
  · rcases NamedFunction.cases_of_mem_kinds hmem with hfunction | hvariables | hexport
    · have hfn : (Visit.mk n parent none).node.hasKind functionKinds = true := hfunction
      obtain ⟨own, anchor, hown, -⟩ := NamedFunction.exists_own hfn
      rw [hown]
      exact Nat.le_trans (List.length_filter_le _ _) Option.length_toList_le
    · rw [NamedFunction.namedFunctions_variables hvariables]
      exact hroot.length_variables_le_one hn _ fn
    · rw [NamedFunction.namedFunctions_defaultExport hexport]
      exact Nat.le_trans (List.length_filter_le _ _)
        (NamedFunction.length_ofDefaultExport_le_one n)
  · rw [NamedFunction.namedFunctions_eq_nil hmem]
    exact Nat.zero_le 1

section

variable (hroot : root.Distinct) {visit : Visit} (hvisit : visit ∈ root.visits)
  (hfn : visit.node.hasKind functionKinds = true)

include hroot hvisit

/-- In a tree of distinct nodes, a node that is no function names a function exactly if it holds
it. -/
theorem Distinct.holdsAs_iff (hfn : visit.node.hasKind functionKinds = true) {other : Visit}
    (hother : other ∈ root.visits) (hkind : ¬other.node.hasKind functionKinds = true)
    {name : String} :
    (∃ named ∈ other.node.namedFunctions other.parent,
      named.fn.id = visit.node.id ∧ named.name = name) ↔ other.node.HoldsAs visit.node name := by
  constructor
  · rintro ⟨named, hnamed, hid, rfl⟩
    have hholds := (NamedFunction.holdsAs_of_mem hkind hnamed).2
    rw [hroot.node_unique (hholds.reaches ⟨other, hother, rfl⟩) ⟨visit, hvisit, rfl⟩ hid] at hholds
    exact hholds
  · intro hholds
    obtain ⟨named, hnamed, hfn, hname⟩ := hholds.exists_named hfn other.parent
    exact ⟨named, hnamed, by rw [hfn], hname⟩

include hfn

/-- In a tree of distinct nodes, a function is named by itself under the name by which it does. -/
theorem Distinct.exists_own :
    ∃ own : Option String,
      (root.namingsBy (·.hasKind functionKinds) visit.node).map (·.name) = own.toList ∧
      ∀ name, own = some name ↔ visit.NamesItself name := by
  -- a function that names the given one is visited where this is
  have hsame {other : Visit} (hother : other ∈ root.visits)
      (hkind : other.node.hasKind functionKinds = true) {named : NamedFunction}
      (hnamed : named ∈ other.node.namedFunctions other.parent)
      (hid : named.fn.id = visit.node.id) : other = visit := by
    obtain ⟨own, anchor, hown, -⟩ := NamedFunction.exists_own hkind
    rw [hown, Option.mem_toList] at hnamed
    obtain ⟨name, -, rfl⟩ := Option.map_eq_some_iff.mp hnamed
    exact hroot.visit_unique hother hvisit hid
  obtain ⟨name?, hnames⟩ := exists_toList_namingsBy hroot (·.hasKind functionKinds) visit.node
    (by
      intro other _ hkind
      obtain ⟨own, anchor, hown, -⟩ := NamedFunction.exists_own hkind
      rw [hown]
      exact Nat.le_trans (List.length_filter_le _ _) Option.length_toList_le)
    (by
      intro one hone other hother hkind hotherKind named hnamed hid found hfound hotherId
      rw [hsame hone hkind hnamed hid, hsame hother hotherKind hfound hotherId])
  refine ⟨name?, hnames, ?_⟩
  intro name
  obtain ⟨own, anchor, hown, hself⟩ := NamedFunction.exists_own hfn
  rw [← Option.mem_toList, ← hnames, List.mem_map, ← hself name]
  constructor
  · rintro ⟨named, hmem, rfl⟩
    obtain ⟨other, hother, hkind, hnamed, hid⟩ := mem_namingsBy.mp hmem
    cases hsame hother hkind hnamed hid
    rw [hown, Option.mem_toList] at hnamed
    obtain ⟨name, hname, rfl⟩ := Option.map_eq_some_iff.mp hnamed
    exact hname
  · intro hname
    refine ⟨⟨name, visit.node, anchor⟩, mem_namingsBy.mpr ⟨visit, hvisit, hfn, ?_, rfl⟩, rfl⟩
    rw [hown, hname]
    exact List.mem_singleton.mpr rfl

/-- In a tree of distinct nodes, a function is named by what holds it, under the name by which it
does. -/
theorem Distinct.exists_held :
    ∃ held : Option String,
      (root.namingsBy (!·.hasKind functionKinds) visit.node).map (·.name) = held.toList ∧
      ∀ name, held = some name ↔
        ∃ holder, root.Reaches holder ∧ holder.HoldsAs visit.node name := by
  have hunique : ∀ one ∈ root.visits, ∀ other ∈ root.visits,
      (!one.node.hasKind functionKinds) = true → (!other.node.hasKind functionKinds) = true →
        ∀ named ∈ one.node.namedFunctions one.parent, named.fn.id = visit.node.id →
          ∀ found ∈ other.node.namedFunctions other.parent, found.fn.id = visit.node.id →
            one = other := by
    intro one hone other hother hkind hotherKind named hnamed hid found hfound hotherId
    rw [Bool.not_eq_true', ← Bool.not_eq_true] at hkind hotherKind
    have hholds := (hroot.holdsAs_iff hvisit hfn hone hkind).mp ⟨named, hnamed, hid, rfl⟩
    have hotherHolds :=
      (hroot.holdsAs_iff hvisit hfn hother hotherKind).mp ⟨found, hfound, hotherId, rfl⟩
    have hnode := (hholds.unique hroot ⟨one, hone, rfl⟩ hotherHolds ⟨other, hother, rfl⟩).1
    exact hroot.visit_unique hone hother (congrArg Node.id hnode)
  obtain ⟨name?, hnames⟩ := exists_toList_namingsBy hroot
    (!·.hasKind functionKinds) visit.node
    (fun other hother _ => hroot.length_named_le_one ⟨other, hother, rfl⟩ _ _) hunique
  refine ⟨name?, hnames, ?_⟩
  intro name
  rw [← Option.mem_toList, ← hnames, List.mem_map]
  constructor
  · rintro ⟨named, hmem, rfl⟩
    obtain ⟨other, hother, hkind, hnamed, hid⟩ := mem_namingsBy.mp hmem
    rw [Bool.not_eq_true', ← Bool.not_eq_true] at hkind
    exact ⟨other.node, ⟨other, hother, rfl⟩,
      (hroot.holdsAs_iff hvisit hfn hother hkind).mp ⟨named, hnamed, hid, rfl⟩⟩
  · rintro ⟨_, ⟨other, hother, rfl⟩, hholds⟩
    have hkind : ¬other.node.hasKind functionKinds = true := by
      cases hholds with
      | bound hkind | exported hkind =>
        rw [hasKind, hkind]
        decide
    obtain ⟨named, hnamed, hid, hname⟩ := (hroot.holdsAs_iff hvisit hfn hother hkind).mpr hholds
    refine ⟨named, mem_namingsBy.mpr ⟨other, hother, ?_, hnamed, hid⟩, hname⟩
    rw [Bool.not_eq_true', ← Bool.not_eq_true]
    exact hkind

/-- **In a tree of distinct nodes, a function is named once by what holds it, if anything does, and
once by itself, if it names itself.** -/
theorem Distinct.namings_function :
    ∃ held own : Option String,
      ((root.namings.filter fun named => named.fn.same visit.node).map (·.name)).Perm
        (held.toList ++ own.toList) ∧
      (∀ name, held = some name ↔
        ∃ holder, root.Reaches holder ∧ holder.HoldsAs visit.node name) ∧
      ∀ name, own = some name ↔ visit.NamesItself name := by
  obtain ⟨held, hheld, hholds⟩ := hroot.exists_held hvisit hfn
  obtain ⟨own, hown, hself⟩ := hroot.exists_own hvisit hfn
  refine ⟨held, own, ?_, hholds, hself⟩
  rw [← hheld, ← hown, ← List.map_append]
  exact ((perm_namingsBy root _ _).trans List.perm_append_comm).map _

end

end Node

end PureLint
