import PureLint.Proofs.Tree.Parentheses
import PureLint.TestRunner

/-!
# What a call calls

A call names what it calls in two ways: by a plain name, seen through any number of parentheses, or
as a member of an object, where the access stands bare or in one optional chain and only the object
is seen through parentheses.
-/

namespace PureLint

namespace Node

/-- What a call calls, seen through some of its parentheses. -/
def Calls (call target : Node) : Prop :=
  ∃ callee, call.child "callee" = some callee ∧ Relation.ReflTransGen Encloses callee target

/-- What stands in one optional chain, or in none. -/
inductive Unchained (n : Node) : Node → Prop
  | bare : n.kind ≠ "ChainExpression" → Unchained n n
  | chained {inner : Node} :
    n.kind = "ChainExpression" → n.child "expression" = some inner → Unchained n inner

/-- A member access by a written key. -/
structure Accesses (access owner : Node) (property : String) : Prop where
  kind : access.kind = "MemberExpression"
  written : access.flag "computed" = false
  owner : access.child "object" = some owner
  property : access.nameAt "property" = some property

/-- The ways in which a call calls something by name. -/
inductive CallsName (call : Node) : String → Prop
  | plain {target : Node} {name : String} :
    call.Calls target → target.name? = some name → CallsName call name
  | member {callee access owner target : Node} {object property : String} :
    call.child "callee" = some callee → callee.Unchained access → access.Accesses owner property →
      Relation.ReflTransGen Encloses owner target → target.name? = some object →
      CallsName call (object ++ "." ++ property)

variable {call n : Node} {name : String} {member : Member}

/-- Parentheses have no name. -/
theorem kind_ne_of_name (h : n.name? = some name) : n.kind ≠ "ParenthesizedExpression" := by
  intro hkind
  simp [name?, hkind] at h

/-- The name seen through parentheses is that of what they lead to. -/
theorem name?_unparenthesized_iff :
    n.unparenthesized.name? = some name ↔
      ∃ target, Relation.ReflTransGen Encloses n target ∧ target.name? = some name :=
  holds_unparenthesized_iff (fun _ => kind_ne_of_name) n

/-- A call has the name that it comes to through parentheses. -/
theorem calleeName_eq_some_iff :
    call.calleeName = some name ↔ ∃ target, call.Calls target ∧ target.name? = some name := by
  simp only [calleeName, Option.bind_eq_bind, Option.bind_eq_some_iff, name?_unparenthesized_iff,
    Calls]
  constructor
  · rintro ⟨callee, hcallee, target, hsteps, hname⟩
    exact ⟨target, ⟨callee, hcallee, hsteps⟩, hname⟩
  · rintro ⟨target, ⟨callee, hcallee, hsteps⟩, hname⟩
    exact ⟨callee, hcallee, target, hsteps, hname⟩

/-- What is made of an expression outside an optional chain is a written access. -/
theorem accessed_eq_some_iff {access : Node} :
    (if access.kind = "MemberExpression" && !access.flag "computed" then
      (access.child "object").bind fun object => (access.nameAt "property").bind fun property =>
        some (⟨object, object.unparenthesized.name?, property⟩ : Member)
      else none) = some member ↔
      access.Accesses member.object member.property ∧
        member.objectName = member.object.unparenthesized.name? := by
  obtain ⟨object, objectName, property⟩ := member
  constructor
  · intro h
    split at h
    · rename_i hkind
      rw [Bool.and_eq_true, decide_eq_true_eq, Bool.not_eq_true'] at hkind
      obtain ⟨owner, howner, h⟩ := Option.bind_eq_some_iff.mp h
      obtain ⟨key, hkey, h⟩ := Option.bind_eq_some_iff.mp h
      cases h
      exact ⟨⟨hkind.1, hkind.2, howner, hkey⟩, rfl⟩
    · cases h
  · rintro ⟨⟨hkind, hwritten, howner, hproperty⟩, hname⟩
    simp only at howner hproperty hname
    simp [hkind, hwritten, howner, hproperty, hname]

/-- A member is a written access, bare or in one optional chain. -/
theorem member?_eq_some_iff :
    n.member? = some member ↔ ∃ access, n.Unchained access ∧
      access.Accesses member.object member.property ∧
      member.objectName = member.object.unparenthesized.name? := by
  simp only [← accessed_eq_some_iff]
  unfold member?
  by_cases hkind : n.kind = "ChainExpression"
  · rw [if_pos hkind]
    constructor
    · intro h
      obtain ⟨access, haccess, h⟩ := Option.bind_eq_some_iff.mp h
      exact ⟨access, .chained hkind haccess, h⟩
    · rintro ⟨access, ⟨h⟩ | ⟨-, haccess⟩, hmember⟩
      · exact absurd hkind h
      · exact Option.bind_eq_some_iff.mpr ⟨access, haccess, hmember⟩
  · rw [if_neg hkind]
    constructor
    · intro h
      exact ⟨n, .bare hkind, h⟩
    · rintro ⟨access, ⟨-⟩ | ⟨h, -⟩, hmember⟩
      · exact hmember
      · exact absurd h hkind

/-- What is called by a plain name is no member. -/
theorem calleeMember_eq_none (h : call.calleeName = some name) : call.calleeMember = none := by
  obtain ⟨callee, hcallee, hname⟩ := Option.bind_eq_some_iff.mp h
  have hkind : callee.kind = "ParenthesizedExpression" ∨ callee.kind = "Identifier" := by
    by_cases hparens : callee.kind = "ParenthesizedExpression"
    · exact Or.inl hparens
    · rw [unparenthesized_eq_self hparens] at hname
      exact Or.inr (Option.ite_none_right_eq_some.mp hname).1
  have hmember : callee.member? = none := by
    rcases hkind with hkind | hkind <;> simp [member?, hkind]
  simp [calleeMember, hcallee, hmember]

/-- What is called as a member has no plain name. -/
theorem calleeName_eq_none (h : call.calleeMember.isSome) : call.calleeName = none := by
  cases hname : call.calleeName with
  | none => rfl
  | some name => simp [calleeMember_eq_none hname] at h

end Node

/-- A registration is recognised by the name that the call calls something by. -/
theorem TestRunner.calledName_eq_some_iff {call : Node} {name : String} :
    calledName call = some name ↔ call.CallsName name := by
  unfold calledName
  constructor
  · intro h
    split at h
    · rename_i member hmember
      obtain ⟨callee, hcallee, hmember⟩ := Option.bind_eq_some_iff.mp hmember
      obtain ⟨access, hchain, haccess, hobject⟩ := Node.member?_eq_some_iff.mp hmember
      obtain ⟨object, hname, rfl⟩ := Option.map_eq_some_iff.mp h
      obtain ⟨target, hsteps, htarget⟩ :=
        Node.name?_unparenthesized_iff.mp (hobject.symm.trans hname)
      exact .member hcallee hchain haccess hsteps htarget
    · obtain ⟨target, htarget, hname⟩ := Node.calleeName_eq_some_iff.mp h
      exact .plain htarget hname
  · rintro (⟨htarget, hname⟩ | ⟨hcallee, hchain, haccess, hsteps, hname⟩)
    · have hplain := Node.calleeName_eq_some_iff.mpr ⟨_, htarget, hname⟩
      rw [Node.calleeMember_eq_none hplain]
      exact hplain
    · have hobject := Node.name?_unparenthesized_iff.mpr ⟨_, hsteps, hname⟩
      obtain ⟨member, hmember, hcalled⟩ : ∃ member, call.calleeMember = some member ∧
          member.objectName.map (fun object => object ++ "." ++ member.property) = some _ :=
        ⟨⟨_, _, _⟩, Option.bind_eq_some_iff.mpr
          ⟨_, hcallee, Node.member?_eq_some_iff.mpr ⟨_, hchain, haccess, rfl⟩⟩,
          congrArg _ hobject⟩
      rw [hmember]
      exact hcalled

end PureLint
