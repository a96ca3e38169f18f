import PureLint.Policy.Directory
import PureLint.Policy.NamedExport
import PureLint.Rule.Construct
import PureLint.Rule.Custom
import PureLint.Rule.Declaration
import PureLint.Rule.Effect
import PureLint.Rule.Function
import PureLint.Rule.Grant
import PureLint.Rule.Hygiene
import PureLint.Rule.Importing
import PureLint.Rule.Throwing
import PureLint.Rule.Usage
import PureLint.Diagnostic.Sink

/-!
# The catalog

All built-in rules and policies, in the order in which they run and are listed.
-/

namespace PureLint

namespace Rule

/-- The built-in rules, in the order their final checks run. -/
def all : List Rule :=
  [noClasses, noEnums, noDelete, noDoWhile, noGettersSetters, noForeach, noEvalFunction, noRequire,
   noDefineProperty, noObjectAssign, noMemberAssignments, noAsCast, interfaceExtendsOnly,
   noMutableRecord, noThrow, catchErrorHandling, noNamespaceImports, nodeImportStyle,
   importExtensions, noHttpImports, forbiddenLibraries, noReexports, noSideEffectFunctions,
   noThisInFunctions, noGlobalProcess, noFilenameDirname, noConstantCondition, switchCaseBlock,
   noUnusedMap, letRequiresType, emptyArrayRequiresType, exportConstTypeRequired, noDynamicAccess,
   preferReadonlyArray, maxFunctionParams, noTopLevelSideEffects, exportRequiresJsdoc,
   jsdocParamMatch, paramMissingType, noUnusedVariables, noUnusedImports, onePublicFunction,
   allowDirectives]

/-- The built-in rule of this name. -/
def ofId? (id : String) : Option Rule := all.find? fun rule => rule.id == id

end Rule

namespace Policy

/-- The built-in policies, in the order they run. -/
def all : List Policy := [pathBasedRestrictions, strictNamedExport]

/-- The built-in policy of this name. -/
def ofId? (id : String) : Option Policy := all.find? fun policy => policy.id == id

end Policy

/-- The names that can be given in a configuration: of the rules, of the policies, and of the
report on unseen expectations. -/
def ruleIds : List String :=
  Rule.all.map (·.id) ++ Policy.all.map (·.id) ++ [Sink.unseenRule]

/-- Whether a text names a rule. -/
def isRuleId (id : String) : Bool := ruleIds.contains id

end PureLint
