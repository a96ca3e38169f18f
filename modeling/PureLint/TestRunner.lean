import PureLint.Text.Search
import PureLint.Tree.Expression

/-!
# Test runners

The test runners a test file may use: how an import of one is recognised, and which calls register
tests with it.
-/

namespace PureLint

/-- A test runner. -/
inductive TestRunner where
  | vitest
  | nodeTest
  | denoTest
  deriving DecidableEq, Repr

namespace TestRunner

/-- All test runners, in the order they are looked for. -/
def all : List TestRunner := [.vitest, .nodeTest, .denoTest]

/-- The name by which a test runner is chosen. -/
def name : TestRunner → String
  | .vitest => "vitest"
  | .nodeTest => "node-test"
  | .denoTest => "deno-test"

/-- The test runner of this name. -/
def ofName? (s : String) : Option TestRunner := all.find? fun runner => runner.name == s

/-- Every test runner is found under its name. -/
theorem ofName?_name (runner : TestRunner) : ofName? runner.name = some runner := by
  cases runner <;> rfl

/-- The texts of which one occurs in the source of every import of the runner. -/
def sourceMarks : TestRunner → List String
  | .vitest => ["vitest", "@vitest/"]
  | .nodeTest => ["node:test", "node:assert"]
  | .denoTest =>
    ["deno.land/std/testing", "deno.land/std/assert", "@std/expect", "@std/assert",
      "jsr:@std/expect", "jsr:@std/assert"]

/-- The calls that register tests, as a name or as `object.name`. -/
def registrations : TestRunner → List String
  | .vitest => ["describe", "it", "test", "beforeEach", "afterEach"]
  | .nodeTest => ["describe", "it", "test", "before", "after"]
  | .denoTest => ["Deno.test"]

/-- Whether an import source belongs to the runner. -/
def ownsSource (runner : TestRunner) (source : String) : Bool :=
  runner.sourceMarks.any fun pattern => Text.contains source pattern

/-- What a call calls, written as a registration is. -/
def calledName (call : Node) : Option String :=
  match call.calleeMember with
  | some member => member.objectName.map fun object => object ++ "." ++ member.property
  | none => call.calleeName

/-- Whether a call registers tests with the runner. -/
def isRegistration (runner : TestRunner) (call : Node) : Bool :=
  (calledName call).any fun name => runner.registrations.contains name

end TestRunner

end PureLint
