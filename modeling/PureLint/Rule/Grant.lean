import PureLint.Rule.Basic

/-!
# Granted features

The rule that keeps console, timers, network and the page behind a grant. Where a feature is granted
its use is noted, and a grant that is never used is reported at the end.
-/

namespace PureLint.Rule

/-- The functions that start or stop a timer. -/
def timerFunctions : List String :=
  ["setTimeout", "setInterval", "setImmediate", "requestAnimationFrame", "requestIdleCallback",
   "clearTimeout", "clearInterval", "clearImmediate", "cancelAnimationFrame",
   "cancelIdleCallback"]

/-- The global names of the page. -/
def pageGlobals : List String :=
  ["document", "window", "navigator", "location", "localStorage", "sessionStorage", "history",
   "screen", "alert", "confirm", "prompt"]

/-- The names of types of the page. -/
def pageTypes : List String :=
  ["HTMLElement", "HTMLDivElement", "HTMLInputElement", "Document", "Window", "Navigator",
   "Location", "Element", "Node", "Event", "MouseEvent", "KeyboardEvent", "DOMParser",
   "XMLSerializer", "Storage"]

/-- The names of the network, values and types alike. -/
def networkNames : List String :=
  ["fetch", "XMLHttpRequest", "WebSocket", "EventSource", "ServiceWorker", "Response", "Request",
   "Headers", "RequestInit", "ServiceWorkerRegistration"]

/-- A feature in use, and how messages call the use. -/
structure FeatureUse where
  feature : Feature
  subject : String

/-- The use that a call makes of the console or of timers. -/
def callUse? (call : Node) : Option FeatureUse :=
  if call.calleeMember.any (·.isOn "console") then some ⟨.console, "Use of 'console'"⟩
  else
    match call.calleeName with
    | some name =>
      if timerFunctions.contains name then some ⟨.timers, s!"Use of '{name}'"⟩ else none
    | none => none

/-- The use that a name makes of the page, if it is among the given names, or of the network. -/
def nameUse? (page : List String) (subject name : String) : Option FeatureUse :=
  if page.contains name then some ⟨.dom, s!"{subject} '{name}'"⟩
  else if networkNames.contains name then some ⟨.net, s!"{subject} '{name}'"⟩
  else none

/-- What a use comes to: it is noted where the feature is granted and reported elsewhere. -/
def FeatureUse.outcome (use : FeatureUse) (file : SourceFile) (node : Node) : Outcome :=
  if file.allows use.feature then { uses := [use.feature] }
  else
    let subject := use.subject
    let feature := use.feature.name
    { reports := [node.report s!"{subject} requires '@allow {feature}' directive"] }

/-- A check of the uses that nodes of a kind make. -/
def guarding (kind : String) (find : Node → Option FeatureUse) : String × Check :=
  (kind, fun context visit =>
    match find visit.node with
    | some use => use.outcome context.file visit.node
    | none => {})

/-- Keeps features behind grants, and reports grants that are never used. A granted throw is noted
here too; reporting throws belongs to another rule. -/
def allowDirectives : Rule where
  id := "allow-directives"
  description :=
    "Gates console, timers, DOM and network APIs behind '@allow' directives in the file header."
  checks :=
    [guarding "CallExpression" callUse?,
     guarding referenceCheckKind fun node => node.name?.bind (nameUse? pageGlobals "Access to"),
     guarding "TSTypeReference" fun node => node.typeName?.bind (nameUse? pageTypes "Type"),
     ("ThrowStatement", fun context _ =>
       if context.file.allows .throws then { uses := [.throws] } else {})]
  finish := some fun context used =>
    { reports := (Feature.unused context.file.granted used).map fun feature =>
        let name := feature.name
        ⟨.fileStart, s!"Unused '@allow {name}' directive"⟩ }

end PureLint.Rule
