import PureLint.Record
import PureLint.Rule.Basic

/-!
# Imports and re-exports

Rules on where names are imported from, in what style, and on passing them on.
-/

namespace PureLint.Rule

/-- Whether a declaration imports a whole namespace. -/
def importsNamespace (declaration : Node) : Bool :=
  (declaration.children "specifiers").any (·.kind == "ImportNamespaceSpecifier")

/-- A check of the source of an import declaration. -/
def onImportSource (find : Node → String → List Report) : List (String × Check) :=
  reporting ["ImportDeclaration"] fun _ visit =>
    match visit.node.literalTextAt "source" with
    | some source => find visit.node source
    | none => []

/-- Bans importing the namespace of anything but a platform module. -/
def noNamespaceImports : Rule where
  id := "no-namespace-imports"
  description := "Flags `import * as x` from packages and local modules."
  checks := onImportSource fun node source =>
    if !Text.startsWith source "node:" && importsNamespace node then
      [node.report s!"Namespace imports from '{source}' are not allowed. Use named imports instead"]
    else []

/-- The modules of the platform. -/
def platformModules : List String :=
  ["_http_agent", "_http_client", "_http_common", "_http_incoming", "_http_outgoing",
   "_http_server", "_stream_duplex", "_stream_passthrough", "_stream_readable",
   "_stream_transform", "_stream_wrap", "_stream_writable", "_tls_common", "_tls_wrap", "assert",
   "assert/strict", "async_hooks", "buffer", "child_process", "cluster", "console", "constants",
   "crypto", "dgram", "diagnostics_channel", "dns", "dns/promises", "domain", "events", "fs",
   "fs/promises", "http", "http2", "https", "inspector", "inspector/promises", "module", "net",
   "os", "path", "path/posix", "path/win32", "perf_hooks", "process", "punycode", "querystring",
   "readline", "readline/promises", "repl", "stream", "stream/consumers", "stream/promises",
   "stream/web", "string_decoder", "sys", "timers", "timers/promises", "tls", "trace_events",
   "tty", "url", "util", "util/types", "v8", "vm", "wasi", "worker_threads", "zlib"]

/-- The modules of the platform that have a variant with promises. -/
def promiseModules : List String := ["fs", "dns", "stream", "timers", "readline"]

/-- What is reported about the style of an import. -/
def importStyleReports (node : Node) (source : String) : List Report :=
  let isMarked := Text.startsWith source "node:"
  let bare := Text.stripStart source "node:"
  (if !isMarked && platformModules.contains source then
    [node.report (s!"Node.js built-in '{source}' must be imported with 'node:' prefix. " ++
      s!"Use 'node:{source}' instead")]
  else []) ++
  (if promiseModules.contains bare then
    [node.report s!"Prefer promise-based API. Use 'node:{bare}/promises' instead of '{source}'"]
  else []) ++
  (if isMarked && importsNamespace node then
    [node.report (s!"Use named imports instead of namespace import from '{source}'. " ++
      s!"Example: import \x7b readFile \x7d from '{source}'")]
  else [])

/-- Requires platform modules to be marked, in their variant with promises, and imported by
name. -/
def nodeImportStyle : Rule where
  id := "node-import-style"
  description :=
    "Requires the 'node:' prefix, promise-based modules and named imports for Node.js built-ins."
  checks := onImportSource importStyleReports

/-- Whether an import source is relative to the importing file. -/
def isRelative (source : String) : Bool :=
  source == "." || source == ".." || Text.startsWith source "./" || Text.startsWith source "../"

/-- The extensions that an import source may have. -/
def importExtensionNames : List String :=
  [".ts", ".tsx", ".mts", ".cts", ".js", ".jsx", ".mjs", ".cjs", ".json"]

/-- Requires an extension on relative sources. -/
def importExtensions : Rule where
  id := "import-extensions"
  description := "Requires a file extension on relative import and re-export sources."
  checks := reporting ["ImportDeclaration", "ExportNamedDeclaration", "ExportAllDeclaration"]
    fun _ visit =>
      match visit.node.literalTextAt "source" with
      | some source =>
        reportIf (isRelative source && !importExtensionNames.any (Text.endsWith source ·))
          visit s!"Relative imports must include a file extension: '{source}'"
      | none => []

/-- Bans importing from the web. -/
def noHttpImports : Rule where
  id := "no-http-imports"
  description := "Flags imports from http:// and https:// URLs."
  checks := onImportSource fun node source =>
    if Text.startsWith source "http://" || Text.startsWith source "https://" then
      [node.report s!"HTTP(S) imports are not allowed. Import from '{source}' is forbidden"]
    else []

/-- The libraries that are banned. -/
def forbiddenSources : List String := ["jquery", "lodash", "lodash/fp", "underscore", "rxjs"]

/-- The libraries that have a better alternative. -/
def replacements : List (String × String) :=
  [("minimist", "node:util parseArgs"), ("yargs", "node:util parseArgs")]

/-- What is reported about using a library. -/
def libraryReports (node : Node) (source : String) : List Report :=
  if forbiddenSources.contains source || Text.startsWith source "lodash/" then
    [node.report s!"Library '{source}' is forbidden. Consider using modern alternatives"]
  else
    match Record.answer? replacements source with
    | some replacement =>
      [node.report s!"Library '{source}' has a better alternative. Use '{replacement}' instead"]
    | none => []

/-- Bans libraries that have modern replacements, imported or required. -/
def forbiddenLibraries : Rule where
  id := "forbidden-libraries"
  description :=
    "Flags imports of legacy utility libraries that have built-in or modern replacements."
  checks := onImportSource libraryReports ++
    reporting ["CallExpression"] fun _ visit =>
      if visit.node.calleeName == some "require" then
        match (visit.node.children "arguments").head?.bind Node.literalText? with
        | some source => libraryReports visit.node source
        | none => []
      else []

/-- What is reported about a re-export. -/
def reexportReports (isEntry : Bool) (declaration : Node) : List Report :=
  let source := (declaration.literalTextAt "source").getD ""
  if !isEntry then [declaration.report s!"Re-exports from '{source}' are not allowed"]
  else if declaration.kind = "ExportAllDeclaration" then
    [declaration.report ("Namespace re-exports are not allowed in entry points. " ++
      s!"Use named exports: export \x7b name \x7d from '{source}'")]
  else []

/-- Bans re-exports outside entry points, and those of whole namespaces inside them. -/
def noReexports : Rule where
  id := "no-reexports"
  description := "Flags re-exports outside entry points, and `export *` inside them."
  checks := reporting ["Program"] fun context _ =>
    let traits := context.file.traits
    context.survey.topLevel.reexports.flatMap
      (reexportReports (traits.isEntryPoint || traits.isMainEntry))

end PureLint.Rule
