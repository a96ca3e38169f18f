import PureLint.CommandLine.Run
import PureLint.Main
import PureLint.Proofs.Diagnostic.Messages
import PureLint.Proofs.Diagnostic.Stretch
import PureLint.Proofs.Directive.Announcement
import PureLint.Proofs.Diagnostic.Accounting
import PureLint.Proofs.Tree.Contents
import PureLint.Proofs.Tree.Lineage
import PureLint.Proofs.Survey.Scope
import PureLint.Proofs.Tree.Identity
import PureLint.Proofs.Survey.Names
import PureLint.Proofs.Survey.Reference
import PureLint.Proofs.Analysis.Session
import PureLint.Proofs.Rule.Feature
import PureLint.Proofs.Analysis.Isolation
import PureLint.Proofs.Analysis.Containment
import PureLint.Proofs.Analysis.SwitchedOff
import PureLint.Proofs.Analysis.Location
import PureLint.Proofs.Analysis.Reordering
import PureLint.Proofs.Analysis.Schedule
import PureLint.Proofs.Analysis.References
import PureLint.Proofs.Tree.Placement
import PureLint.Proofs.Survey.Parameter
import PureLint.Proofs.Policy.Agreement
import PureLint.Proofs.Policy.Asynchrony
import PureLint.Proofs.Analysis.Asynchrony
import PureLint.Proofs.Analysis.Reports
import PureLint.Proofs.Survey.Tables
import PureLint.Proofs.Survey.Arrays
import PureLint.Proofs.Analysis.Arrays
import PureLint.Proofs.Survey.ExportedVariables
import PureLint.Proofs.Analysis.ExportedVariables
import PureLint.Proofs.Analysis.Unread
import PureLint.Proofs.Analysis.Naming
import PureLint.Proofs.Survey.Unread
import PureLint.Proofs.Tree.Parentheses
import PureLint.Proofs.Tree.Naming
import PureLint.Proofs.Directive.Suppression
import PureLint.Proofs.Policy.NamedExport
import PureLint.Proofs.Rule.Grant
import PureLint.Proofs.Survey.ExportedFunctions
import PureLint.Proofs.Analysis.Grant
import PureLint.Proofs.Directive.Blanket
import PureLint.Proofs.Diagnostic.Counting
import PureLint.Proofs.Comment.DocBlock
import PureLint.Proofs.Rule.ParameterTags
import PureLint.Proofs.Comment.WrittenTag
import PureLint.Proofs.Analysis.GlobalProcess
import PureLint.Proofs.Analysis.TopLevelEffects
import PureLint.Proofs.Analysis.Wrapping
import PureLint.Proofs.Policy.Barrel
import PureLint.Proofs.Config.Loading
import PureLint.Proofs.Project.Ignore
import PureLint.Proofs.Analysis.Components
import PureLint.Proofs.Directive.RuleNames
import PureLint.Proofs.Path.Segments
import PureLint.Proofs.Report.Caret
import PureLint.Proofs.Analysis.DynamicAccess
