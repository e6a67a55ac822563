import ScriptFront.Check.CompletionOrder
import ScriptFront.Check.Expr
import ScriptFront.Check.Finding
import ScriptFront.Check.Hoist
import ScriptFront.Check.Signature
import ScriptFront.Check.Statement
import ScriptFront.CommandLine.Invocation
import ScriptFront.CommandLine.Run
import ScriptFront.Diagnostic.Excerpt
import ScriptFront.Diagnostic.Layout
import ScriptFront.Diagnostic.Log
import ScriptFront.Grammar.ClassBody
import ScriptFront.Grammar.Cursor
import ScriptFront.Grammar.Level
import ScriptFront.Grammar.Nesting
import ScriptFront.Grammar.Operand
import ScriptFront.Grammar.Program
import ScriptFront.Grammar.TypeExpr
import ScriptFront.Grammar.WrittenType
import ScriptFront.Main
import ScriptFront.Modifier.Basic
import ScriptFront.Module.Directory
import ScriptFront.Module.Exports
import ScriptFront.Module.Files
import ScriptFront.Module.Native
import ScriptFront.Module.Session
import ScriptFront.Number.Binary64
import ScriptFront.Number.Decimal
import ScriptFront.Path.Normal
import ScriptFront.Path.Reading
import ScriptFront.Phase.Analysis
import ScriptFront.Phase.Compilation
import ScriptFront.Phase.Reading
import ScriptFront.Proofs.AccountedRuns
import ScriptFront.Proofs.AnalysisParts
import ScriptFront.Proofs.AnalysisRuns
import ScriptFront.Proofs.Assignability
import ScriptFront.Proofs.BalancedChecks
import ScriptFront.Proofs.BalancedReading
import ScriptFront.Proofs.BalancedStatements
import ScriptFront.Proofs.BoundedTrees
import ScriptFront.Proofs.ChainReading
import ScriptFront.Proofs.ChainTrees
import ScriptFront.Proofs.CheckCourses
import ScriptFront.Proofs.CheckFindings
import ScriptFront.Proofs.CheckSteps
import ScriptFront.Proofs.ClassValues
import ScriptFront.Proofs.ClimbingPaths
import ScriptFront.Proofs.Completion
import ScriptFront.Proofs.Concatenation
import ScriptFront.Proofs.ConstructorWrites
import ScriptFront.Proofs.Courses
import ScriptFront.Proofs.DeclarationOrder
import ScriptFront.Proofs.DeclaredClasses
import ScriptFront.Proofs.DeclaredNames
import ScriptFront.Proofs.DenotedTypes
import ScriptFront.Proofs.EndOfFile
import ScriptFront.Proofs.ErrorAccounting
import ScriptFront.Proofs.ExportCache
import ScriptFront.Proofs.ExportTables
import ScriptFront.Proofs.ExpressionHeights
import ScriptFront.Proofs.FaithfulExports
import ScriptFront.Proofs.FieldReads
import ScriptFront.Proofs.FilledSlots
import ScriptFront.Proofs.ForwardGrammar
import ScriptFront.Proofs.ForwardReading
import ScriptFront.Proofs.FrameNames
import ScriptFront.Proofs.GlobalScope
import ScriptFront.Proofs.IdleExpressions
import ScriptFront.Proofs.ImportCycles
import ScriptFront.Proofs.ImportGraph
import ScriptFront.Proofs.ImportRuns
import ScriptFront.Proofs.ImportSections
import ScriptFront.Proofs.ImportWalks
import ScriptFront.Proofs.Inheritance
import ScriptFront.Proofs.InnerFaults
import ScriptFront.Proofs.IntersectionValues
import ScriptFront.Proofs.IsolatedBodies
import ScriptFront.Proofs.LabelledCases
import ScriptFront.Proofs.LimitedExpressions
import ScriptFront.Proofs.LimitedReading
import ScriptFront.Proofs.LimitedStatements
import ScriptFront.Proofs.LineBreaks
import ScriptFront.Proofs.LinkedTables
import ScriptFront.Proofs.LocalExpressions
import ScriptFront.Proofs.LocalReading
import ScriptFront.Proofs.LocalStatements
import ScriptFront.Proofs.LookupCourses
import ScriptFront.Proofs.LookupFindings
import ScriptFront.Proofs.MemberLookup
import ScriptFront.Proofs.MemberTables
import ScriptFront.Proofs.MentionOrder
import ScriptFront.Proofs.MentionedLookups
import ScriptFront.Proofs.MentionedNames
import ScriptFront.Proofs.MisledReading
import ScriptFront.Proofs.MisledStatements
import ScriptFront.Proofs.MisplacedImports
import ScriptFront.Proofs.NativeImports
import ScriptFront.Proofs.NearestMembers
import ScriptFront.Proofs.NestedScopes
import ScriptFront.Proofs.NestingDepth
import ScriptFront.Proofs.NestingLimit
import ScriptFront.Proofs.OrderedStatements
import ScriptFront.Proofs.ParsedFiles
import ScriptFront.Proofs.PassedPlaces
import ScriptFront.Proofs.PathKeys
import ScriptFront.Proofs.PathPlaces
import ScriptFront.Proofs.PlainChecks
import ScriptFront.Proofs.PrintedTokens
import ScriptFront.Proofs.PropertyWrites
import ScriptFront.Proofs.RecursiveFields
import ScriptFront.Proofs.RelatedGrammar
import ScriptFront.Proofs.RelatedReading
import ScriptFront.Proofs.RenderedExcerpts
import ScriptFront.Proofs.RepeatedFindings
import ScriptFront.Proofs.RepeatedSlots
import ScriptFront.Proofs.ReportSlots
import ScriptFront.Proofs.RunHistories
import ScriptFront.Proofs.ScatteredExpressions
import ScriptFront.Proofs.ScatteredStatements
import ScriptFront.Proofs.ScopeRuns
import ScriptFront.Proofs.ScopeSteps
import ScriptFront.Proofs.ScopeTrees
import ScriptFront.Proofs.SignatureMentions
import ScriptFront.Proofs.StandingCourses
import ScriptFront.Proofs.StatementSteps
import ScriptFront.Proofs.SteadyChecks
import ScriptFront.Proofs.TokenPlaces
import ScriptFront.Proofs.TokenSpelling
import ScriptFront.Proofs.TreeHeight
import ScriptFront.Proofs.TwinScopes
import ScriptFront.Proofs.TypeEquality
import ScriptFront.Proofs.TypeReading
import ScriptFront.Proofs.UnionValues
import ScriptFront.Proofs.UnreadNames
import ScriptFront.Proofs.UnusedExpressions
import ScriptFront.Proofs.VisitedNodes
import ScriptFront.Proofs.VisitedStatements
import ScriptFront.Proofs.WellFormedPrograms
import ScriptFront.Proofs.WellFormedTrees
import ScriptFront.Scope.Entry
import ScriptFront.Scope.Frame
import ScriptFront.Scope.OpenTables
import ScriptFront.Scope.Scopes
import ScriptFront.Scope.Tables
import ScriptFront.Token.Layout
import ScriptFront.Token.Scan
import ScriptFront.Token.Spelling
import ScriptFront.Tree.Expr
import ScriptFront.Tree.Outline
import ScriptFront.Tree.Places
import ScriptFront.Tree.SourceOrder
import ScriptFront.Tree.Statement
import ScriptFront.Tree.Visitor
import ScriptFront.Tree.WellFormed
import ScriptFront.Typing.Assignable
import ScriptFront.Typing.Operation
import ScriptFront.Typing.Parts
