import Peglib.EntryPoints
import Peglib.Derivations
import Peglib.Halting
import Peglib.Termination
import Peglib.StaleAnswers
import Peglib.FailureReports
import Peglib.PositionDiscipline
import Peglib.CommittedNodes
import Peglib.PagedTransparency
import Peglib.MemoFreeReports
import Peglib.AcceptedParse
import Peglib.Commitments
import Peglib.RecoveryProgress
import Peglib.ScopeBlindness
import Peglib.ExactRepetition
import Peglib.Lockstep
import Peglib.NullableSeeds
import Peglib.SpanNesting
import Peglib.RecoveryReports
import Peglib.FurthestFailure
import Peglib.DisplayTexts
import Peglib.SourceLines
import Peglib.LongestMatch
import Peglib.RepetitionTrees
import Peglib.NodeBlindness
import Peglib.Flattening
import Peglib.NestedRepetitions
import Peglib.Operators
import Peglib.CollapsingOperators
import Peglib.RuleGraph
import Peglib.DotExport
import Peglib.Totality
import Peglib.Tabulation
import Peglib.Refitting
import Peglib.Renaming
import Peglib.DerivationTrees
import Peglib.TreeConstruction
import Peglib.HookWalk
import Peglib.SkippingRecursion
import Peglib.Producers
import Peglib.FoldedValues
import Peglib.DirectRecursion
import Peglib.GrammarBuilding
import Peglib.FoldTypes
import Peglib.ActionClosures
import Peglib.Attachments
import Peglib.Decimal
import Peglib.FormattedReports
import Peglib.HitCommitments
