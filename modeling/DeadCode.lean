import DeadCode.Main
import DeadCode.Proofs.Explore
import DeadCode.Proofs.ImportGraph
import DeadCode.Proofs.StringMap
import DeadCode.Proofs.Usage
import DeadCode.Proofs.Liveness
import DeadCode.Proofs.Barrel
import DeadCode.Proofs.Orphans
import DeadCode.Proofs.Modes
import DeadCode.Proofs.Inheritance
import DeadCode.Proofs.InputOrder
import DeadCode.Proofs.Confinement
import DeadCode.Proofs.Quoted
import DeadCode.Proofs.Dependencies
import DeadCode.Proofs.Merge
import DeadCode.Proofs.RelativeImport
import DeadCode.Proofs.SiblingImport
import DeadCode.Proofs.JsonLayout
import DeadCode.Proofs.Relaxed
import DeadCode.Proofs.Relocation
import DeadCode.Proofs.FrameworkUsage
import DeadCode.Proofs.PythonImports
import DeadCode.Proofs.AddedFile
import DeadCode.Proofs.DistinctFindings
import DeadCode.Proofs.JsonPretty
import DeadCode.Proofs.Report
import DeadCode.Proofs.ByteOrder
import DeadCode.Proofs.GraphHistory
import DeadCode.Proofs.GraphSearch
import DeadCode.Proofs.PartialConfig
import DeadCode.Proofs.DirectoryImport
import DeadCode.Proofs.ManifestEntry
import DeadCode.Proofs.AliasOrder
import DeadCode.Proofs.PythonLookup
import DeadCode.Proofs.MarkdownTable
import DeadCode.Proofs.PythonStub
import DeadCode.Proofs.LineSearch
import DeadCode.Proofs.PythonLines
import DeadCode.Proofs.WellFormedSyntax
import DeadCode.Proofs.CommentedLines
import DeadCode.Proofs.PythonComments
import DeadCode.Proofs.SegmentStack
import DeadCode.Proofs.Separators
import DeadCode.Proofs.AliasTarget
import DeadCode.Proofs.FirstKnown
import DeadCode.Proofs.ComponentLines
import DeadCode.Proofs.Scope
import DeadCode.Proofs.JsonGrammar
import DeadCode.Proofs.Comments
