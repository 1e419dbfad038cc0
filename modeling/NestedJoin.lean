import NestedJoin.FrozenMap
import NestedJoin.Notice
import NestedJoin.Package
import NestedJoin.Session
import NestedJoin.Workspace
import NestedJoin.Proofs.GraphTree
import NestedJoin.Proofs.BuilderRuns
import NestedJoin.Proofs.KeyChains
import NestedJoin.Proofs.Preparing
import NestedJoin.Proofs.FirstSeen
import NestedJoin.Proofs.Grouping
import NestedJoin.Proofs.Layout
import NestedJoin.Proofs.Folding
import NestedJoin.Proofs.Materializing
import NestedJoin.Proofs.Decoding
import NestedJoin.Proofs.Flattening
import NestedJoin.Proofs.Unflattening
import NestedJoin.Proofs.References
import NestedJoin.Proofs.Writing
import NestedJoin.Proofs.Compiling
import NestedJoin.Proofs.Repeating
import NestedJoin.Proofs.Resolving
import NestedJoin.Proofs.Relations
import NestedJoin.Proofs.JoinTrees
import NestedJoin.Proofs.FoldingAlike
import NestedJoin.Proofs.Linking
import NestedJoin.Proofs.Rejoining
import NestedJoin.Proofs.Reading
import NestedJoin.Proofs.Retention
import NestedJoin.Proofs.Lossless
import NestedJoin.Proofs.Reordering
import NestedJoin.Proofs.Numbering
import NestedJoin.Proofs.Stepping
import NestedJoin.Proofs.Describing
import NestedJoin.Proofs.Serving
import NestedJoin.Proofs.Families
import NestedJoin.Proofs.MissingColumns
import NestedJoin.Proofs.TakingTurns
import NestedJoin.Proofs.Modifying
import NestedJoin.Proofs.Independence
import NestedJoin.Proofs.Refusing
import NestedJoin.Proofs.Sharing
import NestedJoin.Proofs.Printing
import NestedJoin.Proofs.Overriding
import NestedJoin.Proofs.ReadingConditions
import NestedJoin.Proofs.Restricting
import NestedJoin.Proofs.RawTexts
import NestedJoin.Proofs.Connectives
import NestedJoin.Proofs.Binding
import NestedJoin.Proofs.Predicates
import NestedJoin.Proofs.TablesShown
import NestedJoin.Proofs.AliasesShown
import NestedJoin.Proofs.GeneratedNames
import NestedJoin.Proofs.NamesApart
import NestedJoin.Proofs.Installing
import NestedJoin.Proofs.Inspecting
import NestedJoin.Proofs.Ascending
import NestedJoin.Proofs.ForestShape
