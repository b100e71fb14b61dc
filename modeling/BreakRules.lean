import BreakRules.Disk.Tree
import BreakRules.Main
import BreakRules.Proofs.Explore
import BreakRules.Proofs.Merge
import BreakRules.Proofs.Table
import BreakRules.Proofs.Run
import BreakRules.Proofs.Compile
import BreakRules.Proofs.Correct
import BreakRules.Proofs.WellFormed
import BreakRules.Proofs.Lines
import BreakRules.Proofs.Policy
import BreakRules.Proofs.Grammar
import BreakRules.Proofs.Names
import BreakRules.Proofs.Print
import BreakRules.Proofs.JsonReader
import BreakRules.Proofs.JsonText
import BreakRules.Proofs.Enumerators
import BreakRules.Proofs.CSource
import BreakRules.Proofs.HeaderTable
import BreakRules.Proofs.HeaderText
import BreakRules.Proofs.Findings
import BreakRules.Proofs.Mirror
import BreakRules.Proofs.Rename
import BreakRules.Proofs.Placement
import BreakRules.Proofs.ReadOnly
import BreakRules.Proofs.Endings
import BreakRules.Proofs.Effects
import BreakRules.Proofs.Agreement
import BreakRules.Proofs.Verbosity
import BreakRules.Proofs.DepthFirst
import BreakRules.Proofs.Building
import BreakRules.Proofs.Reading
import BreakRules.Proofs.Termination
import BreakRules.Proofs.Following
import BreakRules.Proofs.Declarations
import BreakRules.Proofs.Numbering
import BreakRules.Proofs.Acceptance
import BreakRules.Proofs.Reports
import BreakRules.Proofs.Pieces
import BreakRules.Proofs.Faults
import BreakRules.Proofs.Composition
import BreakRules.Proofs.Interleaving
import BreakRules.Proofs.Layout
import BreakRules.Proofs.FreshStart
import BreakRules.Proofs.PathOrder
import BreakRules.Proofs.Resolution
import BreakRules.Proofs.Replacement
