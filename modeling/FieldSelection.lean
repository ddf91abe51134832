import FieldSelection.Main
import FieldSelection.Proofs.Selection.Exponents
import FieldSelection.Proofs.Synthesis.Request
import FieldSelection.Selection.Equality
import FieldSelection.Proofs.Synthesis.Plan
import FieldSelection.Proofs.Synthesis.Origins
import FieldSelection.Proofs.Selection.Places
import FieldSelection.Proofs.Selection.Paths
import FieldSelection.Proofs.Resolution.Additions
import FieldSelection.Proofs.Resolution.Pagination
import FieldSelection.Proofs.Grammar.Offsets
import FieldSelection.Proofs.Grammar.Seams
import FieldSelection.Proofs.Selection.Concatenation
import FieldSelection.Proofs.Selection.Expansion
import FieldSelection.Proofs.Selection.JsonForm
import FieldSelection.Proofs.Selection.Printable
import FieldSelection.Proofs.Resolution.Override
import FieldSelection.Proofs.CommandLine.Output
import FieldSelection.Proofs.Synthesis.Connections
import FieldSelection.Proofs.Selection.Containment
import FieldSelection.Proofs.Synthesis.Arguments
import FieldSelection.Proofs.Synthesis.Depth
import FieldSelection.Proofs.Selection.PathMerging
import FieldSelection.Proofs.Resolution.Equality
import FieldSelection.Proofs.Resolution.PathOrder
import FieldSelection.Proofs.Resolution.Emptiness
import FieldSelection.Proofs.Grammar.Nesting
import FieldSelection.Proofs.Grammar.Cuts
import FieldSelection.Proofs.Grammar.Insertions
import FieldSelection.Proofs.Selection.Indentation
import FieldSelection.Proofs.Schema.TypeReferences
