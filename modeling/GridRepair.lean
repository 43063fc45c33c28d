import GridRepair.Catalogue
import GridRepair.Json.Printer
import GridRepair.Codec.Task
import GridRepair.Codec.Verdict
import GridRepair.Proofs.Comparison
import GridRepair.Proofs.Inversion
import GridRepair.Proofs.Evaluation
import GridRepair.Proofs.Prediction
import GridRepair.Proofs.Certification
import GridRepair.Proofs.Round
import GridRepair.Proofs.Ascent
import GridRepair.Proofs.Choice
import GridRepair.Proofs.Course
import GridRepair.Proofs.Memoryless
import GridRepair.Proofs.Budget
import GridRepair.Proofs.Grading
import GridRepair.Proofs.Appending
import GridRepair.Proofs.Remedy
import GridRepair.Proofs.Outcome
import GridRepair.Proofs.Agreement
import GridRepair.Proofs.Noninterference
import GridRepair.Proofs.Spreading
import GridRepair.Proofs.Guarded
import GridRepair.Proofs.Operations
import GridRepair.Proofs.Searches
import GridRepair.Proofs.GuardedCatalogue
import GridRepair.Proofs.Validity
import GridRepair.Proofs.Addresses
import GridRepair.Proofs.Flattening
import GridRepair.Proofs.Typing
import GridRepair.Proofs.Miscalls
import GridRepair.Proofs.Reordering
import GridRepair.Proofs.Text
import GridRepair.Proofs.Documents
import GridRepair.Proofs.Plausibility
import GridRepair.Proofs.Editing
import GridRepair.Proofs.GuardedEdits
import GridRepair.Proofs.Undoing
import GridRepair.Proofs.Connection
import GridRepair.Proofs.Enumeration
import GridRepair.Proofs.Guidance
import GridRepair.Proofs.Neutrality
import GridRepair.Proofs.Turns
import GridRepair.Proofs.Boxes
import GridRepair.Proofs.Cropping
import GridRepair.Proofs.Components
import GridRepair.Proofs.Objects
import GridRepair.Proofs.Erasing
import GridRepair.Proofs.Copies
import GridRepair.Proofs.Rectangles
import GridRepair.Proofs.Pasting
import GridRepair.Proofs.Calls
import GridRepair.Proofs.Patching
import GridRepair.Proofs.Severity
import GridRepair.Proofs.Totals
import GridRepair.Proofs.Remarks
import GridRepair.Proofs.Ratios
import GridRepair.Proofs.Costs
import GridRepair.Proofs.Defaults
import GridRepair.Proofs.Colors
import GridRepair.Proofs.Windows
import GridRepair.Proofs.Traversal
import GridRepair.Proofs.Rendering
