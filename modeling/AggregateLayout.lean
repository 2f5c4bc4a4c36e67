import AggregateLayout.Aggregate
import AggregateLayout.Batch
import AggregateLayout.Catalog
import AggregateLayout.Catalog.Primitive
import AggregateLayout.CommandLine
import AggregateLayout.CommandLine.Reader
import AggregateLayout.DebugInfo
import AggregateLayout.DebugInfo.Conversion
import AggregateLayout.Decimal.Division
import AggregateLayout.Decimal.Dyadic
import AggregateLayout.Decimal.Fixed
import AggregateLayout.Decimal.Numeral
import AggregateLayout.Decimal.Shortest
import AggregateLayout.Description
import AggregateLayout.Description.Reader
import AggregateLayout.Disjointness
import AggregateLayout.Document
import AggregateLayout.Document.Inline
import AggregateLayout.Document.Reader
import AggregateLayout.Document.Same
import AggregateLayout.Document.Whole
import AggregateLayout.Document.Writer
import AggregateLayout.Environment
import AggregateLayout.Environment.File
import AggregateLayout.FileTree
import AggregateLayout.Input
import AggregateLayout.Layout
import AggregateLayout.Layout.Placer
import AggregateLayout.Layout.Target
import AggregateLayout.LayoutError
import AggregateLayout.Log
import AggregateLayout.Main
import AggregateLayout.Measure
import AggregateLayout.ObjectFile
import AggregateLayout.Packing
import AggregateLayout.Path
import AggregateLayout.PowerOfTwo
import AggregateLayout.Profile
import AggregateLayout.Profile.Builtin
import AggregateLayout.Profile.Custom
import AggregateLayout.Progress
import AggregateLayout.Progress.Scope
import AggregateLayout.Proofs.Abreast
import AggregateLayout.Proofs.Acceptance
import AggregateLayout.Proofs.Agreeing
import AggregateLayout.Proofs.Allocating
import AggregateLayout.Proofs.Arranging
import AggregateLayout.Proofs.ArraySizes
import AggregateLayout.Proofs.BaseNames
import AggregateLayout.Proofs.Blocks
import AggregateLayout.Proofs.ByteRestart
import AggregateLayout.Proofs.ChainSizes
import AggregateLayout.Proofs.Chains
import AggregateLayout.Proofs.Choosing
import AggregateLayout.Proofs.Compacting
import AggregateLayout.Proofs.Converting
import AggregateLayout.Proofs.Cycles
import AggregateLayout.Proofs.Denoting
import AggregateLayout.Proofs.Descent
import AggregateLayout.Proofs.Describing
import AggregateLayout.Proofs.Dimensions
import AggregateLayout.Proofs.Drawing
import AggregateLayout.Proofs.Earliest
import AggregateLayout.Proofs.Entering
import AggregateLayout.Proofs.Expansion
import AggregateLayout.Proofs.Failing
import AggregateLayout.Proofs.Fallbacks
import AggregateLayout.Proofs.FieldRuns
import AggregateLayout.Proofs.FileWrites
import AggregateLayout.Proofs.Filled
import AggregateLayout.Proofs.Findings
import AggregateLayout.Proofs.Fronts
import AggregateLayout.Proofs.Gathering
import AggregateLayout.Proofs.Grouping
import AggregateLayout.Proofs.Hinting
import AggregateLayout.Proofs.Idempotence
import AggregateLayout.Proofs.Infallible
import AggregateLayout.Proofs.IntegerLayouts
import AggregateLayout.Proofs.IntegerPackings
import AggregateLayout.Proofs.IntegerVerdicts
import AggregateLayout.Proofs.Integers
import AggregateLayout.Proofs.Isolation
import AggregateLayout.Proofs.Layouting
import AggregateLayout.Proofs.Lays
import AggregateLayout.Proofs.Lengths
import AggregateLayout.Proofs.Locations
import AggregateLayout.Proofs.LongNumbers
import AggregateLayout.Proofs.Lookup
import AggregateLayout.Proofs.Malformed
import AggregateLayout.Proofs.Minimality
import AggregateLayout.Proofs.Mirroring
import AggregateLayout.Proofs.Missing
import AggregateLayout.Proofs.NameBytes
import AggregateLayout.Proofs.Namesakes
import AggregateLayout.Proofs.Neighbours
import AggregateLayout.Proofs.Nesting
import AggregateLayout.Proofs.NormalNames
import AggregateLayout.Proofs.Occurrences
import AggregateLayout.Proofs.Overlaps
import AggregateLayout.Proofs.Paths
import AggregateLayout.Proofs.Placements
import AggregateLayout.Proofs.Placing
import AggregateLayout.Proofs.Plain
import AggregateLayout.Proofs.Qualifiers
import AggregateLayout.Proofs.Reading
import AggregateLayout.Proofs.References
import AggregateLayout.Proofs.Refusal
import AggregateLayout.Proofs.Registration
import AggregateLayout.Proofs.Rejections
import AggregateLayout.Proofs.Remembering
import AggregateLayout.Proofs.Reordering
import AggregateLayout.Proofs.Repackable
import AggregateLayout.Proofs.Repacking
import AggregateLayout.Proofs.ReportFiles
import AggregateLayout.Proofs.Reporting
import AggregateLayout.Proofs.Resolving
import AggregateLayout.Proofs.Resting
import AggregateLayout.Proofs.RoundUp
import AggregateLayout.Proofs.Rows
import AggregateLayout.Proofs.Scopes
import AggregateLayout.Proofs.Selection
import AggregateLayout.Proofs.Separation
import AggregateLayout.Proofs.Settling
import AggregateLayout.Proofs.Sorting
import AggregateLayout.Proofs.Sound
import AggregateLayout.Proofs.Stacking
import AggregateLayout.Proofs.Steps
import AggregateLayout.Proofs.Tiling
import AggregateLayout.Proofs.Tiling.Extent
import AggregateLayout.Proofs.Tiling.Placer
import AggregateLayout.Proofs.Transparency
import AggregateLayout.Proofs.TypeChains
import AggregateLayout.Proofs.Unending
import AggregateLayout.Proofs.Unrelated
import AggregateLayout.Proofs.Unusable
import AggregateLayout.Proofs.Verdict
import AggregateLayout.Proofs.WholeLayouts
import AggregateLayout.Proofs.WholeNumbers
import AggregateLayout.Proofs.WholeWords
import AggregateLayout.Quantity
import AggregateLayout.Report
import AggregateLayout.Run
import AggregateLayout.Run.Summary
import AggregateLayout.Settings
import AggregateLayout.Settings.Tuning
import AggregateLayout.Table
import AggregateLayout.Text.Cased
import AggregateLayout.Text.Code
import AggregateLayout.Text.LowerCase
import AggregateLayout.Text.Printable
import AggregateLayout.Text.Quoted
import AggregateLayout.Text.Utf8
import AggregateLayout.Text.Utf8.Encode
import AggregateLayout.Text.Word
import AggregateLayout.TypeDescriptor
import AggregateLayout.TypeName
