import DataShape.Text.Blank
import DataShape.Text.Digits
import DataShape.Binary64
import DataShape.Decimal.Basic
import DataShape.Decimal.Shortest
import DataShape.Decimal.Layout
import DataShape.DeclaredKey
import DataShape.Number.Basic
import DataShape.Number.Text
import DataShape.Json.Conversion
import DataShape.Json.Document
import DataShape.Json.Writer
import DataShape.Json.Reader
import DataShape.Fields
import DataShape.Value.Basic
import DataShape.Value.Json
import DataShape.Value.Path
import DataShape.Text.Faceless
import DataShape.Text.Quoted
import DataShape.Text.Description
import DataShape.Value.Describe
import DataShape.Value.Workspace
import DataShape.Value.Heap
import DataShape.Value.Store
import DataShape.Checker.Basic
import DataShape.Checker.Check
import DataShape.Checker.Describe
import DataShape.Descriptor.Basic
import DataShape.Descriptor.Document
import DataShape.Descriptor.Compile
import DataShape.Descriptor.Describe
import DataShape.Descriptor.Text
import DataShape.Registry.Basic
import DataShape.Registry.Shared
import DataShape.Session
import DataShape.Proofs.Pointwise
import DataShape.Proofs.Check.Question
import DataShape.Proofs.Check.Stack
import DataShape.Proofs.Check.Termination
import DataShape.Proofs.Check.Acceptance
import DataShape.Proofs.Check.Resolution
import DataShape.Proofs.Check.Reentry
import DataShape.Proofs.Check.Observation
import DataShape.Proofs.Check.Likeness
import DataShape.Proofs.Check.Correspondence
import DataShape.Proofs.Check.Isolation
import DataShape.Proofs.Check.Renumbering
import DataShape.Proofs.Shape.Declarations
import DataShape.Proofs.Descriptor.Compiled
import DataShape.Proofs.Descriptor.RoundTrip
import DataShape.Proofs.Descriptor.Rebound
import DataShape.Proofs.Descriptor.Merged
import DataShape.Proofs.Decimal.Rounding
import DataShape.Proofs.Decimal.Shortest
import DataShape.Proofs.Json.Numeral
import DataShape.Proofs.Json.Spelling
import DataShape.Proofs.Json.Quote
import DataShape.Proofs.Json.Layout
import DataShape.Proofs.Json.Building
import DataShape.Proofs.Json.RoundTrip
import DataShape.Proofs.Value.RoundTrip
import DataShape.Proofs.Registry.Operations
import DataShape.Proofs.Registry.Usage
import DataShape.Proofs.Registry.FreshNumbers
import DataShape.Proofs.Registry.Handles
import DataShape.Proofs.Registry.Numbering
import DataShape.Proofs.Registry.Growth
import DataShape.Proofs.Registry.Cycle
import DataShape.Proofs.Registry.Soundness
import DataShape.Proofs.Registry.Definitions
import DataShape.Proofs.Registry.Order
import DataShape.Proofs.Registry.Dependence
import DataShape.Proofs.Registry.Families
import DataShape.Proofs.Check.Plan
import DataShape.Proofs.Check.Sequence
import DataShape.Proofs.Number.Value
import DataShape.Proofs.Number.Literal
import DataShape.Proofs.Number.Text
import DataShape.Proofs.Value.Text
import DataShape.Proofs.Registry.Defining
import DataShape.Proofs.Registry.ReportedCycle
import DataShape.Proofs.Check.Finding
import DataShape.Proofs.Registry.Resolved
import DataShape.Proofs.Descriptor.FirstFault
import DataShape.Proofs.Value.Reading
import DataShape.Proofs.Descriptor.Rereading
import DataShape.Proofs.Value.Equality
import DataShape.Proofs.Value.Editing
import DataShape.Proofs.Value.Heap
import DataShape.Proofs.Value.CopyOnWrite
import DataShape.Proofs.Value.Walk
import DataShape.Proofs.Value.Store
import DataShape.Proofs.Value.Sharing
import DataShape.Proofs.Shape.Key
import DataShape.Proofs.Shape.Acceptance
import DataShape.Proofs.Number.Readers
