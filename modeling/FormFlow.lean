import FormFlow.Text.Blank
import FormFlow.Text.Lowercase
import FormFlow.Text.Printable
import FormFlow.Text.DecimalDigit
import FormFlow.Text.Quoted
import FormFlow.Table
import FormFlow.Json
import FormFlow.Decimal.Notation
import FormFlow.Sorting
import FormFlow.Text.Order
import FormFlow.Json.Reader
import FormFlow.Json.Printer
import FormFlow.Json.Canonical
import FormFlow.Json.Display
import FormFlow.Digest.Sha256
import FormFlow.Alias
import FormFlow.GraphOrder
import FormFlow.Text.Integer
import FormFlow.Schema
import FormFlow.Schema.Scalar
import FormFlow.Schema.Fields
import FormFlow.App.Reading
import FormFlow.App.Writing
import FormFlow.Validation
import FormFlow.Shape
import FormFlow.Failure
import FormFlow.Provider
import FormFlow.Prompt
import FormFlow.Execution
import FormFlow.App.Normalization
import FormFlow.Settings
import FormFlow.Compilation
import FormFlow.Session
import FormFlow.Environment
import FormFlow.Provider.Client
import FormFlow.Json.Loose
import FormFlow.Directory
import FormFlow.Command
import FormFlow.Command.Clock
import FormFlow.Main
import FormFlow.Proofs.AliasPriority
import FormFlow.Proofs.ReleaseOrder
import FormFlow.Proofs.TemplateScan
import FormFlow.Proofs.Acceptance
import FormFlow.Proofs.RunFaults
import FormFlow.Proofs.PromptKeys
import FormFlow.Proofs.CompiledRun
import FormFlow.Proofs.OutputProjection
import FormFlow.Proofs.WellFormed
import FormFlow.Proofs.RunSteps
import FormFlow.Proofs.RunOrder
import FormFlow.Proofs.RunPatch
import FormFlow.Proofs.Reordering
import FormFlow.Proofs.Readings
import FormFlow.Proofs.DistinctKeys
import FormFlow.Proofs.NumbersInside
import FormFlow.Proofs.ReadBack
import FormFlow.Proofs.StateReads
import FormFlow.Proofs.PatchOrigin
import FormFlow.Proofs.NormalForm
import FormFlow.Proofs.Respelling
import FormFlow.Proofs.MemberOrder
import FormFlow.Proofs.ReadingOrder
import FormFlow.Proofs.CompileOrder
import FormFlow.Proofs.CompileFailure
import FormFlow.Proofs.RunClosure
import FormFlow.Proofs.AliasOrder
import FormFlow.Proofs.LooseNames
import FormFlow.Proofs.References
import FormFlow.Proofs.ArtifactPaths
import FormFlow.Proofs.ReferenceSpelling
import FormFlow.Proofs.Composition
import FormFlow.Proofs.ReleaseBroods
import FormFlow.Proofs.ReleaseLayers
import FormFlow.Proofs.ReadTokens
import FormFlow.Proofs.Rereading
import FormFlow.Proofs.CanonicalText
import FormFlow.Proofs.Grammar
import FormFlow.Proofs.ReaderSteps
import FormFlow.Proofs.StrictTokens
import FormFlow.Proofs.StrictReading
import FormFlow.Proofs.EncodedAnswers
import FormFlow.Proofs.Bindings
import FormFlow.Proofs.Overflow
import FormFlow.Proofs.WrittenNumbers
import FormFlow.Proofs.Spelling
import FormFlow.Proofs.FiniteAnswers
import FormFlow.Proofs.FinitePatch
import FormFlow.Proofs.KeyLetters
