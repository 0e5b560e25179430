import ShaderGraft.Builder
import ShaderGraft.Builder.Call
import ShaderGraft.CommandLine.Commands
import ShaderGraft.CommandLine.Flags
import ShaderGraft.Config.Basic
import ShaderGraft.Config.LogLevel
import ShaderGraft.Config.Parse
import ShaderGraft.Constant
import ShaderGraft.Decimal.Layout
import ShaderGraft.Decimal.Shortest
import ShaderGraft.Directory
import ShaderGraft.DistanceField
import ShaderGraft.Evaluator.Basic
import ShaderGraft.Evaluator.Error
import ShaderGraft.Evaluator.Host
import ShaderGraft.Evaluator.IdMap
import ShaderGraft.Evaluator.Run
import ShaderGraft.Evaluator.Stack
import ShaderGraft.Evaluator.Value
import ShaderGraft.HostType
import ShaderGraft.Injector
import ShaderGraft.Instruction
import ShaderGraft.Interface
import ShaderGraft.Jit
import ShaderGraft.Ledger
import ShaderGraft.Literal
import ShaderGraft.Loading
import ShaderGraft.Main
import ShaderGraft.Module.Basic
import ShaderGraft.Module.Declare
import ShaderGraft.Module.Edit
import ShaderGraft.Module.Listing
import ShaderGraft.Module.Lookup
import ShaderGraft.Module.Parse
import ShaderGraft.Module.Scan
import ShaderGraft.NameHash
import ShaderGraft.Numeric.Extrema
import ShaderGraft.Numeric.Host
import ShaderGraft.Numeric.Trigonometry
import ShaderGraft.Opcode
import ShaderGraft.Proofs.Activations
import ShaderGraft.Proofs.Answering
import ShaderGraft.Proofs.Building
import ShaderGraft.Proofs.ByteOrder
import ShaderGraft.Proofs.Calls
import ShaderGraft.Proofs.Canonical
import ShaderGraft.Proofs.Changes
import ShaderGraft.Proofs.Collisions
import ShaderGraft.Proofs.Compilation
import ShaderGraft.Proofs.CompileLogic
import ShaderGraft.Proofs.Completeness
import ShaderGraft.Proofs.ConstantEncoding
import ShaderGraft.Proofs.ConstantValues
import ShaderGraft.Proofs.ContextFreedom
import ShaderGraft.Proofs.Correctness
import ShaderGraft.Proofs.DeclarationOrder
import ShaderGraft.Proofs.Emission
import ShaderGraft.Proofs.Encoding
import ShaderGraft.Proofs.Escapes
import ShaderGraft.Proofs.Execution
import ShaderGraft.Proofs.FieldArguments
import ShaderGraft.Proofs.Footprint
import ShaderGraft.Proofs.Freshness
import ShaderGraft.Proofs.Glyphs
import ShaderGraft.Proofs.Grammar
import ShaderGraft.Proofs.Growth
import ShaderGraft.Proofs.Ids
import ShaderGraft.Proofs.Independence
import ShaderGraft.Proofs.Injection
import ShaderGraft.Proofs.Layout
import ShaderGraft.Proofs.Listings
import ShaderGraft.Proofs.Literals
import ShaderGraft.Proofs.LogLines
import ShaderGraft.Proofs.Lookups
import ShaderGraft.Proofs.Meaning
import ShaderGraft.Proofs.NameHashing
import ShaderGraft.Proofs.Persistence
import ShaderGraft.Proofs.Precedence
import ShaderGraft.Proofs.ReadingOrder
import ShaderGraft.Proofs.Reflection
import ShaderGraft.Proofs.Refusals
import ShaderGraft.Proofs.Reinjection
import ShaderGraft.Proofs.Results
import ShaderGraft.Proofs.RoundTrip
import ShaderGraft.Proofs.RunLogic
import ShaderGraft.Proofs.Samples
import ShaderGraft.Proofs.Scanning
import ShaderGraft.Proofs.Scoping
import ShaderGraft.Proofs.Serving
import ShaderGraft.Proofs.Sharing
import ShaderGraft.Proofs.Simulation
import ShaderGraft.Proofs.Survival
import ShaderGraft.Proofs.Tables
import ShaderGraft.Proofs.Targets
import ShaderGraft.Proofs.TypeDeclaring
import ShaderGraft.Proofs.TypeIdentity
import ShaderGraft.Proofs.TypeReading
import ShaderGraft.Proofs.TypeTexts
import ShaderGraft.Proofs.TypedInjection
import ShaderGraft.Proofs.Typing
import ShaderGraft.Record
import ShaderGraft.Sample
import ShaderGraft.Serializer
import ShaderGraft.Text.Base64
import ShaderGraft.Text.Glyph
import ShaderGraft.Text.Json
import ShaderGraft.Text.LogLine
import ShaderGraft.Text.Lowercase
import ShaderGraft.Text.Number
import ShaderGraft.Text.Printable
import ShaderGraft.Text.Quoted
import ShaderGraft.Text.Table
import ShaderGraft.Tree.Basic
import ShaderGraft.Tree.Context
import ShaderGraft.Tree.Serialize
import ShaderGraft.ValueType.Basic
import ShaderGraft.ValueType.Declare
import ShaderGraft.ValueType.Parse
import ShaderGraft.Word
import ShaderGraft.Workspace
import ShaderGraft.Yaml.Node
import ShaderGraft.Yaml.Scalar
import ShaderGraft.Yaml.Scan
import ShaderGraft.Yaml.Source
import ShaderGraft.Yaml.Tag
import ShaderGraft.Yaml.Timestamp
import ShaderGraft.Yaml.Token
import ShaderGraft.Yaml.Value
