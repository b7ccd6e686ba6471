import Shading.Accessor
import Shading.Program.Declare
import Shading.Program.Query
import Shading.StructRef
import Shading.Proofs.Outcome
import Shading.Proofs.Collection
import Shading.Proofs.Structs
import Shading.Proofs.Body.Script
import Shading.Proofs.Body.Hygiene
import Shading.Proofs.Number.Nearest
import Shading.Proofs.Number.Shortest
import Shading.Proofs.Reading.Grammar
import Shading.Proofs.Reading.Regroup
import Shading.Proofs.Reading.RoundTrip
import Shading.Proofs.Reading.Constants
import Shading.Proofs.Reading.Lexer
import Shading.Proofs.Reading.Scanning
import Shading.Proofs.Reading.Languages
import Shading.Proofs.Reading.Written
import Shading.Proofs.Reading.Targets
import Shading.Proofs.Reading.Value
import Shading.Proofs.Reading.Translation
import Shading.Proofs.Reading.Literals
import Shading.Proofs.Usage.Notes
import Shading.Proofs.Usage.Events
import Shading.Proofs.Usage.Unbounded
import Shading.Proofs.Usage.Expansion
import Shading.Proofs.Usage.Recursion
import Shading.Proofs.Usage.Coverage
import Shading.Proofs.Program.Answers
import Shading.Proofs.Program.Reachable
import Shading.Proofs.Program.Growth
import Shading.Proofs.Layout.Free
import Shading.Proofs.Layout.Bindings
import Shading.Proofs.Layout.Locations
import Shading.Proofs.Layout.Sides
import Shading.Proofs.Code.Leaving
import Shading.Proofs.Code.Mentions
import Shading.Proofs.Code.Typing
import Shading.Proofs.Code.Scoping
import Shading.Proofs.Wgsl.Interface
import Shading.Proofs.Wgsl.Linking
import Shading.Proofs.Wgsl.Exits
import Shading.Proofs.Emission.Inventory
import Shading.Proofs.Glsl.Mentions
import Shading.Proofs.Glsl.Closed
import Shading.Proofs.Wgsl.Mentions
import Shading.Proofs.Wgsl.Closed
import Shading.Proofs.Emission.Closed
import Shading.Proofs.Emission.Text
import Shading.Proofs.Emission.Structs
import Shading.Proofs.Wgsl.FallThrough
import Shading.Proofs.Wgsl.StageValues
import Shading.Proofs.Code.Failures
import Shading.Proofs.Wgsl.Failures
import Shading.Proofs.Emission.Lookups
import Shading.Proofs.Emission.Failures
import Shading.Proofs.Emission.Persistence
import Shading.Proofs.Program.Stability
import Shading.Proofs.Program.Acceptance
import Shading.Proofs.Program.Ahead
import Shading.Proofs.Program.Observation
import Shading.Proofs.Program.NameSpaces
import Shading.Proofs.Program.Ledger
import Shading.Proofs.Program.StructNames
import Shading.Proofs.Program.Locals
import Shading.Proofs.Glsl.BlockNames
import Shading.Proofs.Emission.StructOrder
import Shading.Proofs.Layout.Requests
import Shading.Proofs.Emission.Locations
import Shading.Proofs.Product
import Shading.Proofs.Glsl.Availability
import Shading.Proofs.Code.Stores
import Shading.Proofs.Glsl.Predeclared
import Shading.Proofs.Emission.Color
import Shading.Proofs.Emission.TopLevel
import Shading.Proofs.Emission.DistinctNames
import Shading.Proofs.Access
import Shading.Proofs.Emission.Varyings
import Shading.Proofs.Reading.Channels
import Shading.Proofs.Reading.Types
