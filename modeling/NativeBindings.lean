import NativeBindings.Main
import NativeBindings.Files.Tree
import NativeBindings.Proofs.HostName.Decoding
import NativeBindings.Proofs.HostModule.Rendering
import NativeBindings.Proofs.Stanza.Call
import NativeBindings.Proofs.Generation.Outcome
import NativeBindings.Proofs.TypeExpr.Accepted
import NativeBindings.Proofs.Signature.Explicit
import NativeBindings.Proofs.Signature.Faithful
import NativeBindings.Proofs.Signature.Generators
import NativeBindings.Proofs.HostModule.Agreement
import NativeBindings.Proofs.Specification.Accounting
import NativeBindings.Proofs.TypeExpr.Printing
import NativeBindings.Proofs.NativeType.Respelling
import NativeBindings.Proofs.HostModule.Order
import NativeBindings.Proofs.TypeTable.Support
import NativeBindings.Proofs.TypeExpr.RoundTrip
import NativeBindings.Proofs.HostModule.ListedTypes
import NativeBindings.Proofs.HostModule.Growth
import NativeBindings.Proofs.Files.Path
import NativeBindings.Proofs.Files.Tree
import NativeBindings.Proofs.Files.Frame
import NativeBindings.Proofs.Generation.Completion
import NativeBindings.Proofs.Generation.Overwrite
import NativeBindings.Proofs.Declaration.Expansion
import NativeBindings.Proofs.HostModule.Sides
import NativeBindings.Proofs.Configuration.Beside
import NativeBindings.Proofs.Program.Refusal
import NativeBindings.Proofs.Listing.Drafts
import NativeBindings.Proofs.Json.Scalars
import NativeBindings.Proofs.Json.Tables
import NativeBindings.Proofs.Json.Listings
import NativeBindings.Proofs.Toml.Scalars
import NativeBindings.Proofs.Toml.Tables
import NativeBindings.Proofs.Toml.Listings
import NativeBindings.Proofs.Listing.Writable
import NativeBindings.Proofs.Specification.Formats
import NativeBindings.Proofs.HostModule.Respelled
import NativeBindings.Proofs.HostModule.Factories
import NativeBindings.Proofs.Stanza.Binders
import NativeBindings.Proofs.Configuration.NormalForm
import NativeBindings.Proofs.HostName.Legality
import NativeBindings.Proofs.Text.Position
import NativeBindings.Proofs.KeepFirst.Stability
import NativeBindings.Proofs.Workspace.Located
