import ToolSchema.Json.Reader
import ToolSchema.Main
import ToolSchema.Proofs.Schema.Documents
import ToolSchema.Proofs.Schema.MemberOrder
import ToolSchema.Proofs.Schema.Rereading
import ToolSchema.Proofs.Callable.Declaration
import ToolSchema.Proofs.Command.Normalization
import ToolSchema.Proofs.Extraction.Extractor
import ToolSchema.Proofs.Extraction.Conversion
import ToolSchema.Proofs.Callable.Arguments
import ToolSchema.Proofs.TypeExpr.Derivation
import ToolSchema.Proofs.Manifest.Cycles
import ToolSchema.Proofs.Manifest.DeclarationOrder
import ToolSchema.Proofs.Manifest.Extraction
import ToolSchema.Proofs.Manifest.Completion
import ToolSchema.Proofs.Tool.Toolbox
import ToolSchema.Proofs.Schema.Widening
import ToolSchema.Proofs.Schema.Replay
import ToolSchema.Proofs.Extraction.Documentation
import ToolSchema.Proofs.Documentation.Layouts
import ToolSchema.Proofs.Schema.Rejections
import ToolSchema.Proofs.Schema.Literals
import ToolSchema.Proofs.Tool.Response
import ToolSchema.Proofs.Documentation.Detection
import ToolSchema.Proofs.TypeExpr.Strings
import ToolSchema.Proofs.Manifest.Hygiene
import ToolSchema.Proofs.Extraction.Fragment
import ToolSchema.Proofs.Extraction.Chain
import ToolSchema.Proofs.Manifest.Search
import ToolSchema.Proofs.TypeExpr.OnePass
import ToolSchema.Proofs.TypeExpr.Optional
import ToolSchema.Proofs.Documentation.Unreadable
import ToolSchema.Proofs.Documentation.Indentation
import ToolSchema.Proofs.Extraction.Components
import ToolSchema.Proofs.Extraction.Durations
import ToolSchema.Proofs.Value.Texts
import ToolSchema.Proofs.Extraction.Dates
import ToolSchema.Proofs.Tool.Registration
import ToolSchema.Proofs.TypeExpr.Halting
