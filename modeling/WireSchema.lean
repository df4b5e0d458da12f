import WireSchema.Text.Basic
import WireSchema.Text.Lines
import WireSchema.Text.Quoted
import WireSchema.Text.Hidden
import WireSchema.Text.Shown
import WireSchema.Error
import WireSchema.Name
import WireSchema.Setting
import WireSchema.Field
import WireSchema.Enum
import WireSchema.Extension
import WireSchema.TypeDecl
import WireSchema.Service
import WireSchema.File
import WireSchema.Render.Layout
import WireSchema.Render.Setting
import WireSchema.Render.Member
import WireSchema.Render.TypeDecl
import WireSchema.Render.File
import WireSchema.Tags
import WireSchema.Json.Decimal
import WireSchema.Json.Basic
import WireSchema.Json.Printer
import WireSchema.Json.Nesting
import WireSchema.Json.Token
import WireSchema.Json.Reader
import WireSchema.Codec.Error
import WireSchema.Codec.Basic
import WireSchema.Codec.Setting
import WireSchema.Codec.Member
import WireSchema.Codec.TypeDecl
import WireSchema.Codec.File
import WireSchema.Outline
import WireSchema.Draft
import WireSchema.Proofs.Texts
import WireSchema.Proofs.Layout
import WireSchema.Proofs.LaidOut
import WireSchema.Proofs.Indentation
import WireSchema.Proofs.Elements
import WireSchema.Proofs.Obtainable
import WireSchema.Proofs.Decoded
import WireSchema.Proofs.RoundTrip
import WireSchema.Proofs.Walk
import WireSchema.Proofs.TagLaw
import WireSchema.Proofs.Lexical
import WireSchema.Proofs.Entries
import WireSchema.Proofs.Heads
import WireSchema.Proofs.Skeleton
import WireSchema.Proofs.CodeLines
import WireSchema.Proofs.Undocumented
import WireSchema.Proofs.WellFormed
import WireSchema.Proofs.Shape
import WireSchema.Proofs.Agreement
import WireSchema.Proofs.Flat
import WireSchema.Proofs.Literal
import WireSchema.Proofs.Readable
import WireSchema.Proofs.Quotes
import WireSchema.Proofs.Strings
import WireSchema.Proofs.CustomSettings
import WireSchema.Proofs.FirstClash
import WireSchema.Proofs.BlankLines
import WireSchema.Proofs.Spacing
import WireSchema.Proofs.WholeLines
import WireSchema.Proofs.NestedComments
import WireSchema.Proofs.PathComment
import WireSchema.Proofs.Squeezed
import WireSchema.Proofs.TextFormat
import WireSchema.Proofs.TokenCheck
import WireSchema.Proofs.PathOrder
import WireSchema.Proofs.Padding
import WireSchema.Proofs.RangeForms
import WireSchema.Proofs.Outdent
