import ClassDocs.Project
import ClassDocs.Proofs.Comment
import ClassDocs.Proofs.Markup.Balance
import ClassDocs.Proofs.Markup.Display
import ClassDocs.Proofs.Markup.Ink
import ClassDocs.Proofs.Markup.Role
import ClassDocs.Proofs.Markup.Samples
import ClassDocs.Proofs.Markup.Seam
import ClassDocs.Proofs.Markup.Settled
import ClassDocs.Proofs.Naming.Legal
import ClassDocs.Proofs.Markup.TagContent
import ClassDocs.Proofs.Markup.Inline
import ClassDocs.Proofs.Markup.ReturnTags
import ClassDocs.Proofs.Markup.ReturnPieces
import ClassDocs.Proofs.Markup.ReturnPages
import ClassDocs.Proofs.Markup.ReturnGaps
import ClassDocs.Proofs.Markup.LineEnds
import ClassDocs.Proofs.Config.Isolation
import ClassDocs.Proofs.Markup.Reading
import ClassDocs.Proofs.Markup.OpenFence
import ClassDocs.Proofs.Markup.LongestMatch
import ClassDocs.Proofs.Markup.NamedBlocks
import ClassDocs.Proofs.Markup.RawFences
import ClassDocs.Proofs.Markup.Escapes
import ClassDocs.Proofs.Naming.Camel
import ClassDocs.Proofs.Naming.SnakeCase
import ClassDocs.Proofs.Config.PublicNames
import ClassDocs.Proofs.Comment.Escape
import ClassDocs.Proofs.Naming.Visibility
import ClassDocs.Proofs.Markup.Neighbours
import ClassDocs.Proofs.Markup.Payload
