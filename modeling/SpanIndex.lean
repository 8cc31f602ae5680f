import SpanIndex.Host.Directory
import SpanIndex.Main
import SpanIndex.Proofs.Syntax.Place
import SpanIndex.Proofs.Syntax.Token
import SpanIndex.Proofs.Syntax.Tree
import SpanIndex.Proofs.Syntax.Item
import SpanIndex.Proofs.Syntax.Stack
import SpanIndex.Proofs.Syntax.Closing
import SpanIndex.Proofs.Syntax.Recovery
import SpanIndex.Proofs.Syntax.Parse
import SpanIndex.Proofs.Syntax.Node
import SpanIndex.Proofs.Syntax.Phrase
import SpanIndex.Proofs.Layout
import SpanIndex.Proofs.Record
import SpanIndex.Proofs.RecordLine
import SpanIndex.Proofs.Declaration
import SpanIndex.Proofs.Span
import SpanIndex.Proofs.Reread
import SpanIndex.Proofs.Relabel
import SpanIndex.Proofs.Json
import SpanIndex.Proofs.JsonLines
import SpanIndex.Proofs.Run
import SpanIndex.Proofs.LineQuery
import SpanIndex.Proofs.Toml
import SpanIndex.Proofs.Settings.Merge
import SpanIndex.Proofs.Settings.Field
import SpanIndex.Proofs.Precedence
import SpanIndex.Proofs.Logging
import SpanIndex.Proofs.FileScope
import SpanIndex.Proofs.Delimited
import SpanIndex.Proofs.Parts
import SpanIndex.Proofs.LineOwner
import SpanIndex.Proofs.Spelling
import SpanIndex.Proofs.FirstFault
import SpanIndex.Proofs.FirstMisplaced
import SpanIndex.Proofs.Comments
import SpanIndex.Proofs.Receiver
import SpanIndex.Proofs.BoundNames
import SpanIndex.Proofs.Diagnostic
import SpanIndex.Proofs.LeadingLines
