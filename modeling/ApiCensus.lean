import ApiCensus.Api.Crawl
import ApiCensus.Api.Key
import ApiCensus.Assembly.Basic
import ApiCensus.Assembly.Documentation
import ApiCensus.Assembly.Members
import ApiCensus.Assembly.Naming
import ApiCensus.Assembly.RowIndex
import ApiCensus.Attribute.Arguments
import ApiCensus.Attribute.ElementKind
import ApiCensus.Attribute.EnumIndex
import ApiCensus.Attribute.EnumLookup
import ApiCensus.Attribute.EnumName
import ApiCensus.Bytes.Alignment
import ApiCensus.Bytes.Compressed
import ApiCensus.Bytes.Cursor
import ApiCensus.Bytes.LittleEndian
import ApiCensus.Bytes.Sha1
import ApiCensus.Diagnostics
import ApiCensus.Draft.Basic
import ApiCensus.Draft.Body
import ApiCensus.Draft.Heap
import ApiCensus.Draft.Image
import ApiCensus.Draft.Metadata
import ApiCensus.Draft.Rows
import ApiCensus.Draft.Tables
import ApiCensus.Fault
import ApiCensus.Feature.Bases
import ApiCensus.Feature.Census
import ApiCensus.Feature.Collector
import ApiCensus.Feature.DeclaredFramework
import ApiCensus.Feature.Exceptions
import ApiCensus.Feature.Fact
import ApiCensus.Feature.FieldAccess
import ApiCensus.Feature.Interfaces
import ApiCensus.Feature.Nullability
import ApiCensus.Feature.References
import ApiCensus.Folder
import ApiCensus.Framework
import ApiCensus.Image
import ApiCensus.Image.Headers
import ApiCensus.Metadata.CodedIndex
import ApiCensus.Metadata.CodedKind
import ApiCensus.Metadata.Heap
import ApiCensus.Metadata.Layout
import ApiCensus.Metadata.Root
import ApiCensus.Metadata.Row
import ApiCensus.Metadata.RuntimeHeader
import ApiCensus.Metadata.Table
import ApiCensus.Metadata.TableId
import ApiCensus.Metadata.TableStream
import ApiCensus.Metadata.Token
import ApiCensus.Method.Body
import ApiCensus.Method.Instruction
import ApiCensus.Method.Opcode
import ApiCensus.Package.Basic
import ApiCensus.Package.Crawl
import ApiCensus.Package.Identity
import ApiCensus.Package.Manifest
import ApiCensus.Package.Markup
import ApiCensus.Signature.Decoder
import ApiCensus.Signature.Element
import ApiCensus.Signature.Header
import ApiCensus.Signature.Plain
import ApiCensus.Signature.Primitive
import ApiCensus.Signature.Skip
import ApiCensus.Signature.Type
import ApiCensus.Text.Blank
import ApiCensus.Text.Hex
import ApiCensus.Text.Numeral
import ApiCensus.Text.Qualified
import ApiCensus.Text.Split
import ApiCensus.Proofs.Attempt
import ApiCensus.Proofs.Bytes.Reading
import ApiCensus.Text.Utf8
import ApiCensus.Proofs.Bytes.Compressed
import ApiCensus.Proofs.Signature.Encoding
import ApiCensus.Proofs.Signature.Reading
import ApiCensus.Proofs.Signature.RoundTrip
import ApiCensus.Proofs.Attribute.Visiting
import ApiCensus.Proofs.Signature.Building
import ApiCensus.Proofs.Api.Crawl
import ApiCensus.Proofs.Metadata.Columns
import ApiCensus.Proofs.Attribute.Encoding
import ApiCensus.Proofs.Attribute.Reading
import ApiCensus.Proofs.Attribute.RoundTrip
import ApiCensus.Proofs.Assembly.Opening
import ApiCensus.Proofs.Metadata.CodedIndex
import ApiCensus.Proofs.Draft.Tables
import ApiCensus.Proofs.Draft.Rows
import ApiCensus.Proofs.Feature.Agreement
import ApiCensus.Proofs.Signature.Folding
import ApiCensus.Proofs.Method.RoundTrip
import ApiCensus.Proofs.Bytes.Unread
import ApiCensus.Proofs.Signature.Tracking
import ApiCensus.Proofs.Api.Tracking
import ApiCensus.Proofs.Attribute.Knowledge
import ApiCensus.Proofs.Api.Knowledge
import ApiCensus.Proofs.Api.Descent
import ApiCensus.Proofs.Assembly.Owners
import ApiCensus.Proofs.Api.Termination
import ApiCensus.Proofs.Bytes.Passing
import ApiCensus.Proofs.Method.Walk
import ApiCensus.Proofs.Signature.Mirroring
import ApiCensus.Proofs.Signature.Skipping
import ApiCensus.Proofs.Assembly.Attributes
import ApiCensus.Proofs.Text.Utf8
import ApiCensus.Proofs.Metadata.Directory
import ApiCensus.Proofs.Attribute.Nesting
import ApiCensus.Proofs.Package.Merging
import ApiCensus.Proofs.Metadata.Heap
import ApiCensus.Proofs.Draft.Cut
import ApiCensus.Proofs.Draft.Container
import ApiCensus.Proofs.Draft.Streams
import ApiCensus.Proofs.Draft.Opening
import ApiCensus.Proofs.Draft.Headers
import ApiCensus.Proofs.Draft.Steps
import ApiCensus.Proofs.Draft.Interning
import ApiCensus.Proofs.Draft.Resolving
import ApiCensus.Proofs.Draft.Members
import ApiCensus.Proofs.Draft.Runs
import ApiCensus.Proofs.Draft.Ownership
import ApiCensus.Proofs.Bytes.TypeToken
import ApiCensus.Proofs.Draft.Body
import ApiCensus.Proofs.Attribute.Folders
import ApiCensus.Proofs.Framework.ShortName
import ApiCensus.Proofs.Feature.CanonicalText
import ApiCensus.Proofs.Metadata.CodedColumn
import ApiCensus.Proofs.Assembly.Runs
import ApiCensus.Proofs.Signature.Leading
import ApiCensus.Proofs.Assembly.Instantiation
import ApiCensus.Proofs.Feature.References
import ApiCensus.Proofs.Text.Fields
import ApiCensus.Proofs.Framework.FullName
import ApiCensus.Proofs.Feature.Exceptions
import ApiCensus.Proofs.Bytes.Rereading
import ApiCensus.Proofs.Signature.Splicing
import ApiCensus.Proofs.Assembly.Transparency
import ApiCensus.Proofs.Attribute.GenericContext
import ApiCensus.Proofs.Text.LetterCase
import ApiCensus.Proofs.Framework.LetterCase
import ApiCensus.Proofs.Framework.FolderName
import ApiCensus.Proofs.Attribute.EnumName
import ApiCensus.Proofs.Attribute.QualifiedName
import ApiCensus.Proofs.Bytes.Locality
import ApiCensus.Proofs.Method.Extent
import ApiCensus.Proofs.Assembly.TypeRows
import ApiCensus.Proofs.Assembly.Arithmetic
import ApiCensus.Proofs.Attribute.EnumIndex
import ApiCensus.Proofs.Metadata.GuidHeap
import ApiCensus.Proofs.Api.TypeName
import ApiCensus.Proofs.Bytes.CompressedForms
import ApiCensus.Proofs.Bytes.Words
import ApiCensus.Proofs.Bytes.Operations
import ApiCensus.Proofs.Bytes.Spending
import ApiCensus.Proofs.Attribute.KeyToken
import ApiCensus.Proofs.Attribute.Tally
