import Marginalia.Anchor
import Marginalia.Block.Basic
import Marginalia.Block.Reader
import Marginalia.Cache.Basic
import Marginalia.Cache.Shelf
import Marginalia.Cache.Slot
import Marginalia.Command.Options
import Marginalia.Command.Run
import Marginalia.Declaration
import Marginalia.Dict
import Marginalia.Digest.Sha256
import Marginalia.Document.Audit
import Marginalia.Document.Basic
import Marginalia.Document.File
import Marginalia.Document.Source
import Marginalia.Document.Stored
import Marginalia.Document.Summary
import Marginalia.Event
import Marginalia.Fault
import Marginalia.Files.Collect
import Marginalia.Files.Path
import Marginalia.Files.Stamp
import Marginalia.Files.Tree
import Marginalia.Json.Reader
import Marginalia.Json.Writer
import Marginalia.Kind
import Marginalia.Main
import Marginalia.Markup.Containers
import Marginalia.Markup.Escape
import Marginalia.Markup.Inline
import Marginalia.Markup.Link
import Marginalia.Markup.Prose
import Marginalia.Markup.Table
import Marginalia.Number.Binary64
import Marginalia.Number.Rounding
import Marginalia.Page.Basic
import Marginalia.Page.Render
import Marginalia.Page.Style
import Marginalia.Pattern.Basic
import Marginalia.Pattern.Reader
import Marginalia.Profile
import Marginalia.Proofs.Alike
import Marginalia.Proofs.Audit
import Marginalia.Proofs.Collected
import Marginalia.Proofs.Digits
import Marginalia.Proofs.Drafts
import Marginalia.Proofs.Escape
import Marginalia.Proofs.Extraction
import Marginalia.Proofs.Fallible
import Marginalia.Proofs.Files
import Marginalia.Proofs.Fingerprint
import Marginalia.Proofs.History
import Marginalia.Proofs.Json
import Marginalia.Proofs.Lines
import Marginalia.Proofs.Literals
import Marginalia.Proofs.Lower
import Marginalia.Proofs.Numeral
import Marginalia.Proofs.PageOrder
import Marginalia.Proofs.PageTags
import Marginalia.Proofs.Pairing
import Marginalia.Proofs.Php
import Marginalia.Proofs.Printed
import Marginalia.Proofs.ProseTags
import Marginalia.Proofs.Reopened
import Marginalia.Proofs.Requests
import Marginalia.Proofs.Reread
import Marginalia.Proofs.Rewriting
import Marginalia.Proofs.Rounding
import Marginalia.Proofs.Scan
import Marginalia.Proofs.Shelf
import Marginalia.Proofs.Shortest
import Marginalia.Proofs.Sorted
import Marginalia.Proofs.Stored
import Marginalia.Proofs.TagTexts
import Marginalia.Proofs.Tags
import Marginalia.Proofs.Text
import Marginalia.Segment
import Marginalia.Settings.Basic
import Marginalia.Settings.Defaults
import Marginalia.Settings.File
import Marginalia.Settings.Fingerprint
import Marginalia.Skeleton
import Marginalia.Text.Basic
import Marginalia.Text.Case
import Marginalia.Text.Digits
import Marginalia.Text.Fold
import Marginalia.Text.Printable
import Marginalia.Text.Quoted
import Marginalia.Text.Utf8
import Marginalia.Text.Word
import Marginalia.Value.Basic
import Marginalia.Value.Flat
import Marginalia.Value.Merge
import Marginalia.Value.Shown
import Marginalia.Yaml.Cursor
import Marginalia.Yaml.Reader
import Marginalia.Yaml.Resolve
import Marginalia.Yaml.Scalar
import Marginalia.Yaml.Token
import Marginalia.Proofs.Border
import Marginalia.Proofs.Streaming
import Marginalia.Proofs.Placeholder
import Marginalia.Proofs.Layout
import Marginalia.Proofs.Attributes
import Marginalia.Proofs.Fences
import Marginalia.Proofs.Anchors
import Marginalia.Proofs.Jumps
import Marginalia.Proofs.Links
import Marginalia.Proofs.Outside
import Marginalia.Proofs.Elements
import Marginalia.Proofs.Actions
import Marginalia.Proofs.Inline
import Marginalia.Proofs.PageFiles
import Marginalia.Proofs.ProseWords
import Marginalia.Proofs.KeywordPattern
import Marginalia.Proofs.Keywords
import Marginalia.Proofs.Arguments
import Marginalia.Proofs.Listing
import Marginalia.Proofs.Words
import Marginalia.Proofs.DraftWords
import Marginalia.Proofs.Grouping
import Marginalia.Proofs.AuditRules
import Marginalia.Proofs.Slices
import Marginalia.Proofs.NormalCode
import Marginalia.Proofs.Merging
import Marginalia.Proofs.Lookup
import Marginalia.Proofs.Repeats
import Marginalia.Proofs.Damage
import Marginalia.Proofs.Races
import Marginalia.Proofs.Cursor
import Marginalia.Proofs.Sheet
import Marginalia.Proofs.Numbering
import Marginalia.Proofs.Containers
