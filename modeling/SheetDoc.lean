import SheetDoc.Tag.Custom
import SheetDoc.Run.Batch
import SheetDoc.Run.Stream
import SheetDoc.Config.File
import SheetDoc.Proofs.Steps
import SheetDoc.Proofs.Store.Layout
import SheetDoc.Proofs.Store.Users
import SheetDoc.Proofs.Linking.Growth
import SheetDoc.Proofs.Lookup
import SheetDoc.Proofs.Tag.Standard
import SheetDoc.Proofs.Linking.Frame
import SheetDoc.Proofs.Linking.Outcome
import SheetDoc.Proofs.Linking.Requires
import SheetDoc.Proofs.Linking.Totality
import SheetDoc.Proofs.Linking.Reciprocity
import SheetDoc.Proofs.Extraction.Source
import SheetDoc.Proofs.Record.Fields
import SheetDoc.Proofs.Extraction.Typed
import SheetDoc.Proofs.Run.Isolation
import SheetDoc.Proofs.Tag.Frame
import SheetDoc.Proofs.Extraction.Draft
import SheetDoc.Proofs.Run.Prepared
import SheetDoc.Proofs.Extraction.Precedence
import SheetDoc.Proofs.Order.Sorted
import SheetDoc.Proofs.Block.Spans
import SheetDoc.Proofs.Run.Strictness
import SheetDoc.Proofs.Extraction.Styles
import SheetDoc.Proofs.Extraction.Requirements
import SheetDoc.Proofs.Extraction.Detached
import SheetDoc.Proofs.Store.Index
import SheetDoc.Proofs.Linking.Pointers
import SheetDoc.Proofs.Linking.Problems
import SheetDoc.Proofs.Linking.References
import SheetDoc.Proofs.Run.References
import SheetDoc.Proofs.Linking.Suggestions
import SheetDoc.Proofs.Run.Suggestions
import SheetDoc.Proofs.Block.Places
import SheetDoc.Proofs.Extraction.Warnings
import SheetDoc.Proofs.Extraction.Access
import SheetDoc.Proofs.Text.Lowercase
import SheetDoc.Proofs.Data.Merge
import SheetDoc.Proofs.Config.Rebuilt
import SheetDoc.Proofs.Store.Aliases
import SheetDoc.Proofs.Linking.Aliases
import SheetDoc.Proofs.Linking.Again
import SheetDoc.Proofs.Run.Closed
import SheetDoc.Proofs.Run.Passes
import SheetDoc.Proofs.Run.Bookkeeping
import SheetDoc.Proofs.Run.Agreement
import SheetDoc.Proofs.Run.Repeats
import SheetDoc.Proofs.Tag.Registration
import SheetDoc.Proofs.Tag.Refusal
import SheetDoc.Proofs.Extraction.Said
import SheetDoc.Proofs.Extraction.Descriptions
import SheetDoc.Proofs.Extraction.Declared
import SheetDoc.Proofs.Run.Origins
import SheetDoc.Proofs.Run.Ending
import SheetDoc.Proofs.Run.Descriptions
import SheetDoc.Proofs.Run.Declarations
import SheetDoc.Proofs.Store.AliasWalk
import SheetDoc.Proofs.Store.UsageTree
import SheetDoc.Proofs.Linking.UsageTree
import SheetDoc.Proofs.Extraction.Names
import SheetDoc.Proofs.Run.Ungrouped
import SheetDoc.Proofs.Run.Collected
import SheetDoc.Proofs.Store.Additions
import SheetDoc.Proofs.Store.Search
import SheetDoc.Proofs.Extraction.Turns
import SheetDoc.Proofs.Extraction.Kinds
import SheetDoc.Proofs.Comment.Indent
import SheetDoc.Proofs.Extraction.Blockwise
import SheetDoc.Proofs.Extraction.Gathered
import SheetDoc.Proofs.Extraction.Unknown
import SheetDoc.Proofs.Extraction.Additive
import SheetDoc.Proofs.Code.Nesting
import SheetDoc.Proofs.Code.Signatures
import SheetDoc.Proofs.Code.Commented
import SheetDoc.Proofs.Extraction.Signatures
import SheetDoc.Proofs.Block.Assignments
import SheetDoc.Proofs.Comment.Samples
import SheetDoc.Proofs.Extraction.Samples
import SheetDoc.Proofs.Block.Constructs
import SheetDoc.Proofs.Text.Squeeze
import SheetDoc.Proofs.Code.Layout
import SheetDoc.Proofs.Code.Notes
import SheetDoc.Proofs.Tag.Notes
import SheetDoc.Proofs.Tag.Entries
import SheetDoc.Proofs.Tag.Requirements
import SheetDoc.Proofs.Data.Levels
import SheetDoc.Proofs.Tag.Replacement
import SheetDoc.Proofs.Linking.Touched
import SheetDoc.Proofs.Code.Separators
import SheetDoc.Proofs.Code.Urls
import SheetDoc.Proofs.Tag.Urls
import SheetDoc.Proofs.Data.Comparison
import SheetDoc.Proofs.Record.Lossless
import SheetDoc.Proofs.Extraction.Fillings
