import ClassFormat.Attribute.View
import ClassFormat.ClassFile.Image
import ClassFormat.Constant.View
import ClassFormat.Main
import ClassFormat.Proofs.Bytes.Window
import ClassFormat.Proofs.Computation
import ClassFormat.Proofs.Attribute.Planting
import ClassFormat.Proofs.Attribute.Codec
import ClassFormat.Proofs.Bytes.Source
import ClassFormat.Proofs.Attribute.Scan
import ClassFormat.Proofs.Table.Store
import ClassFormat.Proofs.Attribute.Stored
import ClassFormat.Proofs.Table.Numbering
import ClassFormat.Proofs.Attribute.Reachable
import ClassFormat.Proofs.Attribute.Rows
import ClassFormat.Proofs.Attribute.RoundTrip
import ClassFormat.Proofs.Text.ModifiedUtf8
import ClassFormat.Proofs.Constant.RoundTrip
import ClassFormat.Proofs.ClassFile.Records
import ClassFormat.Proofs.ClassFile.Body
import ClassFormat.Proofs.ClassFile.RoundTrip
import ClassFormat.Proofs.Bytes.Twin
import ClassFormat.Proofs.Attribute.Follow
import ClassFormat.Proofs.Constant.Entries
import ClassFormat.Proofs.Constant.Prefix
import ClassFormat.Proofs.ClassFile.Prefix
import ClassFormat.Proofs.Text.Canonical
import ClassFormat.Proofs.Constant.Views
import ClassFormat.Proofs.Constant.Rows
import ClassFormat.Proofs.Constant.Lossless
import ClassFormat.Proofs.Table.Keeps
import ClassFormat.Proofs.Table.History
import ClassFormat.Proofs.Attribute.Forest
import ClassFormat.Proofs.Attribute.Ledger
import ClassFormat.Proofs.Attribute.Accounts
import ClassFormat.Proofs.Attribute.Session
import ClassFormat.Proofs.ClassFile.Roots
import ClassFormat.Proofs.Constant.Slots
import ClassFormat.Proofs.Lockstep
import ClassFormat.Proofs.Table.Renumber
import ClassFormat.Proofs.Attribute.Comparison
import ClassFormat.Proofs.Attribute.Styles
import ClassFormat.Proofs.Attribute.Relocation
import ClassFormat.Proofs.Table.Shape
import ClassFormat.Proofs.ClassFile.Tiling
import ClassFormat.Proofs.Attribute.Typing
import ClassFormat.Proofs.Attribute.Answers
import ClassFormat.Proofs.Constant.Answers
import ClassFormat.Proofs.ClassFile.Views
import ClassFormat.Proofs.Bytes.Checked
import ClassFormat.Proofs.Constant.Checked
import ClassFormat.Proofs.Attribute.Checked
import ClassFormat.Proofs.ClassFile.Checked
import ClassFormat.Proofs.Attribute.Progress
import ClassFormat.Proofs.Attribute.Replanting
import ClassFormat.Proofs.Attribute.Unambiguous
import ClassFormat.Proofs.Table.Beside
import ClassFormat.Proofs.Attribute.Raw
import ClassFormat.Proofs.Attribute.Depth
import ClassFormat.Proofs.Attribute.Nesting
import ClassFormat.Proofs.Attribute.Journal
import ClassFormat.Proofs.ClassFile.Listing
import ClassFormat.Proofs.Table.Registration
import ClassFormat.Proofs.Constant.Failures
import ClassFormat.Proofs.Attribute.Trail
import ClassFormat.Proofs.ClassFile.Charges
import ClassFormat.Proofs.Constant.Measure
import ClassFormat.Proofs.Attribute.Measure
import ClassFormat.Proofs.Constant.Handles
import ClassFormat.Proofs.Text.Grammar
import ClassFormat.Proofs.Constant.Strings
import ClassFormat.Proofs.Attribute.Owners
import ClassFormat.Proofs.Attribute.Marks
import ClassFormat.Proofs.Attribute.Encounters
import ClassFormat.Proofs.Bytes.Sequence
import ClassFormat.Proofs.ClassFile.LineBreaks
import ClassFormat.Proofs.CommandLine
import ClassFormat.Proofs.Bytes.Access
