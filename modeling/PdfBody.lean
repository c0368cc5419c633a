import PdfBody.Text.Parser
import PdfBody.Value.Compare
import PdfBody.Store.Streams
import PdfBody.Store.Renumber
import PdfBody.Proofs.Text.Utf8
import PdfBody.Proofs.Text.RoundTrip
import PdfBody.Proofs.Text.Canonical
import PdfBody.Proofs.Store.Meaning
import PdfBody.Proofs.Store.Collect
import PdfBody.Proofs.Store.Calls
import PdfBody.Proofs.Store.Apart
import PdfBody.Proofs.Store.Issued
import PdfBody.Proofs.Filter.Base85
import PdfBody.Proofs.Filter.Hex
import PdfBody.Proofs.Filter.Named
import PdfBody.Proofs.Filter.Pipeline
import PdfBody.Proofs.Filter.Cuts
import PdfBody.Proofs.Stream.Steps
import PdfBody.Proofs.Stream.Transactions
import PdfBody.Proofs.Runs
import PdfBody.Proofs.Stream.Calls
import PdfBody.Proofs.Stream.Length
import PdfBody.Proofs.Store.Handles
import PdfBody.Proofs.Store.Heard
import PdfBody.Proofs.Store.Retired
import PdfBody.Proofs.Store.Bookkeeping
import PdfBody.Proofs.Store.Bounds
import PdfBody.Proofs.Text.Comments
import PdfBody.Proofs.Text.Rewritten
import PdfBody.Proofs.Store.Copying
import PdfBody.Proofs.Stream.Beginning
import PdfBody.Proofs.Value.Parted
import PdfBody.Proofs.Value.Comparable
import PdfBody.Proofs.Store.Pooled
import PdfBody.Proofs.Stream.Whole
import PdfBody.Proofs.Store.Locations
import PdfBody.Proofs.Store.Changed
import PdfBody.Proofs.Store.Patched
import PdfBody.Proofs.Store.Dependencies
import PdfBody.Proofs.Filter.RunLength
import PdfBody.Proofs.Stream.Sources
import PdfBody.Proofs.Store.Transfer
import PdfBody.Proofs.Filter.HexStrings
import PdfBody.Proofs.Text.Descent
import PdfBody.Proofs.Text.Neighbours
import PdfBody.Proofs.Text.Standing
import PdfBody.Proofs.Text.Verbatim
import PdfBody.Proofs.Store.Allocation
import PdfBody.Proofs.Text.Integers
