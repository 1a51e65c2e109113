import DexArchive.Container
import DexArchive.Http.Remote
import DexArchive.Http.Script
import DexArchive.Source.Faulty
import DexArchive.Stream.Script
import DexArchive.Proofs.Streaming
import DexArchive.Proofs.Matching
import DexArchive.Proofs.Deflate.Scan
import DexArchive.Proofs.Deflate.Decoding
import DexArchive.Proofs.Range
import DexArchive.Proofs.Deflate.Inflating
import DexArchive.Proofs.Deflate.Matching
import DexArchive.Proofs.Dex.Header
import DexArchive.Proofs.Zip.Content
import DexArchive.Proofs.Deflate.Steady
import DexArchive.Proofs.Zip.Sniffing
import DexArchive.Proofs.Zip.Splitting
import DexArchive.Proofs.Zip.Locality
import DexArchive.Proofs.Listing
import DexArchive.Proofs.Text.Utf8
import DexArchive.Proofs.Zip.Directory
import DexArchive.Proofs.Zip.EndRecord
import DexArchive.Proofs.Zip.Layout
import DexArchive.Proofs.Zip.Members
import DexArchive.Proofs.Packing
import DexArchive.Proofs.Zip.Confinement
import DexArchive.Proofs.Zip.Requests
import DexArchive.Proofs.Failures
import DexArchive.Proofs.Runs
import DexArchive.Proofs.Surveying
import DexArchive.Proofs.Agreement
import DexArchive.Proofs.Fetching
import DexArchive.Proofs.Deflate.Words
import DexArchive.Proofs.Handles
import DexArchive.Proofs.Zip.RecordWords
import DexArchive.Proofs.Zip.Words
import DexArchive.Proofs.Http.Words
import DexArchive.Proofs.Zip.Records
import DexArchive.Proofs.Zip.ExtraFields
import DexArchive.Proofs.Zip.Stored
import DexArchive.Proofs.Checksum
import DexArchive.Proofs.Reads
import DexArchive.Proofs.Zip.Resuming
import DexArchive.Proofs.Zip.Damage
import DexArchive.Proofs.Dex.Sniff
import DexArchive.Proofs.Limits
import DexArchive.Proofs.Dex.Verdict
import DexArchive.Proofs.Dex.Fields
import DexArchive.Proofs.Filling
import DexArchive.Proofs.Text.Lossy
import DexArchive.Proofs.Zip.Names
