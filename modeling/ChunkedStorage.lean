import ChunkedStorage.Listing
import ChunkedStorage.Slice
import ChunkedStorage.Retry
import ChunkedStorage.Progress
import ChunkedStorage.Sha256
import ChunkedStorage.Size
import ChunkedStorage.Text.Utf8
import ChunkedStorage.Json.Reader
import ChunkedStorage.Config
import ChunkedStorage.Manifest
import ChunkedStorage.ObjectDirectory
import ChunkedStorage.Metadata
import ChunkedStorage.Http
import ChunkedStorage.Reader.Copy
import ChunkedStorage.ChunkedObject
import ChunkedStorage.Rehearsal
import ChunkedStorage.Logging.Rehearsal
import ChunkedStorage.Main
import ChunkedStorage.Proofs.Slices
import ChunkedStorage.Proofs.Reader.Exchange
import ChunkedStorage.Proofs.Reader.Turn
import ChunkedStorage.Proofs.Reader.History
import ChunkedStorage.Proofs.Reader.Serving
import ChunkedStorage.Proofs.Reader.Position
import ChunkedStorage.Proofs.Reader.Delivery
import ChunkedStorage.Proofs.Rehearsal
import ChunkedStorage.Proofs.Reader.Openings
import ChunkedStorage.Proofs.Reader.Failures
import ChunkedStorage.Proofs.Disk.Entries
import ChunkedStorage.Proofs.Disk.Paths
import ChunkedStorage.Proofs.Disk.Directories
import ChunkedStorage.Proofs.Disk.Files
import ChunkedStorage.Proofs.Sha256
import ChunkedStorage.Proofs.Window
import ChunkedStorage.Proofs.ObjectDirectory
import ChunkedStorage.Proofs.Staging
import ChunkedStorage.Proofs.Layout
import ChunkedStorage.Proofs.Metadata
import ChunkedStorage.Proofs.Upload
import ChunkedStorage.Proofs.Reader.Whole
import ChunkedStorage.Proofs.Direct
import ChunkedStorage.Proofs.RoundTrip
import ChunkedStorage.Proofs.Attempts
import ChunkedStorage.Proofs.Closings
import ChunkedStorage.Proofs.LocalBodies
import ChunkedStorage.Proofs.Reader.Bodies
import ChunkedStorage.Proofs.Reader.Endings
import ChunkedStorage.Proofs.Reader.Copies
import ChunkedStorage.Proofs.StoreCalls
import ChunkedStorage.Proofs.Listing
import ChunkedStorage.Proofs.Partition
import ChunkedStorage.Proofs.Plans
import ChunkedStorage.Proofs.Reader.Lookup
import ChunkedStorage.Proofs.Interruptions
import ChunkedStorage.Proofs.Reads
import ChunkedStorage.Proofs.Responses
import ChunkedStorage.Proofs.Drains
import ChunkedStorage.Proofs.HonestDirectory
import ChunkedStorage.Proofs.MetadataRuns
import ChunkedStorage.Proofs.MetadataOrder
import ChunkedStorage.Proofs.StagedCopies
import ChunkedStorage.Proofs.Disk.Writing
import ChunkedStorage.Proofs.Reader.Restriction
import ChunkedStorage.Proofs.ServedBodies
import ChunkedStorage.Proofs.Additions
import ChunkedStorage.Proofs.ResultFiles
import ChunkedStorage.Proofs.Decimals
import ChunkedStorage.Proofs.Blanks
import ChunkedStorage.Proofs.Sizes
import ChunkedStorage.Proofs.StoredSizes
import ChunkedStorage.Proofs.Durations
import ChunkedStorage.Proofs.Json.Words
import ChunkedStorage.Proofs.Json.Documents
import ChunkedStorage.Proofs.Json.Records
import ChunkedStorage.Proofs.Configurations
import ChunkedStorage.Proofs.RangeHeaders
import ChunkedStorage.Proofs.HeaderSpans
import ChunkedStorage.Proofs.ManifestFiles
import ChunkedStorage.Proofs.PlanLines
import ChunkedStorage.Proofs.Pauses
import ChunkedStorage.Proofs.Templates
import ChunkedStorage.Proofs.Progress
import ChunkedStorage.Proofs.Sha256.Agreement
