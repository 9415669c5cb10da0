import CompressedRefs.Address
import CompressedRefs.Assertion
import CompressedRefs.Codec
import CompressedRefs.Codec.Session
import CompressedRefs.Diagnostic
import CompressedRefs.Entry.Calls
import CompressedRefs.Entry.Process
import CompressedRefs.Entry.Status
import CompressedRefs.Heap
import CompressedRefs.IoError
import CompressedRefs.Keystream.Block
import CompressedRefs.Keystream.Generator
import CompressedRefs.Keystream.Seed
import CompressedRefs.Proofs.Encoders
import CompressedRefs.Proofs.Entry.Array
import CompressedRefs.Proofs.Heap.Tiling
import CompressedRefs.Proofs.Wire.FaultyReader
import CompressedRefs.Proofs.Wire.FaultyWriter
import CompressedRefs.Proofs.Wire.FrameQueue
import CompressedRefs.Proofs.Wire.Interruption
import CompressedRefs.Proofs.Wire.Locality
import CompressedRefs.Proofs.Wire.RoundTrip
import CompressedRefs.Proofs.Wire.Script
import CompressedRefs.Ref
import CompressedRefs.Samples.AddressStream
import CompressedRefs.Samples.Boundary
import CompressedRefs.Samples.Workload
import CompressedRefs.Session
import CompressedRefs.Sink
import CompressedRefs.Text.Hex
import CompressedRefs.Window
import CompressedRefs.Wire.Buffer
import CompressedRefs.Wire.ByteOrder
import CompressedRefs.Wire.Error
import CompressedRefs.Wire.Table
import CompressedRefs.Wire.Transfer
import CompressedRefs.Word
import CompressedRefs.Proofs.Entry.Switch
import CompressedRefs.Proofs.Codec.Choices
import CompressedRefs.Proofs.Samples.Positions
import CompressedRefs.Proofs.Wire.Concatenation
import CompressedRefs.Proofs.Wire.CallBound
import CompressedRefs.Proofs.Sink.Overflow
import CompressedRefs.Proofs.Heap.Crossing
import CompressedRefs.Proofs.Heap.Batches
import CompressedRefs.Proofs.Codec.Folding
import CompressedRefs.Proofs.Ordering
import CompressedRefs.Proofs.Wire.ByteSwap
import CompressedRefs.Proofs.Samples.Mixture
import CompressedRefs.Proofs.Text.Hexadecimal
import CompressedRefs.Proofs.Text.Identification
import CompressedRefs.Proofs.Samples.Reach
import CompressedRefs.Proofs.Alignment
