import ObjectWire.Derive.IdentifiedPlan
import ObjectWire.Pool.Lending
import ObjectWire.Proofs.ClassDefinition.Drafting
import ObjectWire.Proofs.ClassDefinition.Reread
import ObjectWire.Proofs.Hierarchy.Ancestry
import ObjectWire.Proofs.Pool.Accounting
import ObjectWire.Proofs.Portable.Agreement
import ObjectWire.Proofs.Portable.Counts
import ObjectWire.Proofs.Portable.CutOff
import ObjectWire.Proofs.Portable.Exchange
import ObjectWire.Proofs.Portable.FailedCalls
import ObjectWire.Proofs.Portable.Fans
import ObjectWire.Proofs.Portable.Hostile
import ObjectWire.Proofs.Portable.Importing
import ObjectWire.Proofs.Portable.Naming
import ObjectWire.Proofs.Portable.Offsets
import ObjectWire.Proofs.Portable.Records
import ObjectWire.Proofs.Portable.Replaying
import ObjectWire.Proofs.Portable.Requests
import ObjectWire.Proofs.Portable.RoundTrip
import ObjectWire.Proofs.Portable.Termination
import ObjectWire.Proofs.Registry.Families
import ObjectWire.Proofs.Registry.Instances
import ObjectWire.Proofs.Service.Bindings
import ObjectWire.Proofs.Service.Builtins
import ObjectWire.Proofs.Service.DataObjects
import ObjectWire.Proofs.Service.Derived
import ObjectWire.Proofs.Service.DocumentCodec
import ObjectWire.Proofs.Service.Documents
import ObjectWire.Proofs.Service.Exhaustion
import ObjectWire.Proofs.Service.Families
import ObjectWire.Proofs.Service.Inline
import ObjectWire.Proofs.Service.Instances
import ObjectWire.Proofs.Service.Loans
import ObjectWire.Proofs.Service.LocalSchemas
import ObjectWire.Proofs.Service.NegativeIds
import ObjectWire.Proofs.Service.Nesting
import ObjectWire.Proofs.Service.PartitionKeys
import ObjectWire.Proofs.Service.Refusals
import ObjectWire.Proofs.Service.Rejections
import ObjectWire.Proofs.Service.Resolution
import ObjectWire.Proofs.Service.Schema
import ObjectWire.Proofs.Service.Shipment
import ObjectWire.Proofs.Service.Teardown
import ObjectWire.Proofs.TwosComplement.Shortest
import ObjectWire.Proofs.Wire.Streams
import ObjectWire.Proofs.Zlib.BitRuns
import ObjectWire.Proofs.Zlib.CodedBlocks
import ObjectWire.Proofs.Zlib.Codewords
import ObjectWire.Proofs.Zlib.Deflating
import ObjectWire.Proofs.Zlib.Repetitions
import ObjectWire.Proofs.Zlib.Spelling
import ObjectWire.Proofs.Zlib.WordLengths
