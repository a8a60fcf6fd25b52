import CilRecovery.ProtectedModule
import CilRecovery.Cipher.Tea
import CilRecovery.Digest
import CilRecovery.Image.PortableExecutable
import CilRecovery.Oracle.Harvest
import CilRecovery.StringDecrypters
import CilRecovery.Proofs.Reader.Accepts
import CilRecovery.Proofs.Method.Grammar
import CilRecovery.Proofs.Method.RoundTrip
import CilRecovery.Proofs.PatchEngine.Collection
import CilRecovery.Proofs.PatchEngine.KeptCode
import CilRecovery.Proofs.Cipher.Aes
import CilRecovery.Proofs.Cipher.Des
import CilRecovery.Proofs.Bytes
import CilRecovery.Proofs.Cipher.Chained
import CilRecovery.Proofs.MethodStream.Layout
import CilRecovery.Proofs.Image.Write
import CilRecovery.Proofs.MethodStream.Sizes
import CilRecovery.Proofs.WordMap
import CilRecovery.Proofs.PatchEngine.Service
import CilRecovery.Proofs.OpaqueTable
import CilRecovery.Proofs.PatchEngine.WriteBack
import CilRecovery.Proofs.Oracle.Calls
import CilRecovery.Proofs.Oracle.Trace
import CilRecovery.Proofs.Method.Faults
import CilRecovery.Proofs.Oracle.Conversation
import CilRecovery.Proofs.Oracle.RequestOrder
import CilRecovery.Proofs.Oracle.Release
import CilRecovery.Proofs.Patch
import CilRecovery.Proofs.PatchEngine.Writes
import CilRecovery.Proofs.PatchEngine.Remapping
import CilRecovery.Proofs.MethodStream.Discriminant
import CilRecovery.Proofs.Patch.Mapped
import CilRecovery.Proofs.Resource.Faults
import CilRecovery.Proofs.PatchEngine.Faults
import CilRecovery.Proofs.Oracle.Faults
import CilRecovery.Proofs.ProtectedModule.Run
import CilRecovery.Proofs.PatchEngine.Rebinding
import CilRecovery.Proofs.ProtectedModule.Classification
import CilRecovery.Proofs.ProtectedModule.Composition
import CilRecovery.Proofs.Primitive
import CilRecovery.Proofs.Resource.Recovery
import CilRecovery.Proofs.MethodTable
import CilRecovery.Proofs.Oracle.Frame
import CilRecovery.Proofs.Method.Truncation
import CilRecovery.Proofs.Method.WrittenClauses
import CilRecovery.Proofs.Method.ClauseTruncation
import CilRecovery.Proofs.Reader.Fails
import CilRecovery.Proofs.MethodStream.Grammar
import CilRecovery.Proofs.MethodStream.DryRun
import CilRecovery.OutputWriter
import CilRecovery.Proofs.OutputWriter.Slot
import CilRecovery.Proofs.OutputWriter.Frame
import CilRecovery.Proofs.AddressIndex.HeaderRule
import CilRecovery.Proofs.AddressIndex.Cache
import CilRecovery.Proofs.PatchEngine.Rejection
import CilRecovery.Proofs.Patch.Atomicity
import CilRecovery.Proofs.Resource.Unframing
import CilRecovery.Proofs.Varint.SevenBit
import CilRecovery.Proofs.Compression
import CilRecovery.Proofs.Cipher.Inverse
import CilRecovery.Proofs.Cipher.Tea
import CilRecovery.Proofs.Oracle.Gathering
import CilRecovery.Proofs.Method.InPlace
import CilRecovery.Proofs.MethodTable.CodeLimit
import CilRecovery.Proofs.Patch.Encrypted
import CilRecovery.Proofs.StringDecrypters
import CilRecovery.Proofs.Varint.Grammar
import CilRecovery.Proofs.Reader.Programs
import CilRecovery.Proofs.Reader.Containment
import CilRecovery.Proofs.Deflate.Space
