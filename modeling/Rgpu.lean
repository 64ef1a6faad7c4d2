import Rgpu.Foundations.StepSystem
import Rgpu.Server.Descriptors
import Rgpu.Client.Moves
import Rgpu.Protocol.Traffic
import Rgpu.Protocol.AtMostOnce
import Rgpu.Protocol.Identity
import Rgpu.Client.Failures
import Rgpu.Protocol.Finality
import Rgpu.Server.Ledger
import Rgpu.Server.Deferred
import Rgpu.Server.Mirror
import Rgpu.Server.ObservedState
import Rgpu.Server.ReverseIndex
import Rgpu.Server.VirtualMemory
import Rgpu.Python.Reaping
import Rgpu.Python.Fencing
import Rgpu.Python.Client
import Rgpu.Foundations.Numbering
import Rgpu.Python.Logs
import Rgpu.Python.Stream
import Rgpu.Python.Loss
import Rgpu.Python.TorchSession
import Rgpu.Python.Poisoning
import Rgpu.Client.Pending
import Rgpu.Foundations.LittleEndian
import Rgpu.Wire.Buffer
import Rgpu.Wire.Frames
import Rgpu.Codegen.Marshalling
import Rgpu.Client.Images
import Rgpu.Client.DeviceAllocs
import Rgpu.Foundations.Copies
import Rgpu.Client.HandleMirrors
import Rgpu.Client.MatmulDescs
import Rgpu.Foundations.Readers
import Rgpu.Python.Wire
import Rgpu.Python.WireRoundTrip
import Rgpu.Client.EntryPoints
import Rgpu.Client.Reporting
import Rgpu.Client.PrimaryCache
import Rgpu.Client.LaunchArgs
import Rgpu.Client.Kernels
import Rgpu.Client.MintedHandles
import Rgpu.Server.Creation
import Rgpu.Server.Captures
import Rgpu.Python.PendingFrees
import Rgpu.Python.Replies
import Rgpu.Python.GraphShipping
import Rgpu.Foundations.Offsets
import Rgpu.Python.Layout
import Rgpu.Client.Retirement
import Rgpu.Foundations.Metered
import Rgpu.Python.Decoding
import Rgpu.Foundations.Journal
import Rgpu.Server.Releasing
import Rgpu.Server.Expiry
import Rgpu.Server.Sharing
import Rgpu.Python.Dispatch
import Rgpu.Python.Lifetimes
import Rgpu.Python.Direct
import Rgpu.Python.Streaming
import Rgpu.Python.Delivery
import Rgpu.Python.Networked
