import ExpOS.Abi.Gate
import ExpOS.Apps.Json
import ExpOS.Apps.Snake
import ExpOS.Ayo.Reconcile
import ExpOS.Capability.Allocation
import ExpOS.Capability.Revocation
import ExpOS.Capability.Seal
import ExpOS.Controls.Timers
import ExpOS.Core.ExpFs
import ExpOS.Core.NativeCompiler
import ExpOS.Core.Recovery
import ExpOS.Crypto.Conformance
import ExpOS.Display.Damage
import ExpOS.Display.Frames
import ExpOS.Display.Pacing
import ExpOS.Execution.LiveContexts
import ExpOS.Genesis.Geometry
import ExpOS.Input.Keyboard
import ExpOS.Memory.Paging
import ExpOS.Network.RingDriver
import ExpOS.Network.Writing
import ExpOS.Policy.Diese
import ExpOS.Service.Memory
import ExpOS.Session.Calls
import ExpOS.Session.SystemRecords
import ExpOS.Network.Packets
import ExpOS.Shell.Registry
import ExpOS.Storage.NvmeStatus
import ExpOS.Store.Authenticity
import ExpOS.Store.Nonce
import ExpOS.Store.Provenance
import ExpOS.Store.Rotation
import ExpOS.Store.Streams
import ExpOS.Store.Totality
