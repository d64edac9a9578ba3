import Hamachi.Heap
import Hamachi.Handles
import Hamachi.ResourceList
import Hamachi.ResourceListOperations
import Hamachi.Runs
import Hamachi.HandlesRuns
import Hamachi.Buffer
import Hamachi.MacTable
import Hamachi.MacTableMap
import Hamachi.MacTableRuns
import Hamachi.Tuntap
import Hamachi.TuntapFrames
import Hamachi.TuntapCalls
import Hamachi.ArpResolution
import Hamachi.ArpReplies
import Hamachi.TuntapBounds
import Hamachi.Encapsulation
import Hamachi.Popen
import Hamachi.BinarySearch
import Hamachi.Lookup
import Hamachi.LookupExact
import Hamachi.SymbolResolution
import Hamachi.Obligations
import Hamachi.ResourceListCompletion
import Hamachi.Process
import Hamachi.Glue
import Hamachi.GlueDevices
import Hamachi.EpollInterest
import Hamachi.EpollWait
import Hamachi.StdoutCapture
import Hamachi.GlueFrames
import Hamachi.FailedOpens
import Hamachi.PosixFiles
import Hamachi.OpenEmulation
import Hamachi.ProcessRuns
import Hamachi.InterfaceRequests
import Hamachi.ExitResidue
import Hamachi.NextRun
import Hamachi.EpollDescriptors
import Hamachi.EpollMerging
import Hamachi.DescriptorAccounts
import Hamachi.ExitDescriptors
import Hamachi.CloseOnce
import Hamachi.TunKernel
import Hamachi.TunLockOrder
import Hamachi.TunSlots
import Hamachi.TunSlotInvariant
import Hamachi.TunSlotProtocol
import Hamachi.Ownership
import Hamachi.DevicePool
import Hamachi.DevicePoolInvariant
import Hamachi.DevicePoolRuns
import Hamachi.CString
import Hamachi.NetworkList
import Hamachi.Gui
import Hamachi.SocketAddress
import Hamachi.SocketCalls
import Hamachi.AddressReturns
import Hamachi.HostArguments
import Hamachi.AddrinfoList
import Hamachi.AddrinfoConversion
import Hamachi.Program
import Hamachi.MainLoop
import Hamachi.MainLoopRules
import Hamachi.MainLoopSafety
import Hamachi.MainLoopLeak
import Hamachi.FlatMemory
import Hamachi.PageRounding
import Hamachi.LoadElf
import Hamachi.ElfFile
import Hamachi.Readall
import Hamachi.SegmentLoading
import Hamachi.Relocate
import Hamachi.RelocationTables
import Hamachi.RelocationSteps
import Hamachi.RelocationRuns
import Hamachi.RelocationCorrectness
import Hamachi.PopenCaptures
import Hamachi.CopyFile
import Hamachi.TextWidening
import Hamachi.DelimitedLines
import Hamachi.NetworkListLines
import Hamachi.NetworkListDrawing
import Hamachi.WouldBlock
import Hamachi.ResourceRemoval
import Hamachi.FileHandles
import Hamachi.UdpSend
import Hamachi.UdpSendCopies
import Hamachi.UdpSendSlots
import Hamachi.UdpSendInterfaces
import Hamachi.UdpSendCompletion
import Hamachi.UdpBroadcast
import Hamachi.UdpSendLocks
import Hamachi.Custody
import Hamachi.PacketOwnership
import Hamachi.UnixPaths
import Hamachi.Buckets
import Hamachi.MacTableGrowth
import Hamachi.MacTableIndex
import Hamachi.ResourceCollection
import Hamachi.StaleHandles
import Hamachi.ConsecutiveWrites
import Hamachi.SegmentTransfers
import Hamachi.FullyLoaded
import Hamachi.ResourceLedger
import Hamachi.X86
import Hamachi.StubCalls
import Hamachi.MissingFunctions
import Hamachi.FileTree
import Hamachi.PathConfinement
import Hamachi.Network
import Hamachi.TapNetwork
import Hamachi.TapNetworkSafety
import Hamachi.TapNetworkProgress
import Hamachi.Simulation
import Hamachi.OwnedBlocks
import Hamachi.Session
import Hamachi.SessionCapture
import Hamachi.SessionRefinement
import Hamachi.SessionFaults
import Hamachi.SessionConsent
import Hamachi.Painting
import Hamachi.FrameBuffers
import Hamachi.Screens
import Hamachi.Dialogs
import Hamachi.DisplayMachine
import Hamachi.ScreenBounds
import Hamachi.DisplayInvariant
import Hamachi.DisplaySafety
import Hamachi.DisplayProgress
import Hamachi.DisplayedScreens
import Hamachi.DialogInputs
import Hamachi.DialogRuns
