import Cytrus.Support.Exec
import Cytrus.Support.OrderedMap
import Cytrus.Support.Painting
import Cytrus.Support.Tiling
import Cytrus.Support.IntervalMap
import Cytrus.Support.IntervalSet
import Cytrus.Cheats.CheatFile
import Cytrus.Cheats.CheatLineGrammar
import Cytrus.Cheats.CheatRuns
import Cytrus.Cheats.GatewayCheat
import Cytrus.Cheats.PatchCode
import Cytrus.Common.MemoryRef
import Cytrus.Kernel.PageTable
import Cytrus.Kernel.VMManager
import Cytrus.Kernel.VMLayout
import Cytrus.Kernel.VMManagerSpec
import Cytrus.Kernel.VMManagerCalls
import Cytrus.Kernel.AddressSpace
import Cytrus.Kernel.FirstFit
import Cytrus.Kernel.QueryMemory
import Cytrus.Kernel.VMManagerMerging
import Cytrus.Kernel.MemoryRegion
import Cytrus.Kernel.Process
import Cytrus.Kernel.HostMemory
import Cytrus.Kernel.BlockMapping
import Cytrus.Kernel.ProcessMapping
import Cytrus.Kernel.ProcessSpec
import Cytrus.Kernel.ProcessRuns
import Cytrus.Kernel.RegionAllocator
import Cytrus.Kernel.AllocationFrame
import Cytrus.Kernel.MemoryOwnership
import Cytrus.Kernel.HandleTable
import Cytrus.Kernel.HandleLedger
import Cytrus.Kernel.GuestMemory
import Cytrus.Kernel.Ipc
import Cytrus.Kernel.HleIpc
import Cytrus.Kernel.IpcCursor
import Cytrus.Common.StaticLRUCache
import Cytrus.Common.ThreadQueueList
import Cytrus.Common.ThreadQueueCalls
import Cytrus.Common.StringUtil
import Cytrus.Common.ParamPackage
import Cytrus.Core.BlockAccess
import Cytrus.Core.MemoryAccess
import Cytrus.Core.WidthAgreement
import Cytrus.Core.BlockAgreement
import Cytrus.Support.BinaryHeap
import Cytrus.Core.Timing
import Cytrus.Core.EventDispatch
import Cytrus.Core.DispatchOrder
import Cytrus.Kernel.Timer
import Cytrus.Kernel.TimerProgress
import Cytrus.Core.GuestTime
import Cytrus.Core.ControllerState
import Cytrus.Core.Movie
import Cytrus.Core.PhysicalMemory
import Cytrus.Core.MovieTimeline
import Cytrus.FileSys.CiaContainer
import Cytrus.Am.TitleFolder
import Cytrus.Am.CiaFile
import Cytrus.Am.ChunkedInstall
import Cytrus.Am.NcchCrypto
import Cytrus.Am.StreamDecryption
import Cytrus.Support.LexicalPath
import Cytrus.FileSys.PathParser
import Cytrus.Support.Slices
import Cytrus.FileSys.IpsPatch
import Cytrus.FileSys.BpsPatch
import Cytrus.FileSys.BpsFormat
import Cytrus.FileSys.BpsSafety
import Cytrus.Support.PackedTable
import Cytrus.Support.BitField
import Cytrus.FileSys.LayeredFS
import Cytrus.FileSys.RebuiltTables
import Cytrus.FileSys.RebuiltWalk
import Cytrus.FileSys.LayeredRead
import Cytrus.FileSys.RebuiltLookup
import Cytrus.Network.Room
import Cytrus.Nwm.Beacon
import Cytrus.Nwm.Uds
import Cytrus.Nwm.UdsHost
import Cytrus.Nwm.UdsNetwork
import Cytrus.Support.Runs
import Cytrus.Nwm.SecureData
import Cytrus.Nwm.DataDelivery
import Cytrus.VideoCore.Texture
import Cytrus.VideoCore.TextureCodec
import Cytrus.VideoCore.RasterizerCache
import Cytrus.VideoCore.PageMarking
import Cytrus.VideoCore.Ownership
import Cytrus.VideoCore.FillSurface
import Cytrus.Support.Ring
import Cytrus.Gsp.GpuRight
import Cytrus.Gsp.InterruptQueue
import Cytrus.Support.RawMemory
import Cytrus.Gsp.VramSaveArea
import Cytrus.Ir.BufferManager
import Cytrus.Network.Packet
import Cytrus.Support.FrameStream
import Cytrus.Core.SaveState
import Cytrus.Network.RoomRelay
import Cytrus.VideoCore.PicaRegisters
import Cytrus.Support.HalfCircular
import Cytrus.Ldr.ModuleLists
import Cytrus.Ldr.CroTables
import Cytrus.Ldr.CroRebase
import Cytrus.Ldr.CroLink
import Cytrus.Ldr.CroFrame
import Cytrus.Ldr.CroImage
import Cytrus.Ldr.CroUnload
import Cytrus.Support.Walks
import Cytrus.Ldr.ExportTree
import Cytrus.VideoCore.SurfaceGeometry
import Cytrus.VideoCore.SubRectangle
import Cytrus.VideoCore.SurfaceValidity
import Cytrus.VideoCore.FillCompatibility
import Cytrus.VideoCore.Swizzle
import Cytrus.VideoCore.TileWalk
import Cytrus.VideoCore.TileDecoding
import Cytrus.VideoCore.TextureAgreement
import Cytrus.VideoCore.TileEncoding
import Cytrus.VideoCore.PartialSwizzle
import Cytrus.VideoCore.SwizzleRoundTrip
import Cytrus.FileSys.Lzss
import Cytrus.Audio.Codec
import Cytrus.Audio.Interpolate
import Cytrus.Audio.Source
import Cytrus.Audio.SourceRuns
import Cytrus.Hw.StripTiles
import Cytrus.Hw.StripTransfers
import Cytrus.FileSys.Ticket
import Cytrus.FileSys.ContentIndex
import Cytrus.VideoCore.ShaderFixup
import Cytrus.VideoCore.CommandLists
import Cytrus.VideoCore.GeometryInput
import Cytrus.Support.Traces
import Cytrus.VideoCore.VertexLoader
import Cytrus.VideoCore.VertexCache
