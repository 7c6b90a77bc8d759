import Mavmm.Lib.Word
import Mavmm.Lib.Memory
import Mavmm.Lib.Bitmap
import Mavmm.Failure
import Mavmm.E820
import Mavmm.Lib.Strides
import Mavmm.MemoryMap
import Mavmm.MapParsing
import Mavmm.MapWalks
import Mavmm.MemoryHiding
import Mavmm.HiddenRegion
import Mavmm.PageAccounting
import Mavmm.Alloc
import Mavmm.AllocSafety
import Mavmm.AllocFirstFit
import Mavmm.AllocRanges
import Mavmm.Lib.Paging
import Mavmm.Lib.TableTree
import Mavmm.Page
import Mavmm.PageTable
import Mavmm.NestedTable
import Mavmm.GuestPaging
import Mavmm.GuestWalk
import Mavmm.Printf
import Mavmm.PrintfSpec
import Mavmm.HexText
import Mavmm.Lib.Exec
import Mavmm.Lib.FlatTable
import Mavmm.Segment
import Mavmm.Vm
import Mavmm.VmcbCheck
import Mavmm.TableRemoval
import Mavmm.Syscall
import Mavmm.Intercept
import Mavmm.SyscallSpec
import Mavmm.VmSpec
import Mavmm.InterceptSpec
import Mavmm.CallArguments
import Mavmm.ExitEvents
import Mavmm.Confinement
import Mavmm.GuestReach
import Mavmm.LinearAddress
import Mavmm.Features
import Mavmm.Agreement
import Mavmm.Matching
import Mavmm.FileNames
import Mavmm.TableBounds
import Mavmm.Traps
import Mavmm.Independence
import Mavmm.Progress
import Mavmm.SkipResume
import Mavmm.Exceptions
import Mavmm.NestedCoverage
import Mavmm.Vmx
import Mavmm.VmxControls
import Mavmm.VmxSetup
import Mavmm.VmxRegions
import Mavmm.VmxCapabilities
import Mavmm.GuestMsrs
import Mavmm.Lib.BitString
import Mavmm.MsrBitmap
import Mavmm.Tracking
import Mavmm.GuestBuffer
import Mavmm.LoggedData
import Mavmm.GuestAbi
import Mavmm.MapWalkBack
import Mavmm.FailedTranslations
import Mavmm.Dereferences
import Mavmm.PageDirectory
import Mavmm.NestedDirectory
import Mavmm.Lib.Bytes
import Mavmm.Lib.CLayout
import Mavmm.Hostfs.Layout
import Mavmm.Hostfs.Sector
import Mavmm.Hostfs.File
import Mavmm.Hostfs.Frame
import Mavmm.Hostfs.Names
import Mavmm.Hostfs.Directory
import Mavmm.Hostfs.SectorSpec
import Mavmm.Hostfs.FatEntries
import Mavmm.Hostfs.FileSpec
import Mavmm.Hostfs.SectorCache
import Mavmm.Lib.Ring
import Mavmm.Hostfs.Volume
import Mavmm.Hostfs.FreeClusters
import Mavmm.Hostfs.ReadBack
import Mavmm.Hostfs.Seeks
import Mavmm.Hostfs.Positions
import Mavmm.Hostfs.FreeChain
import Mavmm.Hostfs.DeviceErrors
import Mavmm.Hostfs.Handles
import Mavmm.Hostfs.DirectoryFormat
import Mavmm.Hostfs.NameCompare
import Mavmm.Hostfs.ShortNames
import Mavmm.Hostfs.LongNames
import Mavmm.Hostfs.Lookup
import Mavmm.Hostfs.Removal
import Mavmm.Hostfs.OpenHandles
import Mavmm.Hostfs.FileHandles
import Mavmm.Hostfs.Paths
import Mavmm.Hostfs.SizeUpdate
import Mavmm.Hostfs.FileRuns
import Mavmm.Hostfs.EndOfFile
import Mavmm.Hostfs.RecordedSize
import Mavmm.Hostfs.RootScan
import Mavmm.Hostfs.Mounting
import Mavmm.Hostfs.PathBounds
import Mavmm.Hostfs.NameReads
import Mavmm.ExitFrame
import Mavmm.Lib.Copy
import Mavmm.StringOps
import Mavmm.Console
import Mavmm.UserTool
import Mavmm.Cpu
import Mavmm.Lib.Record
import Mavmm.Svm
import Mavmm.SvmStart
import Mavmm.Boot
import Mavmm.Accesses
import Mavmm.ExitAccesses
