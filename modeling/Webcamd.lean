import Webcamd.Library.Machine
import Webcamd.Library.TailQueue
import Webcamd.Library.Ledger
import Webcamd.Kernel.Task
import Webcamd.Kernel.TaskQueue
import Webcamd.Kernel.TaskFlush
import Webcamd.Kernel.TaskCancel
import Webcamd.Kernel.Mutex
import Webcamd.Library.Trie
import Webcamd.Kernel.RadixTree
import Webcamd.Kernel.RadixTreeShape
import Webcamd.Kernel.RadixTreeRefinement
import Webcamd.Kernel.RadixTreeInvariant
import Webcamd.Kernel.Usb
import Webcamd.Kernel.UsbQueue
import Webcamd.Kernel.UsbAccounting
import Webcamd.Kernel.UsbPresence
import Webcamd.Kernel.UsbKill
import Webcamd.Kernel.UsbAnchor
import Webcamd.Kernel.UsbInterface
import Webcamd.Kernel.UsbAltSetting
import Webcamd.Vtuner.Message
import Webcamd.Vtuner.Server
import Webcamd.Vtuner.Buffer
import Webcamd.Vtuner.DataChannel
import Webcamd.Vtuner.DataIntegrity
import Webcamd.Vtuner.DataPoll
import Webcamd.Vtuner.Client
import Webcamd.Vtuner.CrossEndian
import Webcamd.Vtuner.PropertyList
import Webcamd.Vtuner.Layout
import Webcamd.Vtuner.Control
import Webcamd.Vtuner.ControlFraming
import Webcamd.Vtuner.ControlProgress
import Webcamd.Vtuner.Device
import Webcamd.Vtuner.Proxy
import Webcamd.Kernel.AtomicLock
import Webcamd.Kernel.Semaphore
import Webcamd.Kernel.TimerList
import Webcamd.Kernel.DelayedWork
import Webcamd.Kernel.Rcu
import Webcamd.Kernel.Cdev
import Webcamd.Vtuner.Units
import Webcamd.Kernel.UsbProbe
import Webcamd.Kernel.Bitmap
import Webcamd.Kernel.Idr
import Webcamd.Program.FindDevices
import Webcamd.Kernel.IdrInvariant
import Webcamd.Kernel.IdrRemove
import Webcamd.Kernel.IdrDestroy
import Webcamd.Kernel.IdrFree
import Webcamd.Vtuner.DoMessage
import Webcamd.Vtuner.ClientFailure
import Webcamd.Make.Text
import Webcamd.Make.Config
import Webcamd.Library.Loop
import Webcamd.Make.Nodes
import Webcamd.Make.Gathered
import Webcamd.Make.Reading
import Webcamd.Make.Resolve
import Webcamd.Make.Output
import Webcamd.Kernel.Compat32
import Webcamd.Kernel.RadixTreeIter
import Webcamd.Kernel.Xarray
import Webcamd.Kernel.RadixTreeMemory
import Webcamd.Kernel.XarrayAlloc
import Webcamd.Kernel.UsbTermination
import Webcamd.Kernel.UsbAssociation
import Webcamd.Kernel.UsbBufferSize
import Webcamd.Kernel.UsbDescriptor
import Webcamd.Kernel.TimerPass
import Webcamd.Kernel.UsbMatch
import Webcamd.Kernel.Completion
import Webcamd.Kernel.TimedWait
import Webcamd.Kernel.BitmapPredicates
import Webcamd.Kernel.Jiffies
import Webcamd.Kernel.BitmapSearch
import Webcamd.Kernel.BitmapSet
import Webcamd.Kernel.BitmapShift
import Webcamd.Kernel.Allocation
import Webcamd.Kernel.BitmapClear
import Webcamd.Kernel.ByteOrder
import Webcamd.Kernel.IntSqrt
import Webcamd.Kernel.Crc32
import Webcamd.Kernel.Rational
import Webcamd.Kernel.DivRoundClosest
import Webcamd.Kernel.NumberParsing
import Webcamd.Kernel.TimeArithmetic
import Webcamd.Vtuner.Involution
import Webcamd.Kernel.I2c
import Webcamd.Library.Conditionals
import Webcamd.Make.Parse
import Webcamd.Kernel.BitScan
import Webcamd.Kernel.MmapCache
import Webcamd.Library.CheckedBuffer
import Webcamd.Make.ObjectNames
import Webcamd.Program.StringFilter
import Webcamd.Library.Conformance
import Webcamd.Kernel.IdrLookup
import Webcamd.Kernel.IdrSearch
import Webcamd.Kernel.IdrAlloc
import Webcamd.Kernel.IdrIter
import Webcamd.Kernel.IdrMap
import Webcamd.Library.LockOrder
import Webcamd.Kernel.I2cMux
import Webcamd.Library.BurstDetection
import Webcamd.Kernel.Smbus
import Webcamd.Kernel.SmbusCalls
import Webcamd.Kernel.KThread
import Webcamd.Kernel.KThreadRun
import Webcamd.Kernel.Sort
import Webcamd.Kernel.ListHead
import Webcamd.Kernel.ListHeadLists
import Webcamd.Kernel.ListHeadRun
