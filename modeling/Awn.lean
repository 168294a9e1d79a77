import Awn.Aes128Cbc.Contract
import Awn.Async.Completion
import Awn.Async.OrderRun
import Awn.AsyncAllocator.Reclaim
import Awn.AsyncSave.Protocol
import Awn.Bffnt.FontInfo
import Awn.Bffnt.KerningTable
import Awn.BusyMutex.Fairness
import Awn.Byaml.ContainerOrder
import Awn.Byaml.DocumentRegions
import Awn.Byaml.HashArray
import Awn.Byaml.StringPool
import Awn.Byaml.StringTable
import Awn.Byaml.SwapEndian
import Awn.Crc32.Strings
import Awn.DependencyJob.Links
import Awn.DependencyJob.Pinned
import Awn.DependencyJob.Reuse
import Awn.DependencyJob.ThreadManager
import Awn.Dictionary.Lookup
import Awn.ExpHeap.Contract
import Awn.FileDevice.Copy
import Awn.FileDevice.Directory
import Awn.FixedString.Comparison
import Awn.FrameHeap.Heap
import Awn.Handles.Run
import Awn.Heap.Lookup
import Awn.IndexAllocator.Atomic
import Awn.IntrusiveList.Run
import Awn.IntrusiveTree.ClearAll
import Awn.IntrusiveTree.StringOrder
import Awn.Memory.Placement
import Awn.MessageQueue.Contents
import Awn.MessageQueue.NoLostWakeup
import Awn.MessageQueue.Plain
import Awn.Murmur.Agreement
import Awn.ObjectAllocator.PointerArray
import Awn.Path.Contract
import Awn.Pieces.Machine
import Awn.PointerArray.Refinement
import Awn.PriorityQueue.Run
import Awn.Relocation.RoundTrip
import Awn.Relocation.StreamedTable
import Awn.Relocation.Unrolled
import Awn.ResourceMemory.Cache
import Awn.ResourceMemory.Usage
import Awn.ResourceSizeTable.RoundTrip
import Awn.ResourceUnit.DefaultArchive
import Awn.ResourceUnit.Deferred
import Awn.ResourceUnit.InitializeOnce
import Awn.ResourceUnit.References
import Awn.RingBuffer.Atomic
import Awn.RingBuffer.AtomicFixed
import Awn.RingBuffer.Run
import Awn.Sarc.Foreign
import Awn.Sarc.Placement
import Awn.Sarc.RoundTrip
import Awn.SeparateHeap.Blocks
import Awn.ServiceEvent.Order
import Awn.ServiceMutex.NoLostWakeup
import Awn.TextureSampler.Slots
import Awn.ThreadLocalArchive.Scoped
import Awn.TimeSpan.Timeout
import Awn.Ukern.Affinity.ReadyRun
import Awn.Ukern.CriticalSectionRun
import Awn.Ukern.LockWordRun
import Awn.Ukern.Waits.Run
import Awn.VirtualAddressHeap.Run
import Awn.Zstd.Chunks
import Awn.ZstdDecompressor.Dictionaries
import Awn.ZstdDecompressor.Files
