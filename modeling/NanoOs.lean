import NanoOs.KernelAllocatorGrowth
import NanoOs.BlockDiskAnswers
import NanoOs.DeviceTreeEvents
import NanoOs.PageAllocatorBoot
import NanoOs.InodeCache
import NanoOs.LoadAreaBounds
import NanoOs.UserCopies
import NanoOs.PageMapperRuns
import NanoOs.ProcessImages
import NanoOs.HeapBreaks
import NanoOs.InitramfsArchives
import NanoOs.VfsMountEffects
import NanoOs.SpscRingRuns
import NanoOs.UartWriterOutput
import NanoOs.Ext2DirectoryEntries
import NanoOs.VirtioBlk
import NanoOs.AmoEmulation
import NanoOs.FileCallEffects
import NanoOs.Ext2InodeTables
import NanoOs.LruCacheRuns
import NanoOs.BlockCache
import NanoOs.FileOffsets
import NanoOs.KernelHeapGrowth
