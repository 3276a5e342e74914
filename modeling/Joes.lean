import Joes.RadixHeap
import Joes.BitField
import Joes.Bitmap
import Joes.CallRun
import Joes.CallChain
import Joes.ResourceLedger
import Joes.PageTableEntry
import Joes.BitLayout
import Joes.PageTableLayout
import Joes.Paging
import Joes.PagingWalk
import Joes.PagingMap
import Joes.PagingUnmap
import Joes.PagingRefinement
import Joes.PagingConfusion
import Joes.PagingOutOfMemory
import Joes.PagingReadBack
import Joes.PagingShortage
import Joes.PagingTruncation
import Joes.PagingLedger
import Joes.PagingRights
import Joes.PagingTwin
import Joes.PagingClone
import Joes.PagingCloneCopy
import Joes.PagingCloneCalls
import Joes.PagingCloneComplete
import Joes.PagingCloneStale
import Joes.PagingCloneRights
import Joes.PmmRegion
import Joes.Pmm
import Joes.PmmLookup
import Joes.PmmCheckPage
import Joes.PmmLayout
import Joes.PmmInit
import Joes.PmmMetadata
import Joes.PmmSearch
import Joes.PmmAlloc
import Joes.PmmFree
import Joes.PmmCalls
import Joes.PmmClient
import Joes.PmmUnusable
import Joes.PmmCounters
import Joes.PmmEstablish
import Joes.AscendingLog
import Joes.Terminal
import Joes.Charset
import Joes.Framebuffer
import Joes.TextScreen
import Joes.Display
import Joes.DisplayText
import Joes.RingQueue
import Joes.Keyboard
import Joes.Ps2Modifiers
import Joes.Ps2Scancode
import Joes.Pic
import Joes.Idt
import Joes.TracedProgram
import Joes.PmmRegionBounds
import Joes.Ps2
import Joes.Ps2Keyboard
import Joes.KeyboardLayout
import Joes.Ps2Interrupts
import Joes.Ps2Init
import Joes.Ps2Dialogue
import Joes.Ps2Identify
import Joes.Ps2SendBound
import Joes.Ps2Acknowledge
import Joes.Ps2Pipeline
import Joes.CharBuffer
import Joes.Libc
import Joes.Strrev
import Joes.LibcNumerals
import Joes.Memmove
import Joes.Serial
import Joes.Logging
import Joes.LoggingFormat
import Joes.Transducer
import Joes.FormatSteps
import Joes.Printf
import Joes.PrintfSteps
import Joes.PrintfCount
import Joes.PrintfLogging
import Joes.TextReading
import Joes.AnalyzePtDump
import Joes.Segments
import Joes.MemoryBlocks
import Joes.PagingDump
import Joes.PagingDumpAnalysis
import Joes.InterruptHandler
import Joes.DrainedQueue
import Joes.KeyboardPipeline
import Joes.InterruptMessages
import Joes.PicService
import Joes.Gdt
import Joes.WordStack
import Joes.Isr
import Joes.AddressSpaces
import Joes.KernelMemory
import Joes.Uart
import Joes.SerialLine
import Joes.Pit
import Joes.SplitSerialOutput
import Joes.MemoryFunctions
import Joes.PagingBytes
