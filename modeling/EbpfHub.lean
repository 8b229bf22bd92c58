import EbpfHub.Foundations.Run
import EbpfHub.Memleak.HeapTracking
import EbpfHub.Memleak.Nesting
import EbpfHub.Memleak.Forwarding
import EbpfHub.Memleak.Provenance
import EbpfHub.Memleak.Attach
import EbpfHub.Memleak.Resize
import EbpfHub.Foundations.Cursor
import EbpfHub.Memleak.LiveWalk
import EbpfHub.Memleak.Aggregation
import EbpfHub.Memleak.StackRows
import EbpfHub.Memleak.Commutation
import EbpfHub.Bootstrap.History
import EbpfHub.Bootstrap.Lifetimes
import EbpfHub.Memleak.FramePrinter
import EbpfHub.Memleak.ReportBounds
import EbpfHub.Symbols.Attribution
import EbpfHub.Symbols.LinearSearch
import EbpfHub.Symbols.Failures
import EbpfHub.Symbols.Releases
import EbpfHub.Memleak.LibraryScan
import EbpfHub.Memleak.Loader
import EbpfHub.Foundations.Strtol
import EbpfHub.Memleak.Options
import EbpfHub.Bootstrap.Printer
import EbpfHub.Bootstrap.Session
import EbpfHub.Bootstrap.Endings
import EbpfHub.Foundations.Arena
import EbpfHub.Foundations.ScanLines
import EbpfHub.Foundations.Sorting
import EbpfHub.Symbols.KernelSymbols
import EbpfHub.Symbols.Kallsyms
import EbpfHub.Symbols.Probes
import EbpfHub.Foundations.Sessions
import EbpfHub.Symbols.Cache
import EbpfHub.Symbols.CacheRelease
import EbpfHub.Symbols.Uprobes
import EbpfHub.Symbols.BinaryPaths
import EbpfHub.Symbols.VdsoImage
import EbpfHub.Memleak.Census
import EbpfHub.Memleak.LeakTest
import EbpfHub.Memleak.Listing
import EbpfHub.Memleak.Session
import EbpfHub.Helpers.Histogram
import EbpfHub.Foundations.Decimal
import EbpfHub.Helpers.Partitions
import EbpfHub.Foundations.Tokens
import EbpfHub.Helpers.Conversions
import EbpfHub.Memleak.Blazesym
import EbpfHub.Memleak.Main
import EbpfHub.Memleak.MainCensus
