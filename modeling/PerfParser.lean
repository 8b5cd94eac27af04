import PerfParser.Lib.StableSort
import PerfParser.Lib.History
import PerfParser.Lib.Spans
import PerfParser.Records
import PerfParser.ElfMap
import PerfParser.ElfRanges
import PerfParser.ElfMapRefine
import PerfParser.ElfInvalidation
import PerfParser.Unwind
import PerfParser.UnwindSteps
import PerfParser.UnwindOrder
import PerfParser.UnwindDrain
import PerfParser.UnwindTasks
import PerfParser.AddressCache
import PerfParser.CacheLayouts
import PerfParser.Lib.Interner
import PerfParser.SymbolTable
import PerfParser.SymbolNames
import PerfParser.UnwindCalm
import PerfParser.SymbolTables
import PerfParser.SymbolMaps
import PerfParser.UnwindForks
import PerfParser.Decode
import PerfParser.Layouts
import PerfParser.PerfData
import PerfParser.ReadEvents
import PerfParser.ReadDevices
import PerfParser.Decompress
import PerfParser.CarryOver
import PerfParser.SampleLayout
import PerfParser.PerfHeader
import PerfParser.SymbolDefinitions
import PerfParser.SymbolRegions
import PerfParser.LocationNames
import PerfParser.SymbolRemaps
import PerfParser.UnwindWritten
import PerfParser.Output
import PerfParser.OutputDefined
import PerfParser.BufferSizes
import PerfParser.BufferModes
import PerfParser.PerfStdin
import PerfParser.Callchains
import PerfParser.UnwindTrailing
import PerfParser.FinishReading
import PerfParser.RecordFraming
import PerfParser.RecordLengths
import PerfParser.RecordBoundaries
import PerfParser.StreamEnds
import PerfParser.InlineChains
import PerfParser.Lib.Text
import PerfParser.TracingData
import PerfParser.TracingLines
import PerfParser.TracingBlob
import PerfParser.AttributeFlags
import PerfParser.ReadFormats
import PerfParser.Lib.Loop
import PerfParser.PerfFeatures
import PerfParser.BuildIds
import PerfParser.ListBounds
import PerfParser.TraceData
import PerfParser.TraceArrays
import PerfParser.Lib.LowerBound
import PerfParser.SymbolSearch
import PerfParser.HexNumbers
import PerfParser.Kallsyms
import PerfParser.PerfMap
import PerfParser.PerfMapCuts
import PerfParser.DwflRanges
import PerfParser.Lib.Rank
import PerfParser.Registers
import PerfParser.UnwindMemory
import PerfParser.ExtraPath
import PerfParser.DieNames
import PerfParser.UnwindSizes
import PerfParser.UnwindTimes
import PerfParser.ElfBases
import PerfParser.UnwindGuesses
import PerfParser.Lib.TreeWalk
import PerfParser.InlineScopes
import PerfParser.Lib.Frames
import PerfParser.HashOrder
import PerfParser.FeatureSections
import PerfParser.FileEvents
import PerfParser.Application
import PerfParser.Streams
import PerfParser.BufferedFile
import PerfParser.FileAttributes
import PerfParser.FeatureLayouts
import PerfParser.WrittenEvents
import PerfParser.WrittenFile
import PerfParser.Wire
import PerfParser.TestClient
import PerfParser.WireReads
import PerfParser.ClientTables
import PerfParser.ClientRuns
import PerfParser.StatsMode
import PerfParser.StatsSummary
