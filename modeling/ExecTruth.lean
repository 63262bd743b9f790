import ExecTruth.AddressSpace.AddressMap
import ExecTruth.AddressSpace.DeferredMap
import ExecTruth.AddressSpace.Mapping
import ExecTruth.AddressSpace.NamePool
import ExecTruth.Capture.Fault
import ExecTruth.Capture.Instruction
import ExecTruth.Capture.Legacy
import ExecTruth.Capture.Merge
import ExecTruth.Capture.Rich
import ExecTruth.Capture.Store
import ExecTruth.Digest
import ExecTruth.Disassembly.Listing
import ExecTruth.Elf.Header
import ExecTruth.Elf.LoadBase
import ExecTruth.Elf.Looking
import ExecTruth.Elf.Section
import ExecTruth.Emulator.Emulation
import ExecTruth.Emulator.Memory
import ExecTruth.Emulator.Plugin
import ExecTruth.Explained
import ExecTruth.Files.Canonical
import ExecTruth.Files.Job
import ExecTruth.Files.Path
import ExecTruth.Files.Tree
import ExecTruth.Files.Walk
import ExecTruth.IoFault
import ExecTruth.Log.Event
import ExecTruth.Log.FieldTest
import ExecTruth.Log.Filter
import ExecTruth.Log.Logged
import ExecTruth.Log.Rule
import ExecTruth.Main
import ExecTruth.Proofs.Capture.Epochs
import ExecTruth.Proofs.Capture.FailedMerges
import ExecTruth.Proofs.Capture.Merges
import ExecTruth.Proofs.Capture.RoundTrip
import ExecTruth.Proofs.Capture.Stored
import ExecTruth.Proofs.Digest
import ExecTruth.Proofs.Files.Jobs
import ExecTruth.Proofs.Files.Walks
import ExecTruth.Proofs.Recording.Finishes
import ExecTruth.Proofs.Recording.Histories
import ExecTruth.Proofs.Recording.Interleavings
import ExecTruth.Proofs.Recording.WholeRun
import ExecTruth.Proofs.Scoring.CountingLaws
import ExecTruth.Proofs.Scoring.Spans
import ExecTruth.Proofs.SortedMap
import ExecTruth.Proofs.Stream.Readers
import ExecTruth.Proofs.Stream.Sinks
import ExecTruth.Recording.Config
import ExecTruth.Recording.Session
import ExecTruth.Recording.WorkerCache
import ExecTruth.Recording.WorkerSets
import ExecTruth.Scoring.Comparison
import ExecTruth.Scoring.Counts
import ExecTruth.Scoring.Detail
import ExecTruth.Scoring.Verdict
import ExecTruth.SortedMap
import ExecTruth.Stream.Blocks
import ExecTruth.Stream.Emission
import ExecTruth.Stream.Sink
import ExecTruth.Stream.Source
import ExecTruth.Suite.Csv
import ExecTruth.Suite.Report
import ExecTruth.Suite.Sample
import ExecTruth.Text.Alphanumeric
import ExecTruth.Text.Blank
import ExecTruth.Text.Lines
import ExecTruth.Text.Numeral
import ExecTruth.Text.Pattern.Basic
import ExecTruth.Text.Pattern.CharSet
import ExecTruth.Text.Pattern.Reader
import ExecTruth.Text.Printable
import ExecTruth.Text.Quoted
import ExecTruth.Text.Ranges
import ExecTruth.Text.Utf8
import ExecTruth.Tool.Arguments
import ExecTruth.Tool.Basic
import ExecTruth.Tool.Batch
import ExecTruth.Tool.Disassemble
import ExecTruth.Tool.Dump
import ExecTruth.Tool.Evaluate
import ExecTruth.Tool.Failure
import ExecTruth.Word.Bytes
import ExecTruth.Word.Offset
import ExecTruth.Proofs.AddressSpace.Descriptions
import ExecTruth.Proofs.AddressSpace.Lookups
import ExecTruth.Proofs.AddressSpace.DeferredMaps
import ExecTruth.Proofs.Recording.Translations
import ExecTruth.Proofs.Capture.LegacyRoundTrip
import ExecTruth.Proofs.Recording.SelfEvaluation
import ExecTruth.Proofs.Capture.Layout
import ExecTruth.Proofs.Emulator.ProcessorCalls
import ExecTruth.Proofs.Emulator.GuestRuns
import ExecTruth.Proofs.Recording.Segments
import ExecTruth.Proofs.Text.Numerals
import ExecTruth.Proofs.Text.Cuts
import ExecTruth.Proofs.Scoring.Evidence
import ExecTruth.Proofs.Elf.SectionTables
import ExecTruth.Proofs.Disassembly.Addresses
import ExecTruth.Proofs.Files.Components
import ExecTruth.Proofs.AddressSpace.BackingPaths
import ExecTruth.Proofs.Capture.CanonicalForm
import ExecTruth.Proofs.Scoring.LoadAddresses
import ExecTruth.Proofs.Scoring.BeyondOffsets
import ExecTruth.Proofs.Scoring.DetailLists
import ExecTruth.Proofs.Capture.AddressLists
import ExecTruth.Proofs.Capture.LimitedRoom
import ExecTruth.Proofs.Text.Words
import ExecTruth.Proofs.AddressSpace.MappingGrammar
import ExecTruth.Proofs.Disassembly.Compositions
import ExecTruth.Proofs.Files.Spellings
import ExecTruth.Proofs.AddressSpace.InternedNames
import ExecTruth.Proofs.Elf.StoredHeaders
import ExecTruth.Proofs.Elf.Looks
import ExecTruth.Proofs.Files.Openings
import ExecTruth.Proofs.Stream.HeldBack
import ExecTruth.Proofs.Scoring.Comparisons
import ExecTruth.Proofs.Scoring.ListFiles
import ExecTruth.Proofs.Suite.Records
import ExecTruth.Proofs.Suite.Reports
import ExecTruth.Proofs.Files.Names
import ExecTruth.Proofs.Files.Directories
import ExecTruth.Proofs.Suite.Samples
import ExecTruth.Proofs.Tool.Dumps
import ExecTruth.Proofs.Tool.Outputs
import ExecTruth.Proofs.Tool.OutputNames
