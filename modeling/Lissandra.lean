import Lissandra.Network
import Lissandra.SelectPlacement
import Lissandra.SelectDuringDump
import Lissandra.InsertDuringDump
import Lissandra.CompactionDuringDump
import Lissandra.InterruptedCompaction
import Lissandra.StaleReads
import Lissandra.HashedReads
import Lissandra.ConsoleCommands
import Lissandra.CreatedTables
import Lissandra.RequestServer
import Lissandra.SchedulerWakeups
import Lissandra.RecordBounds
import Lissandra.ValueSize
import Lissandra.Gossiping
import Lissandra.MemoryCriteria
import Lissandra.Describer
import Lissandra.JournalCompletion
import Lissandra.Dispatch
import Lissandra.ScriptOrder
import Lissandra.PendingWrites
import Lissandra.PageKeys
import Lissandra.MemorySections
import Lissandra.FileTree
import Lissandra.CreatedFiles
import Lissandra.TableThreads
import Lissandra.TableBlocks
import Lissandra.TableThreadSteps
import Lissandra.DropRaces
import Lissandra.KeyedList
import Lissandra.MetadataUpdates
import Lissandra.RoundRobin
import Lissandra.EventualSelection
import Lissandra.LastWriter
import Lissandra.GossipMerging
import Lissandra.GossipPlaceholder
import Lissandra.TypedNumbers
import Lissandra.References
import Lissandra.NestedScripts
import Lissandra.JournalRetries
import Lissandra.BlockSizes
import Lissandra.DirectoryEntries
import Lissandra.TableCatalog
import Lissandra.DirectoryRemoval
import Lissandra.TableExistence
import Lissandra.FirstGap
import Lissandra.Identifiers
import Lissandra.Statistics
import Lissandra.ScriptLines
import Lissandra.ScriptTermination
import Lissandra.CompactionThreads
import Lissandra.ListHoles
import Lissandra.ExecSlots
import Lissandra.ExecSlotSteps
import Lissandra.ExecSlotsKept
import Lissandra.Linearization
import Lissandra.SchedulerProgress
import Lissandra.ReadyOrder
import Lissandra.RemoteCallRuns
import Lissandra.JournaledRecords
import Lissandra.BlockCreator
import Lissandra.Metrics
import Lissandra.GossipPhases
import Lissandra.AnsweredValues
import Lissandra.ConfigWatch
import Lissandra.CatalogAgreement
import Lissandra.KernelAgreement
import Lissandra.StatementEnds
