import KeyedStore.Backend.Memory
import KeyedStore.Backend.Scripted
import KeyedStore.CommandLine.Server
import KeyedStore.Engine
import KeyedStore.Journal.Cursor
import KeyedStore.Main
import KeyedStore.Service.Dispatch
import KeyedStore.Proofs.JournalFrames
import KeyedStore.Proofs.Rows
import KeyedStore.Proofs.TableFiles
import KeyedStore.Proofs.AcceptedTables
import KeyedStore.Proofs.TableAgreement
import KeyedStore.Proofs.Places
import KeyedStore.Proofs.Decimals
import KeyedStore.Proofs.TableNames
import KeyedStore.Proofs.Replay
import KeyedStore.Proofs.ShelfLayers
import KeyedStore.Proofs.ShelfChanges
import KeyedStore.Proofs.DataDirectories
import KeyedStore.Proofs.EngineStates
import KeyedStore.Proofs.Limits
import KeyedStore.Proofs.FreshDirectories
import KeyedStore.Proofs.EngineSteps
import KeyedStore.Proofs.FaithfulBackends
import KeyedStore.Proofs.MemoryEquivalence
import KeyedStore.Proofs.ReachableStates
import KeyedStore.Proofs.CrashRecovery
import KeyedStore.Proofs.JournalFiles
import KeyedStore.Proofs.UnfinishedTables
import KeyedStore.Proofs.Steps
import KeyedStore.Proofs.ShelfStates
import KeyedStore.Proofs.CompactionLeftovers
import KeyedStore.Proofs.Obstructions
import KeyedStore.Proofs.AttainedStates
import KeyedStore.Proofs.FailedWrites
import KeyedStore.Proofs.ItemImages
import KeyedStore.Proofs.PoolBuffers
import KeyedStore.Proofs.StoreSteps
import KeyedStore.Proofs.WireSizes
import KeyedStore.Proofs.CommandAnswers
import KeyedStore.Proofs.FrameStreams
import KeyedStore.Proofs.Sessions
import KeyedStore.Proofs.SessionRuns
import KeyedStore.Proofs.StreamAnswers
import KeyedStore.Proofs.FilesAtPaths
import KeyedStore.Proofs.TableBuilding
import KeyedStore.Proofs.JournalRecovery
import KeyedStore.Proofs.ShelfRuns
import KeyedStore.Proofs.ChangedBytes
import KeyedStore.Proofs.JournalRuns
import KeyedStore.Proofs.DamagedJournals
import KeyedStore.Proofs.DamagedTables
import KeyedStore.Proofs.OrderlyDisks
import KeyedStore.Proofs.JournalledEngines
import KeyedStore.Proofs.CommandCodec
import KeyedStore.Proofs.PoolStates
import KeyedStore.Proofs.PoolRuns
import KeyedStore.Proofs.PoolReturns
import KeyedStore.Proofs.WatchedReads
import KeyedStore.Proofs.Lookups
import KeyedStore.Proofs.StoredItems
import KeyedStore.Proofs.RequestBuffers
import KeyedStore.Proofs.OpenConnections
import KeyedStore.Proofs.FreshItems
import KeyedStore.Proofs.Compactions
import KeyedStore.Proofs.LoggedFlushes
import KeyedStore.Proofs.MemTableSizes
import KeyedStore.Proofs.EntryCodec
import KeyedStore.Proofs.FrameReading
import KeyedStore.Proofs.WriterRuns
import KeyedStore.Proofs.ResponseCodec
import KeyedStore.Proofs.ItemParts
import KeyedStore.Proofs.ItemAccess
import KeyedStore.Proofs.ReleasedBuffers
import KeyedStore.Proofs.TableGrammar
import KeyedStore.Proofs.TableOpening
import KeyedStore.Proofs.TableSearch
import KeyedStore.Proofs.SuffixCodec
import KeyedStore.Proofs.LossyText
import KeyedStore.Proofs.RawNames
import KeyedStore.Proofs.TableDiscovery
