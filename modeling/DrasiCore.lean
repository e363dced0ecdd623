import DrasiCore.Proofs.ArchiveRefinement
import DrasiCore.Proofs.BatchCheckpoints
import DrasiCore.Proofs.CachedElementIndex
import DrasiCore.Proofs.CachedResultIndex
import DrasiCore.Proofs.CollapsedAggregation
import DrasiCore.Proofs.ComponentGraph
import DrasiCore.Proofs.ConfirmedPositions
import DrasiCore.Proofs.ElementTables
import DrasiCore.Proofs.FutureDeadlines
import DrasiCore.Proofs.FutureQueueBag
import DrasiCore.Proofs.GarnetBuffer
import DrasiCore.Proofs.GroupingIdentity
import DrasiCore.Proofs.KafkaReplay
import DrasiCore.Proofs.LazySortedSet
import DrasiCore.Proofs.LinearGradient
import DrasiCore.Proofs.LiveEvents
import DrasiCore.Proofs.MySqlPosition
import DrasiCore.Proofs.PositionFilters
import DrasiCore.Proofs.PostgresNumeric
import DrasiCore.Proofs.PriorityQueue
import DrasiCore.Proofs.ProjectionRuns
import DrasiCore.Proofs.QuerySubscriptions
import DrasiCore.Proofs.ReactionForwarder
import DrasiCore.Proofs.RocksDbElements
import DrasiCore.Proofs.SafeLru
import DrasiCore.Proofs.ShadowedFutureQueue
import DrasiCore.Proofs.StartRecovery
import DrasiCore.Proofs.Syntax
import DrasiCore.Proofs.WriteAheadLog
