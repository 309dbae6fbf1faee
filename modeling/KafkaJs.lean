import KafkaJs.Consumer.WakeUp
import KafkaJs.Consumer.FetchManagerStop
import KafkaJs.Consumer.Fetchers
import KafkaJs.Consumer.Lifecycle
import KafkaJs.Consumer.Membership
import KafkaJs.Consumer.GroupLookups
import KafkaJs.Consumer.GroupCommits
import KafkaJs.Consumer.SeekStages
import KafkaJs.Consumer.SubscriptionState
import KafkaJs.Network.Initialization
import KafkaJs.Network.Authentication
import KafkaJs.Network.Disconnection
import KafkaJs.Network.RequestOrder
import KafkaJs.Producer.EosManager.Registration
import KafkaJs.Producer.Idempotence
import KafkaJs.Producer.Isolation
import KafkaJs.Producer.TransactionOffsets
import KafkaJs.Producer.ConnectingSafety
import KafkaJs.Producer.PartialSuccess
import KafkaJs.Producer.RoundRobin
import KafkaJs.Producer.Murmur2
import KafkaJs.Protocol.Items
import KafkaJs.Protocol.FetchMessages
import KafkaJs.Protocol.VersionNegotiation
import KafkaJs.Data.Integers
import KafkaJs.Data.Words
import KafkaJs.Protocol.ProducePartition
import KafkaJs.Execution.Rounds
import KafkaJs.Protocol.DecodingLoops
import KafkaJs.Protocol.Crc32
import KafkaJs.Protocol.MessageSetRoundTrip
import KafkaJs.Cluster.BrokerPool
import KafkaJs.Consumer.AssignerProtocol
import KafkaJs.Consumer.SyncGroup
import KafkaJs.Data.Dealing
import KafkaJs.Consumer.RoundRobinAssigner
import KafkaJs.Producer.EosManager.SequenceRuns
import KafkaJs.Protocol.ProduceTimestamps
import KafkaJs.Protocol.CompressedOffsets
import KafkaJs.Consumer.ReadReplicas
import KafkaJs.Protocol.RecordHeaders
import KafkaJs.Cluster.TopicOffsets
import KafkaJs.Consumer.OffsetManager
import KafkaJs.Consumer.InitialOffsets
import KafkaJs.Consumer.SeekModes
import KafkaJs.Consumer.UncommittedOffsets
import KafkaJs.Consumer.CommitRuns
import KafkaJs.Consumer.OffsetOutOfRange
import KafkaJs.Cluster.TargetTopics
import KafkaJs.Network.PendingWakeUps
import KafkaJs.Retry
import KafkaJs.Data.ShiftRegister
import KafkaJs.Protocol.Checksums
import KafkaJs.Data.Turns
import KafkaJs.Producer.Evenness
import KafkaJs.Protocol.RecordLength
import KafkaJs.Protocol.FlexibleGrammar
import KafkaJs.Protocol.OffsetFetch
import KafkaJs.Data.Escaping
import KafkaJs.Network.Scram
import KafkaJs.Execution.Appending
import KafkaJs.Protocol.EncoderWrites
import KafkaJs.Consumer.FetcherGenerations
import KafkaJs.Consumer.PartitionExclusion
import KafkaJs.Admin.SetOffsetsCommits
import KafkaJs.Consumer.GroupExchange
import KafkaJs.Consumer.PartitionOrder
import KafkaJs.Consumer.DeadLetterQueue
import KafkaJs.Network.RequestFrames
import KafkaJs.Network.ResponseMatching
import KafkaJs.Network.Multiplexing
import KafkaJs.Protocol.LoopReaders
import KafkaJs.Protocol.FetchResponse
import KafkaJs.Consumer.StoredLog
import KafkaJs.Consumer.FetchedBytes
import KafkaJs.Consumer.HandledMessages
import KafkaJs.Consumer.EndToEnd
import KafkaJs.Consumer.Successors
import KafkaJs.Producer.Accounts
import KafkaJs.Producer.Receipts
import KafkaJs.Producer.Completeness
