import RedFireForge.Lib.Run
import RedFireForge.Lib.Proc
import RedFireForge.Lib.Jobs
import RedFireForge.Lib.Split
import RedFireForge.Lib.Json
import RedFireForge.Lib.JsonTree
import RedFireForge.Lib.JsonPretty
import RedFireForge.Lib.FirstFit
import RedFireForge.Lib.InsertionMap
import RedFireForge.Lib.Address
import RedFireForge.Lib.AddressSpelling
import RedFireForge.Workflow.Graph
import RedFireForge.Workflow.State
import RedFireForge.Workflow.Runner
import RedFireForge.Workflow.Moves
import RedFireForge.Workflow.Joins
import RedFireForge.Workflow.Loops
import RedFireForge.Workflow.TemplateLiterals
import RedFireForge.Workflow.Termination
import RedFireForge.Workflow.ErrorHandling
import RedFireForge.Workflow.Trace
import RedFireForge.Workflow.SubWorkflow
import RedFireForge.Workflow.PollThrottle
import RedFireForge.Correlation.Store
import RedFireForge.Correlation.ServerStore
import RedFireForge.Correlation.ResumeDesk
import RedFireForge.Correlation.Handler
import RedFireForge.Correlation.WebhookGuard
import RedFireForge.Correlation.ResumeOnce
import RedFireForge.Correlation.ResumeOwner
import RedFireForge.Engine.Pool
import RedFireForge.Engine.Allocation
import RedFireForge.Engine.Coverage
import RedFireForge.Engine.Assertions
import RedFireForge.Engine.DeepCompare
import RedFireForge.Engine.JsonPath
import RedFireForge.Engine.LoadProfile
import RedFireForge.Engine.Metrics
import RedFireForge.Engine.Negation
import RedFireForge.Engine.RerunMerge
import RedFireForge.Workflow.GraphLoad
import RedFireForge.Engine.WorkerSplit
import RedFireForge.Engine.Worker
import RedFireForge.Engine.Runners
import RedFireForge.Engine.WorkerBridge
import RedFireForge.Engine.StatusPattern
import RedFireForge.Engine.UnorderedRows
import RedFireForge.Engine.Verdict
import RedFireForge.ApiMock.ProxyPolicy
import RedFireForge.ApiMock.PathMatcher
import RedFireForge.ApiMock.PredicateEvaluator
import RedFireForge.ApiMock.ResponseSelector
import RedFireForge.ApiMock.RouteSelector
import RedFireForge.ApiMock.ConflictAnalyzer
import RedFireForge.ApiMock.ConflictSoundness
import RedFireForge.ApiMock.ConflictAbsence
import RedFireForge.ApiMock.Fingerprint
import RedFireForge.ApiMock.NetworkListener
import RedFireForge.ApiMock.ServerPool
import RedFireForge.Lib.Ring
import RedFireForge.ApiMock.JsonPath
import RedFireForge.ApiMock.JsonWrites
import RedFireForge.ApiMock.Journal
import RedFireForge.ApiMock.JournalPoll
import RedFireForge.ApiMock.JournalRedaction
import RedFireForge.ApiMock.NativeRedaction
import RedFireForge.ApiMock.NativeProxy
import RedFireForge.ApiMock.NativeSelector
import RedFireForge.ApiMock.NativeParity
import RedFireForge.Server.CronScheduler
import RedFireForge.Grpc.StreamRegistry
import RedFireForge.Grpc.OutboundUrlPolicy
import RedFireForge.Lib.Calendar
import RedFireForge.Lib.Letters
import RedFireForge.Lib.FieldLoop
import RedFireForge.Grpc.DynamicProtoCodec
import RedFireForge.Grpc.ProtoBodies
import RedFireForge.Grpc.ProtoSteps
import RedFireForge.Grpc.ProtoItems
import RedFireForge.Grpc.ProtoPasses
import RedFireForge.Grpc.ProtoStrict
import RedFireForge.Grpc.ProtoRoundTrip
import RedFireForge.Kafka.SubscriptionStore
import RedFireForge.Correlation.RemoteStore
import RedFireForge.Kafka.TriggerManager
import RedFireForge.Correlation.WebhookSecurity
import RedFireForge.Lib.Bits32
import RedFireForge.Correlation.IpWhitelist
import RedFireForge.Kafka.ConsumeOnce
import RedFireForge.Lib.Grouping
import RedFireForge.Workflow.HostResolve
import RedFireForge.Workflow.Migrations
import RedFireForge.Workflow.MigrationSteps
import RedFireForge.Workflow.MigrationUrls
import RedFireForge.Workflow.MigrationGraph
import RedFireForge.Native.AbortToken
import RedFireForge.Native.LoadProfile
import RedFireForge.Native.LoadExecutor
import RedFireForge.Native.ThinkTime
import RedFireForge.Native.StreamRegistry
import RedFireForge.Kafka.BodyContains
import RedFireForge.Lib.Text
import RedFireForge.Mapper.ValidationDsl
import RedFireForge.Mapper.DslRoundTrip
import RedFireForge.Mapper.DslLoss
import RedFireForge.Mapper.BodyTemplate
import RedFireForge.Mapper.BodyRoundTrip
import RedFireForge.Correlation.WebhookFilter
import RedFireForge.Correlation.WebhookFormula
import RedFireForge.Workflow.VariableContext
import RedFireForge.Workflow.Versioning
import RedFireForge.Workflow.WaitCondition
import RedFireForge.Workflow.ExtractSubWorkflow
import RedFireForge.Lib.Forest
import RedFireForge.Lib.Scan
import RedFireForge.Lib.Search
import RedFireForge.Workflow.FolderTree
import RedFireForge.Workflow.FolderMoves
import RedFireForge.Native.CallRegistry
import RedFireForge.Native.ListenerPool
import RedFireForge.Kafka.NewestFirst
import RedFireForge.Websocket.StompCodec
import RedFireForge.Engine.SubsetMatch
import RedFireForge.ApiMock.ProxyLiterals
import RedFireForge.ApiMock.RequestNormalization
import RedFireForge.ApiMock.SelectionOrder
import RedFireForge.ApiMock.ConflictWitness
import RedFireForge.Engine.TokenManager
import RedFireForge.Lib.Ramp
import RedFireForge.Native.ArrivalRamp
import RedFireForge.Workflow.PayloadTemplate
import RedFireForge.Workflow.WebhookLoad
import RedFireForge.Websocket.SocketIoCodec
import RedFireForge.Grpc.StreamDelivery
import RedFireForge.Grpc.TauriEventBuffer
import RedFireForge.Grpc.StreamSse
