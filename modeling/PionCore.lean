import PionCore.Common.Base64
import PionCore.Common.PionBlob
import PionCore.Common.PionId
import PionCore.Common.PionLockedQueue
import PionCore.Common.PionPlugin
import PionCore.Common.PionPluginInstancePtr
import PionCore.Common.PionPoolAllocator
import PionCore.Common.PionScheduler
import PionCore.Common.PluginManager
import PionCore.Common.TwoLockQueue
import PionCore.Common.URLEscapes
import PionCore.Lib.Cursors
import PionCore.Lib.PathPrefix
import PionCore.Lib.SortedMap
import PionCore.Lib.TextInput
import PionCore.Lib.Transactions
import PionCore.Lib.UTF8
import PionCore.Lib.WordSearch
import PionCore.Lib.Words
import PionCore.Net.ByteCount
import PionCore.Net.ChunkedTransfer
import PionCore.Net.ContentBounds
import PionCore.Net.CookieRoundTrip
import PionCore.Net.DiskFileSender
import PionCore.Net.Dispatch
import PionCore.Net.Exchange
import PionCore.Net.FileService
import PionCore.Net.Finishing
import PionCore.Net.ForwardedFor
import PionCore.Net.Fragmentation
import PionCore.Net.GapLaw
import PionCore.Net.HTTPRequestWriter
import PionCore.Net.HTTPResponseWriter
import PionCore.Net.IdleSessions
import PionCore.Net.LoginResponses
import PionCore.Net.MessageCopy
import PionCore.Net.MessageNumbers
import PionCore.Net.ParserErrors
import PionCore.Net.ParserLimits
import PionCore.Net.Pipelining
import PionCore.Net.QueryRoundTrip
import PionCore.Net.ReadTimeouts
import PionCore.Net.Reserialise
import PionCore.Net.Reset
import PionCore.Net.ResourceLookup
import PionCore.Net.ResponseContent
import PionCore.Net.RoundTrip
import PionCore.Net.ServerLock
import PionCore.Net.ServiceConfig
import PionCore.Net.TCPServer
import PionCore.Net.TCPStream
import PionCore.Platform.BoundEvents
import PionCore.Platform.CStyle
import PionCore.Platform.Comparison
import PionCore.Platform.ConnectionAgreement
import PionCore.Platform.CreditCards
import PionCore.Platform.DatabaseBatches
import PionCore.Platform.DatabaseInserter
import PionCore.Platform.ELFDirectives
import PionCore.Platform.Event
import PionCore.Platform.EventCopies
import PionCore.Platform.EventDelivery
import PionCore.Platform.EventPtr
import PionCore.Platform.EventText
import PionCore.Platform.ExchangeTimes
import PionCore.Platform.ExtractionLoops
import PionCore.Platform.FailedConfigure
import PionCore.Platform.FieldCodec
import PionCore.Platform.FinalContent
import PionCore.Platform.FissionReactor
import PionCore.Platform.HTTPProtocol
import PionCore.Platform.InterimResponses
import PionCore.Platform.JSONCallbacks
import PionCore.Platform.JSONCodec
import PionCore.Platform.JSONRoundTrip
import PionCore.Platform.KeyCache
import PionCore.Platform.LogCaches
import PionCore.Platform.LogCodec
import PionCore.Platform.LogEscaping
import PionCore.Platform.LogInputReactor
import PionCore.Platform.LogOutputReactor
import PionCore.Platform.LogProgress
import PionCore.Platform.LogReader
import PionCore.Platform.LogWriter
import PionCore.Platform.MatchAllValues
import PionCore.Platform.MonitorWriter
import PionCore.Platform.Packetisation
import PionCore.Platform.Permissions
import PionCore.Platform.PluginConfig
import PionCore.Platform.ProtocolClones
import PionCore.Platform.ReactorConnections
import PionCore.Platform.ReactorLock
import PionCore.Platform.RuleChain
import PionCore.Platform.SQLTemplates
import PionCore.Platform.ScriptArguments
import PionCore.Platform.SplitJoin
import PionCore.Platform.StreamBlocks
import PionCore.Platform.TailMode
import PionCore.Platform.TempConnection
import PionCore.Platform.TransformEvents
import PionCore.Platform.TransformReactor
import PionCore.Platform.TruncatedValues
import PionCore.Platform.UTF8Blob
import PionCore.Platform.UTF8Checks
import PionCore.Platform.UTF8Reads
import PionCore.Platform.UserManager
import PionCore.Platform.VocabularyConfig
import PionCore.Platform.VocabularyCopy
import PionCore.Platform.VocabularyDefinition
import PionCore.Platform.VocabularyFile
import PionCore.Platform.VocabularyManager
import PionCore.Platform.VocabularySizes
import PionCore.Platform.VocabularyTable
import PionCore.Platform.Workspaces
import PionCore.Platform.XMLCodec
import PionCore.Platform.XMLEncoding
import PionCore.Platform.XMLRoundTrip
