import Cube.Alpha.SqlMakerReads
import Cube.Base.Aes
import Cube.Base.Alarm
import Cube.Base.Base64
import Cube.Base.Base64RoundTrip
import Cube.Base.DictionaryText
import Cube.Base.Dispatch
import Cube.Base.Djson
import Cube.Base.DrbQueue
import Cube.Base.MQueue
import Cube.Base.Number
import Cube.Base.RwLock
import Cube.Base.RwLockExclusive
import Cube.Base.RwLockStranded
import Cube.Base.SrtQueue
import Cube.Base.TQueue
import Cube.Base.TQueueDelivery
import Cube.Base.TQueueFifo
import Cube.Base.TQueueGets
import Cube.Base.TQueueOvertaken
import Cube.Base.TQueuePosts
import Cube.Base.Util
import Cube.Base.Version
import Cube.CtpTrade.Holiday
import Cube.Database.ConnPool
import Cube.Database.PoolExclusive
import Cube.Eco.Codec.NullByteCoder
import Cube.Eco.Codec.ZlibFlate
import Cube.Eco.Config
import Cube.Eco.ConfigIndex
import Cube.Eco.ConfigPaths
import Cube.Eco.ConfigViews
import Cube.Eco.DateTime
import Cube.Eco.DurationUnit
import Cube.Eco.Durations
import Cube.Eco.Export
import Cube.Eco.Filesystem.PathEqual
import Cube.Eco.Format
import Cube.Eco.LiveTimer
import Cube.Eco.LiveTimerFair
import Cube.Eco.LiveTimerWaits
import Cube.Eco.Log.Accounting
import Cube.Eco.Log.DailyRoll
import Cube.Eco.Log.DrainedLog
import Cube.Eco.Log.FileSink
import Cube.Eco.Log.LogThreads
import Cube.Eco.Log.Packs
import Cube.Eco.Log.Queue
import Cube.Eco.Log.Stock
import Cube.Eco.Log.WholeLines
import Cube.Eco.Memory
import Cube.Eco.Net.AddressUpdate
import Cube.Eco.Net.DispatchServer
import Cube.Eco.Net.EvenLoad
import Cube.Eco.Net.InactivePeers
import Cube.Eco.Net.LoadBalancer
import Cube.Eco.Net.MessageAgreement
import Cube.Eco.Net.MessageBody
import Cube.Eco.Net.Net
import Cube.Eco.Net.ParseKey
import Cube.Eco.Net.Protocol
import Cube.Eco.Net.ReceivedContent
import Cube.Eco.Net.RequestData
import Cube.Eco.Net.RequestPairing
import Cube.Eco.Net.SessionIsolation
import Cube.Eco.Net.SessionLifetime
import Cube.Eco.Net.ShakeHand
import Cube.Eco.Net.ShakeHandKey
import Cube.Eco.Net.TcpConnector
import Cube.Eco.Net.TcpDelivery
import Cube.Eco.Net.TcpFraming
import Cube.Eco.Net.TcpPeer
import Cube.Eco.Net.TcpPeerSet
import Cube.Eco.Net.TcpProtocol
import Cube.Eco.Net.TcpRoundTrip
import Cube.Eco.Net.TcpServer
import Cube.Eco.Net.TcpState
import Cube.Eco.Net.WebSocketFrame
import Cube.Eco.Net.WebSocketFraming
import Cube.Eco.Net.WebSocketProtocol
import Cube.Eco.Net.WebSocketRoundTrip
import Cube.Eco.Occupation
import Cube.Eco.Persist.GeneratedSql
import Cube.Eco.Persist.JoinClosed
import Cube.Eco.Persist.JoinDecoding
import Cube.Eco.Persist.SaveAtomicity
import Cube.Eco.Persist.Transaction
import Cube.Eco.Persist.TransactionBalance
import Cube.Eco.Persist.TransactionIndependence
import Cube.Eco.Persist.UpgradeRecord
import Cube.Eco.Thread.AutoRef
import Cube.Eco.Thread.CancelledTimers
import Cube.Eco.Thread.MessageQueue
import Cube.Eco.Thread.MessageQueueClose
import Cube.Eco.Thread.MessageQueueOrder
import Cube.Eco.Thread.MessageQueueUnique
import Cube.Eco.Thread.SetTopic
import Cube.Eco.Thread.SetTopicEvents
import Cube.Eco.Thread.SetTopicReplicas
import Cube.Eco.Thread.Subscription
import Cube.Eco.Thread.SubscriptionLists
import Cube.Eco.Thread.TopicContent
import Cube.Eco.Thread.TopicDelivery
import Cube.Eco.Thread.TopicMap
import Cube.Eco.Thread.TopicMapReach
import Cube.Eco.Thread.TopicMembership
import Cube.Eco.Thread.TopicPublish
import Cube.Eco.Thread.TopicRemoval
import Cube.Eco.Thread.TopicServer
import Cube.Eco.Type
import Cube.Eco.UnitTime
import Cube.Eco.Web.JsonPlacement
import Cube.Eco.Web.Recomposition
import Cube.Eco.Web.TotalScanning
import Cube.Fndnet.Delivery
import Cube.Fndnet.HostileInput
import Cube.Fndnet.Resynchronise
import Cube.Fndnet.Segmentation
import Cube.Fndnet.Sending
import Cube.Fndnet.ServerNotify
import Cube.Lib.Assoc
import Cube.Lib.BigEndian
import Cube.Lib.Buffer
import Cube.Lib.Calendar
import Cube.Lib.CursorList
import Cube.Lib.Drain
import Cube.Lib.Interleaving
import Cube.Lib.LeastFirst
import Cube.Lib.OrderedSet
import Cube.Lib.Outcome
import Cube.Lib.PageTable
import Cube.Lib.Run
import Cube.Lib.Tally
import Cube.Liblight.Delivery
import Cube.Liblight.ReadSafety
import Cube.Liblight.ServerLoad
import Cube.Liblight.SessionIds
import Cube.Libmysql.Atomicity
import Cube.Libmysql.DbMysqlConn
import Cube.Libmysql.Requests
import Cube.Libmysql.ResultFields
import Cube.Libmysql.Transactions
import Cube.Utility.DateTime
import Cube.Utility.Properties
