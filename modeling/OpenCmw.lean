import OpenCmw.Bytes
import OpenCmw.LongPollingBatch
import OpenCmw.BatchRoundTrip
import OpenCmw.BatchPrefixFree
import OpenCmw.Containers
import OpenCmw.Uri
import OpenCmw.Message
import OpenCmw.Machine
import OpenCmw.PriorityFifo
import OpenCmw.ServiceQueue
import OpenCmw.BrokerDns
import OpenCmw.Broker
import OpenCmw.BrokerSteps
import OpenCmw.SubscriptionDelivery
import OpenCmw.WorkerPool
import OpenCmw.WorkerRotation
import OpenCmw.RequestRouting
import OpenCmw.MdpTopic
import OpenCmw.PartitionPoint
import OpenCmw.RestSession
import OpenCmw.RestServer
import OpenCmw.RestSteps
import OpenCmw.GetMessages
import OpenCmw.StreamClose
import OpenCmw.LongPolls
import OpenCmw.MdpRoundTrip
import OpenCmw.ZmqTopic
import OpenCmw.RedirectTarget
import OpenCmw.WireFormat
import OpenCmw.ByteReader
import OpenCmw.FieldTypes
import OpenCmw.IoBuffer
import OpenCmw.IoSerialiser
import OpenCmw.YasRoundTrip
import OpenCmw.BinaryBounds
import OpenCmw.ClaimStrategy
import OpenCmw.CmwLightRoundTrip
import OpenCmw.JsonMaps
import OpenCmw.JsonProgress
import OpenCmw.JsonTermination
import OpenCmw.RingClaims
import OpenCmw.YasTermination
import OpenCmw.BodyChunks
import OpenCmw.ClientExpiry
import OpenCmw.Lookups
import OpenCmw.PercentCoding
import OpenCmw.PollValidation
import OpenCmw.QueryOrder
import OpenCmw.RingBuffer
import OpenCmw.RingDelivery
import OpenCmw.StrategyAgreement
import OpenCmw.MdClient
import OpenCmw.MdReplies
import OpenCmw.MdSubscriptions
import OpenCmw.RestClient
import OpenCmw.RestClientSteps
import OpenCmw.RestReplies
import OpenCmw.RestSubscriptions
import OpenCmw.SettingBase
import OpenCmw.SettingHistory
import OpenCmw.TransactionLock
import OpenCmw.MultiArray
import OpenCmw.TaskQueue
import OpenCmw.ReaderWriterLock
import OpenCmw.IoBufferGrowth
import OpenCmw.NumberFilter
import OpenCmw.TimingCache
import OpenCmw.UriAssign
import OpenCmw.UriBuilder
import OpenCmw.UriQueryCache
