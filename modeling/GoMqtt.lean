import GoMqtt.Lib.Run
import GoMqtt.Lib.OrderedMap
import GoMqtt.Lib.Reader
import GoMqtt.Lib.Simulation
import GoMqtt.Lib.Stamp
import GoMqtt.Lib.Bitmap
import GoMqtt.Lib.Varint
import GoMqtt.Lib.Flight
import GoMqtt.Protocol.Wire
import GoMqtt.Protocol.Properties
import GoMqtt.Protocol.Packet
import GoMqtt.Protocol.Topic
import GoMqtt.Protocol.TopicGrammar
import GoMqtt.Protocol.PropertyGrammar
import GoMqtt.Protocol.PacketRoundTrip
import GoMqtt.Protocol.Connect
import GoMqtt.Protocol.MockBroker
import GoMqtt.Session.Store
import GoMqtt.Session.StoreOrder
import GoMqtt.Session.IdAllocator
import GoMqtt.Session.Identifiers
import GoMqtt.Session.Quota
import GoMqtt.Session.Semaphore
import GoMqtt.Session.Drop
import GoMqtt.Client.Subscriptions
import GoMqtt.Client.Config
import GoMqtt.Client.State
import GoMqtt.Client.Publish
import GoMqtt.Client.Pump
import GoMqtt.Client.FanOut
import GoMqtt.Client.Connect
import GoMqtt.Client.Run
import GoMqtt.Client.Session
import GoMqtt.Client.Accounting
import GoMqtt.Client.View
import GoMqtt.Client.CallRefinement
import GoMqtt.Client.FrameRefinement
import GoMqtt.Client.Refinement
import GoMqtt.Client.Events
import GoMqtt.Client.FlowControl
import GoMqtt.Client.Acknowledgement
import GoMqtt.Client.ExactlyOnce
import GoMqtt.Client.Replay
import GoMqtt.Client.Ownership
import GoMqtt.Client.Limits
import GoMqtt.Client.KeepAlive
import GoMqtt.Client.Outbox
import GoMqtt.Inbound.Decode
import GoMqtt.Inbound.Connack
import GoMqtt.Inbound.Truncation
import GoMqtt.Inbound.Aliases
import GoMqtt.Inbound.Indexed
import GoMqtt.Inbound.Bounds
import GoMqtt.Broker.Delivery
import GoMqtt.Broker.Refinement
import GoMqtt.Broker.WindDown
import GoMqtt.Broker.Copies
import GoMqtt.Circuit.Callbacks
import GoMqtt.Circuit.Stragglers
import GoMqtt.Concurrent.FailedSend
import GoMqtt.Concurrent.Machine
import GoMqtt.Concurrent.Registration
import GoMqtt.Concurrent.SendOrder
import GoMqtt.Concurrent.StaleReader
import GoMqtt.Concurrent.Supersede
import GoMqtt.Concurrent.Teardown
import GoMqtt.Concurrent.Waiters
import GoMqtt.Reconnect.Backoff
import GoMqtt.Reconnect.Flap
import GoMqtt.Reconnect.Retry
import GoMqtt.Reconnect.Range
import GoMqtt.Reconnect.StartStop
