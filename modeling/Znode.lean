import Znode.Lib.Bytes
import Znode.Lib.Radix
import Znode.Lib.BigEndian
import Znode.Lib.Bits
import Znode.Lib.Text
import Znode.Lib.Regex
import Znode.Lib.Feed
import Znode.Lib.Act
import Znode.Lib.Respects
import Znode.Lib.Table
import Znode.Lib.RefCounts
import Znode.Lib.OrderedMap
import Znode.Lib.MapCursor
import Znode.Lib.Positions
import Znode.Lib.System
import Znode.Lib.Nodes
import Znode.Lib.Recency
import Znode.Lib.Counts
import Znode.Lib.PriorityQueue
import Znode.Core.Stream
import Znode.Core.Compact
import Znode.Core.Serializable
import Znode.Core.Cursor
import Znode.Core.Hex
import Znode.Core.HexIntegers
import Znode.Core.Hash
import Znode.Core.Base58
import Znode.Core.Checked
import Znode.Core.Amounts
import Znode.Core.Fees
import Znode.Core.HumanBytes
import Znode.Core.Codec
import Znode.Core.Sizing
import Znode.Core.Block
import Znode.Core.BlockOrder
import Znode.Core.Random
import Znode.Core.Memory
import Znode.Core.LruSet
import Znode.Core.CappedSet
import Znode.Core.PageLocks
import Znode.Core.Hmac
import Znode.Core.Jenkins
import Znode.Core.ChainConfig
import Znode.Net.Protocol
import Znode.Net.Message
import Znode.Net.Chunks
import Znode.Net.Validate
import Znode.Net.Framing
import Znode.Net.Progress
import Znode.Net.Grammar
import Znode.Net.Addresses
import Znode.Net.AddressText
import Znode.Net.AddressPatterns
import Znode.Net.InetText
import Znode.Net.EndpointText
import Znode.Net.SubNet
import Znode.Net.PrefixLength
import Znode.Net.Reservations
import Znode.Net.Payloads
import Znode.Net.Codecs
import Znode.Net.Push
import Znode.Net.Sizes
import Znode.Net.Rejections
import Znode.Database.Cursor
import Znode.Infra.StopWatch
import Znode.Concurrency.Timer
import Znode.Concurrency.Stoppable
import Znode.Concurrency.Channel
import Znode.AddressBook.Entries
import Znode.AddressBook.Calls
import Znode.AddressBook.Invariant
import Znode.AddressBook.Steps
import Znode.AddressBook.Counter
import Znode.AddressBook.Runs
import Znode.AddressBook.Admission
import Znode.AddressBook.Buckets
import Znode.AddressBook.Effects
import Znode.AddressBook.Gossip
import Znode.AddressBook.Sampling
import Znode.AddressBook.Reply
import Znode.AddressBook.Info
import Znode.AddressBook.Storage
import Znode.Node.Handshake
import Znode.Node.Peer
import Znode.Node.Inbound
import Znode.Node.Fingerprint
import Znode.Node.Outbound
import Znode.Node.Pings
import Znode.Node.PingStatistics
import Znode.Node.Writing
import Znode.Node.Decoding
import Znode.Hub.Processor
import Znode.Hub.Tasks
import Znode.Hub.Accounting
import Znode.Hub.Bookkeeping
import Znode.Hub.Limit
import Znode.Hub.Shutdown
import Znode.Hub.Drain
import Znode.Lib.Simulation
import Znode.Database.Transactions
import Znode.Database.Stages
import Znode.Database.AccessLayer
import Znode.Database.Startup
import Znode.Database.Walk
import Znode.Concurrency.Worker
import Znode.Lib.Blocks
import Znode.Zk.Download
import Znode.Zk.Params
import Znode.Lib.Custody
import Znode.Core.DigestPool
import Znode.Database.Handles
