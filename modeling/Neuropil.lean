import Neuropil.Aaa.Validity
import Neuropil.Bloom.Removal
import Neuropil.Bloom.Scalable
import Neuropil.Bloom.Serialize
import Neuropil.Cupidtrie.Blocks
import Neuropil.Datablock.Sizes
import Neuropil.Dhkey.Ring
import Neuropil.Fileserver.Loading
import Neuropil.Intent.Getters
import Neuropil.Intent.Ledger
import Neuropil.Intent.Sessions
import Neuropil.Jobqueue.QueueRuns
import Neuropil.Key.Housekeeping
import Neuropil.Key.JoinDenied
import Neuropil.Key.RoutingRuns
import Neuropil.Key.SessionKeys
import Neuropil.Key.SessionRuns
import Neuropil.Keystore.SaveLoad
import Neuropil.Memory.Shrink
import Neuropil.Message.Announce
import Neuropil.Message.Counting
import Neuropil.Message.PacketRoundTrip
import Neuropil.Message.PartCacheRuns
import Neuropil.Message.PartFilter
import Neuropil.Message.ReceiverRuns
import Neuropil.Message.Restore
import Neuropil.Network.Connection
import Neuropil.Network.Datagrams
import Neuropil.Network.RateLimit
import Neuropil.Network.Tuples
import Neuropil.Pheromone.Ageing
import Neuropil.Pheromone.Locking
import Neuropil.Pheromone.NextHops
import Neuropil.Pheromone.Receive
import Neuropil.Pheromone.Scans
import Neuropil.Pheromone.SnuffleRuns
import Neuropil.Pheromone.Survival
import Neuropil.Policy.Completeness
import Neuropil.Property.Check
import Neuropil.Property.Threshold
import Neuropil.Property.UserProperties
import Neuropil.Response.Acknowledge
import Neuropil.Route.KeyOrder
import Neuropil.Route.LookupRuns
import Neuropil.Search.Bands
import Neuropil.Search.Columns
import Neuropil.Search.Hamming
import Neuropil.Search.Resultset
import Neuropil.Search.Slots
import Neuropil.Search.TableLocks
import Neuropil.Statemachine.Nested
import Neuropil.Util.Scache
import Neuropil.Bloom.Tally
