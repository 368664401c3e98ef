import Liboffs.Actor.Scheduling
import Liboffs.BlockCache.HandleMap
import Liboffs.BlockCache.IndexMap
import Liboffs.BlockCache.Snapshots
import Liboffs.BlockCache.Ranks
import Liboffs.BlockCache.RepeatedRecovery
import Liboffs.BlockCache.SnapshotNames
import Liboffs.BlockCache.Popularity
import Liboffs.BlockCache.HitNumbers
import Liboffs.BlockCache.PutGroups
import Liboffs.BlockCache.GetSystem
import Liboffs.BlockCache.EphemeralRecovery
import Liboffs.BlockCache.EphemeralRegistry
import Liboffs.BlockCache.BlockGc
import Liboffs.Bloom.AttenuatedBloomFilter
import Liboffs.OffStreams.RoundTrip
import Liboffs.OffStreams.WalkerAgreement
import Liboffs.OffStreams.Pulls
import Liboffs.OffStreams.ReplyOrders
import Liboffs.OffStreams.RepresentationWalk
import Liboffs.ClientApi.GetAnswers
import Liboffs.ClientApi.Authentication
import Liboffs.ClientApi.BlockRequests
import Liboffs.ClientApi.HttpOutput
import Liboffs.RefCounter.Ownership
import Liboffs.Network.StoreAnswers
import Liboffs.Relay.Delivery
import Liboffs.Update.Check
import Liboffs.Util.Base58
import Liboffs.Network.ClosestNodes
import Liboffs.OffStreams.Ofd
import Liboffs.Network.StreamFramer
import Liboffs.Network.RingSet
import Liboffs.Network.TimingWheel
