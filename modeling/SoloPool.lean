import SoloPool.Bitcoin.Address
import SoloPool.Bitcoin.Failover
import SoloPool.Bitcoin.Height
import SoloPool.Bitcoin.Serialized
import SoloPool.Net.Admission
import SoloPool.Net.Lines
import SoloPool.Net.ProxyHeader
import SoloPool.Net.SocketConnection
import SoloPool.Pool.Arrivals
import SoloPool.Pool.CleanJobs
import SoloPool.Pool.Fastblock
import SoloPool.Pool.Publications
import SoloPool.Pool.RecentJobs
import SoloPool.Pool.Recovery
import SoloPool.Pool.Suppressed
import SoloPool.Pool.Sv2Delivery
import SoloPool.Pool.UserRecovery
import SoloPool.Stratum.Depth
import SoloPool.Stratum.Miner
import SoloPool.Stratum.Payout
import SoloPool.Stratum.Session.Coinbase2
import SoloPool.Stratum.Session.DedupKey
import SoloPool.Stratum.Session.Difficulty
import SoloPool.Stratum.Session.DuplicateShares
import SoloPool.Stratum.Vardiff
import SoloPool.Sv2.Noise.Sending
import SoloPool.Sv2.Session.Limits
import SoloPool.Sv2.Session.NtimeWindow
import SoloPool.Sv2.Session.ShareHistory
import SoloPool.Sv2.Session.Simulation
import SoloPool.Sv2.Wire.Roundtrip
import SoloPool.Util.Difficulty
