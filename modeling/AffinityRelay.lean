import AffinityRelay.Address.Basic
import AffinityRelay.Address.Locate
import AffinityRelay.Address.Mask
import AffinityRelay.Address.Order
import AffinityRelay.Address.Read
import AffinityRelay.Address.Text
import AffinityRelay.Affinity.Config
import AffinityRelay.Affinity.Key
import AffinityRelay.Affinity.Registry
import AffinityRelay.Affinity.Store
import AffinityRelay.Balancer.Attempts
import AffinityRelay.Balancer.Basic
import AffinityRelay.Balancer.Dial
import AffinityRelay.Balancer.Policy
import AffinityRelay.Balancer.Ring
import AffinityRelay.Bridge.Basic
import AffinityRelay.Bridge.Fleet
import AffinityRelay.Bridge.Session
import AffinityRelay.Buffer
import AffinityRelay.Bytes.BigEndian
import AffinityRelay.Chance
import AffinityRelay.Clock
import AffinityRelay.Cluster.Channel
import AffinityRelay.Cluster.Dump
import AffinityRelay.Cluster.Federation
import AffinityRelay.Cluster.Follower
import AffinityRelay.Cluster.Node
import AffinityRelay.Cluster.Peer
import AffinityRelay.Digest.Md5
import AffinityRelay.Endpoint.Basic
import AffinityRelay.Endpoint.Names
import AffinityRelay.Endpoint.Refresh
import AffinityRelay.Machine
import AffinityRelay.Network
import AffinityRelay.Pool
import AffinityRelay.Proofs.Address.Mask
import AffinityRelay.Proofs.Address.Text
import AffinityRelay.Proofs.Affinity.Assigned
import AffinityRelay.Proofs.Affinity.History
import AffinityRelay.Proofs.Affinity.Lifecycle
import AffinityRelay.Proofs.Affinity.Recency
import AffinityRelay.Proofs.Affinity.Registries
import AffinityRelay.Proofs.Affinity.Tables
import AffinityRelay.Proofs.Balancer.Amid
import AffinityRelay.Proofs.Balancer.Canonical
import AffinityRelay.Proofs.Balancer.Chain
import AffinityRelay.Proofs.Balancer.Effects
import AffinityRelay.Proofs.Balancer.Fairness
import AffinityRelay.Proofs.Balancer.Returning
import AffinityRelay.Proofs.Bridge.Accounts
import AffinityRelay.Proofs.Bridge.Ends
import AffinityRelay.Proofs.Bridge.Fidelity
import AffinityRelay.Proofs.Bridge.Header
import AffinityRelay.Proofs.Bridge.Interest
import AffinityRelay.Proofs.Bridge.Lanes
import AffinityRelay.Proofs.Bridge.Ownership
import AffinityRelay.Proofs.Buffer.Queue
import AffinityRelay.Proofs.Buffer.Uses
import AffinityRelay.Proofs.Bytes.BigEndian
import AffinityRelay.Proofs.Cluster.Bootstrap
import AffinityRelay.Proofs.Cluster.Convergence
import AffinityRelay.Proofs.Cluster.Mutual
import AffinityRelay.Proofs.Cluster.Outage
import AffinityRelay.Proofs.Cluster.Outlets
import AffinityRelay.Proofs.Cluster.Overlap
import AffinityRelay.Proofs.Cluster.Rebuilt
import AffinityRelay.Proofs.Cluster.Replication
import AffinityRelay.Proofs.Cluster.Session
import AffinityRelay.Proofs.Endpoint.Passes
import AffinityRelay.Proofs.Endpoint.Supply
import AffinityRelay.Proofs.Endpoint.Upkeep
import AffinityRelay.Proofs.Pool.Clean
import AffinityRelay.Proofs.Pool.Loans
import AffinityRelay.Proofs.Relay.Dispatch
import AffinityRelay.Proofs.Rule.HostPort
import AffinityRelay.Proofs.Rule.Options
import AffinityRelay.Proofs.Rule.Settings
import AffinityRelay.Proofs.Shutdown.Drained
import AffinityRelay.Proofs.Shutdown.Heeding
import AffinityRelay.Proofs.Shutdown.Loop
import AffinityRelay.Proofs.Text.Numeral
import AffinityRelay.Proofs.Text.Parts
import AffinityRelay.Proofs.Wire.Grammar
import AffinityRelay.Proofs.Wire.Reads
import AffinityRelay.Proofs.Wire.Stream
import AffinityRelay.ProxyHeader
import AffinityRelay.Relay.Acceptor
import AffinityRelay.Relay.Basic
import AffinityRelay.Relay.Forward
import AffinityRelay.Relay.Worker
import AffinityRelay.Rule.Cluster
import AffinityRelay.Rule.Forward
import AffinityRelay.Rule.HostPort
import AffinityRelay.Rule.Options
import AffinityRelay.Settings
import AffinityRelay.Shutdown.Drain
import AffinityRelay.Shutdown.Watch
import AffinityRelay.Text.Blank
import AffinityRelay.Text.Cut
import AffinityRelay.Text.Numeral
import AffinityRelay.Wire.Decode
import AffinityRelay.Wire.Frame
import AffinityRelay.Wire.Reader
