import BmcCache.Lib.Buffer
import BmcCache.Lib.Segments
import BmcCache.Lib.Transition
import BmcCache.Lib.OnesComplement
import BmcCache.Model.Common
import BmcCache.Model.Kernel
import BmcCache.Model.Ingress
import BmcCache.Model.Egress
import BmcCache.Model.Machine
import BmcCache.Model.Memcached
import BmcCache.Model.System
import BmcCache.Model.Server
import BmcCache.Model.Sockets
import BmcCache.Proofs.CopyLoops
import BmcCache.Proofs.RequestWalk
import BmcCache.Proofs.ReplyPhase
import BmcCache.Proofs.Pipeline
import BmcCache.Proofs.Verdicts
import BmcCache.Proofs.ReplyForm
import BmcCache.Proofs.Checksum
import BmcCache.Proofs.Updates
import BmcCache.Proofs.MachineSteps
import BmcCache.Proofs.Provenance
import BmcCache.Proofs.Representation
import BmcCache.Proofs.Invalidation
import BmcCache.Proofs.Streams
import BmcCache.Proofs.Datagrams
import BmcCache.Proofs.Transparency
import BmcCache.Proofs.Filling
import BmcCache.Proofs.Coherence
import BmcCache.Proofs.Hashing
import BmcCache.Proofs.SavedKeys
import BmcCache.Proofs.Capacity
import BmcCache.Proofs.Sockets
import BmcCache.Proofs.Accounting
import BmcCache.Proofs.Filters
import BmcCache.Proofs.Isolation
import BmcCache.Proofs.Commands
import BmcCache.Lib.Chains
import BmcCache.Model.Assoc
import BmcCache.Proofs.Answers
import BmcCache.Proofs.Assoc
import BmcCache.Proofs.AssocRuns
import BmcCache.Proofs.Workload
import BmcCache.Lib.Words
import BmcCache.Model.Connection
import BmcCache.Proofs.CommandLines
import BmcCache.Proofs.Framing
import BmcCache.Lib.Versions
import BmcCache.Proofs.CasRuns
import BmcCache.Proofs.Counters
import BmcCache.Lib.Pieces
import BmcCache.Proofs.Reassembly
import BmcCache.Model.Loader
import BmcCache.Proofs.Occupancy
import BmcCache.Proofs.Loader
