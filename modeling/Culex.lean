import Culex.Confinement
import Culex.Totality
import Culex.Stream
import Culex.Matching
import Culex.Independence
import Culex.Identifiers
import Culex.Directions
import Culex.Retransmission
import Culex.HeadOfLine
import Culex.Fanout
import Culex.Targeting
import Culex.Expiry
import Culex.Connecting
import Culex.Calm
import Culex.Changes
import Culex.Evolving
import Culex.Binding
import Culex.Resumption
import Culex.Rejection
import Culex.CleanSessions
import Culex.Lookups
import Culex.Phases
import Culex.Replies
import Culex.Subscriptions
import Culex.Enforcement
import Culex.Fencing
import Culex.Lib.Readers
import Culex.Parsing
import Culex.Objects
import Culex.Racing
import Culex.Sweeping
import Culex.Encoding
import Culex.Freshness
import Culex.Grammar
import Culex.Expansion
import Culex.TopicMap
import Culex.Splitting
import Culex.Addressing
import Culex.Waking
import Culex.Lib.Tracing
import Culex.Cutoff
import Culex.Pointers
import Culex.Representation
import Culex.Provenance
import Culex.Orphans
import Culex.Jamming
import Culex.Idling
import Culex.Holding
import Culex.Offline
import Culex.Backlog
import Culex.Relaying
import Culex.Contention
import Culex.Isolation
import Culex.Publishers
