import Hyperglyph.Library.Execution
import Hyperglyph.Library.DescriptorTable
import Hyperglyph.Library.Octets
import Hyperglyph.Library.SwapRemove
import Hyperglyph.Protocol
import Hyperglyph.Broker.Kernel
import Hyperglyph.Broker.Generation
import Hyperglyph.Broker.Handlers
import Hyperglyph.Broker.MainLoop
import Hyperglyph.Broker.Moves
import Hyperglyph.Broker.Invariant
import Hyperglyph.Broker.Lineage
import Hyperglyph.Broker.Ledger
import Hyperglyph.Broker.Refinement
import Hyperglyph.Broker.Retirement
import Hyperglyph.Broker.Custody
import Hyperglyph.Broker.SingleCreator
import Hyperglyph.Client.CacheKey
import Hyperglyph.Client.BrokerClient
import Hyperglyph.Deployment.Channel
import Hyperglyph.Deployment.Participant
import Hyperglyph.Deployment.Run
import Hyperglyph.Client.Specification
import Hyperglyph.Deployment.Acts
import Hyperglyph.Deployment.Provenance
import Hyperglyph.Deployment.Once
import Hyperglyph.Deployment.Agreement
import Hyperglyph.Deployment.Identity
import Hyperglyph.Broker.Permanence
import Hyperglyph.Deployment.Dialogue
import Hyperglyph.Deployment.Publication
import Hyperglyph.Deployment.Abandonment
import Hyperglyph.Deployment.Validation
import Hyperglyph.Listener.Ownership
import Hyperglyph.Broker.Dispatch
import Hyperglyph.Broker.Refusal
import Hyperglyph.Broker.Descriptors
import Hyperglyph.Broker.Exchange
import Hyperglyph.Broker.Handover
import Hyperglyph.Listener.Startup
import Hyperglyph.Broker.ClientLimit
import Hyperglyph.Broker.Admission
import Hyperglyph.Broker.Stopping
import Hyperglyph.Provider.Segments
import Hyperglyph.Provider.LifeCycle
import Hyperglyph.Provider.Sessions
import Hyperglyph.Provider.Registration
import Hyperglyph.Client.Holding
import Hyperglyph.Client.Acquisition
import Hyperglyph.Client.Fallback
import Hyperglyph.Client.Lifetime
import Hyperglyph.Provider.Allocation
import Hyperglyph.Library.Framing
import Hyperglyph.Library.Sorting
import Hyperglyph.Client.Fingerprint
import Hyperglyph.Deployment.Conversation
import Hyperglyph.Deployment.Crowd
import Hyperglyph.Deployment.Polling
import Hyperglyph.Deployment.Attendance
import Hyperglyph.Deployment.Isolation
import Hyperglyph.Deployment.Receivers
import Hyperglyph.Deployment.Wire
import Hyperglyph.Deployment.Correspondence
import Hyperglyph.Deployment.Departure
import Hyperglyph.Deployment.Trust
import Hyperglyph.Library.Strtoul
import Hyperglyph.Broker.CommandLine
import Hyperglyph.Library.PathResolution
import Hyperglyph.Library.Block
import Hyperglyph.Broker.Tables
import Hyperglyph.Broker.TableBounds
import Hyperglyph.Broker.Arrays
import Hyperglyph.Listener.ParentDirectory
import Hyperglyph.Library.RecordLock
import Hyperglyph.Library.Monitor
import Hyperglyph.Deployment.Possession
import Hyperglyph.Deployment.Locking
import Hyperglyph.Deployment.Consensus
import Hyperglyph.Extension.Engine
import Hyperglyph.Extension.SharedObject
import Hyperglyph.Extension.Launcher
import Hyperglyph.Extension.Contract
import Hyperglyph.Extension.Wiring
import Hyperglyph.Extension.Accounting
import Hyperglyph.Extension.PostStartup
import Hyperglyph.Extension.Transparency
