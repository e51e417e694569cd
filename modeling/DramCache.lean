import DramCache.Keyed
import DramCache.Worklist
import DramCache.Erasure
import DramCache.DirectMapped
import DramCache.Packet
import DramCache.Controller
import DramCache.Manager
import DramCache.Cascade
import DramCache.Run
import DramCache.Slots
import DramCache.Queues
import DramCache.FrontEnd
import DramCache.Sending
import DramCache.Steps
import DramCache.Orb
import DramCache.Modes
import DramCache.Ledger
import DramCache.History
import DramCache.TagStore
import DramCache.Admission
import DramCache.Traffic
import DramCache.Conservation
import DramCache.Delivery
import DramCache.Pairing
import DramCache.Responses
import DramCache.WriteBack
import DramCache.FarOrder
import DramCache.Counters
import DramCache.TableTwo
import DramCache.Timing
import DramCache.Backlog
import DramCache.Matching
import DramCache.Banks
import DramCache.Standalone
import DramCache.Residency
import DramCache.Assertions
import DramCache.Termination
import DramCache.Watched
import DramCache.Bus
import DramCache.OpenSteps
import DramCache.DispatchOrder
import DramCache.TrySend
import DramCache.LinkLatency
import DramCache.Ownership
import DramCache.Toggling
import DramCache.Bypass
import DramCache.TwoRuns
import DramCache.Layered
import DramCache.Llc
import DramCache.Mshr
import DramCache.LlcSteps
import DramCache.FlowControl
import DramCache.Outstanding
import DramCache.Uncore
import DramCache.Selection
import DramCache.NextSlots
import DramCache.ClockIndex
import DramCache.MoveToFront
import DramCache.Lru
import DramCache.Ring
import DramCache.Fifo
import DramCache.FastSet
import DramCache.PageTable
import DramCache.Cache
import DramCache.LiveLines
import DramCache.Merging
import DramCache.TagUnique
import DramCache.NearOrder
import DramCache.HeadOfLine
import DramCache.NearBacklog
import DramCache.Wire
import DramCache.CvpTrace
import DramCache.Instruction
import DramCache.Cvp2Champsim
import DramCache.Core
import DramCache.Scheduling
import DramCache.LoadStore
import DramCache.CoreSteps
import DramCache.ProgramOrder
import DramCache.Wakeup
import DramCache.Dataflow
import DramCache.Scoreboard
import DramCache.Execution
import DramCache.Lifecycle
import DramCache.StoreOrder
