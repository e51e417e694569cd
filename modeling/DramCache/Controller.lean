import Mathlib.Logic.Function.Basic
import DramCache.Packet

/-!
# The memory controller

`MEMORY_CONTROLLER` of `src/dram_controller.cc`, in the configuration of
`inc/champsim.h`: one channel and one rank, so that the per-channel and
per-rank arrays are their single element and `dram_get_channel` and
`dram_get_rank` are 0.

`process` hands a finished read to its upper level in the middle of its
body and the upper level may call the controller again from there, so the
function is cut at that point: `process` runs up to the callback and
returns the slot being answered, `processReadDone` is the rest.
-/

namespace DramCache

def dramWqSize : Nat := 64

def dramRqSize : Nat := 64

def dramBanks : Nat := 8

def dramRows : Nat := 65536

/-- `DRAM_DBUS_TURN_AROUND_TIME`, `(15*CPU_FREQ)/2000`. -/
def dramDbusTurnAroundTime : Nat := 15 * 4000 / 2000

def dramWriteHighWM : Nat := (dramWqSize * 7) >>> 3

def dramWriteLowWM : Nat := (dramWqSize * 3) >>> 2

/-- The masks of the source are one below a power of two. -/
def dramGetBank (address : Nat) : Nat := address % dramBanks

/-- Three bank bits and seven column bits below the row. -/
def dramGetRow (address : Nat) : Nat := (address >>> 10) % dramRows

/-- A failed `assert` of the source. -/
inductive Assertion where
  | failed
deriving Repr, DecidableEq

structure BankRequest where
  cycleAvailable : Nat := 0
  openRow : Nat := uint32Max
  working : Bool := false
  workingType : AccessType := .load
  rowBufferHit : Bool := false
  isWrite : Bool := false
  isRead : Bool := false
  /-- `none` is the source's -1. -/
  requestIndex : Option Nat := none
deriving Repr, DecidableEq

inductive QueueKind where
  | rq
  | wq
deriving Repr, DecidableEq

/-- The queue a `queue_type` names. -/
def QueueKind.ofType? : Nat → Option QueueKind
  | 1 => some .rq
  | 2 => some .wq
  | _ => none

structure MemoryController where
  tRP : Nat
  tRCD : Nat
  tCAS : Nat
  dbusReturnTime : Nat
  dbusCycleAvailable : Nat := 0
  dbusCycleCongested : Nat := 0
  /-- `none` is the row or column `NUM_TYPES`. -/
  dbusCongested : Option AccessType → Option AccessType → Nat := fun _ _ => 0
  writeMode : Bool := false
  scheduledReads : Nat := 0
  scheduledWrites : Nat := 0
  bankRequest : Nat → BankRequest := fun _ => {}
  rq : PacketQueue := .new dramRqSize
  wq : PacketQueue := .new dramWqSize
  /-- `ACCESS[1]` and `HIT[1]`. -/
  access : Nat := 0
  hit : Nat := 0

/-- What `add_rq` or `add_wq` did with a packet. The source returns the
index for `merged` and -1 for everything else. -/
inductive AddOutcome where
  | inserted
  | merged (index : Nat)
  | forwarded (index : Nat)
  | dropped
  | preWarmup
deriving Repr, DecidableEq

namespace AddOutcome

/-- The return value of `add_rq` and `add_wq`. -/
def returnValue : AddOutcome → Int
  | .merged i => i
  | _ => -1

end AddOutcome

namespace MemoryController

/-- The constructor followed by `set_timing`. -/
def new (tRP tRCD tCAS dbusReturnTime : Nat) : MemoryController :=
  { tRP := tRP, tRCD := tRCD, tCAS := tCAS, dbusReturnTime := dbusReturnTime }

def queue (mc : MemoryController) : QueueKind → PacketQueue
  | .rq => mc.rq
  | .wq => mc.wq

def setQueue (mc : MemoryController) (k : QueueKind) (q : PacketQueue) : MemoryController :=
  match k with
  | .rq => { mc with rq := q }
  | .wq => { mc with wq := q }

def setBank (mc : MemoryController) (b : Nat) (r : BankRequest) : MemoryController :=
  { mc with bankRequest := Function.update mc.bankRequest b r }

/-- The bank a slot's address maps to. -/
def bankOf (mc : MemoryController) (sl : Slot) : BankRequest :=
  mc.bankRequest (dramGetBank sl.pkt.address)

/-- `get_occupancy`; it does not look at the address on one channel. -/
def getOccupancy (mc : MemoryController) (queueType : Nat) : Nat :=
  match QueueKind.ofType? queueType with
  | some k => (mc.queue k).occupancy
  | none => 0

/-- `get_size`. -/
def getSize (mc : MemoryController) (queueType : Nat) : Nat :=
  match QueueKind.ofType? queueType with
  | some k => (mc.queue k).size
  | none => 0

/-! ## Adding packets -/

/-- `add_rq` after the warm-up test, without the callbacks of a forward:
the write queue is searched first, then the read queue. -/
def addRq (mc : MemoryController) (pkt : Packet) : MemoryController × AddOutcome :=
  match mc.wq.checkDramQueue pkt with
  | some i => (mc, .forwarded i)
  | none =>
      match mc.rq.checkDramQueue pkt with
      | some i => (mc, .merged i)
      | none =>
          ({ mc with rq := mc.rq.insert pkt },
            if mc.rq.emptyIndex.isSome then .inserted else .dropped)

/-- The counters `add_rq` bumps after the callbacks of a forward. -/
def forwardDone (mc : MemoryController) : MemoryController :=
  { mc with
    access := mc.access + 1
    hit := mc.hit + 1
    wq := { mc.wq with forward := mc.wq.forward + 1 }
    rq := { mc.rq with access := mc.rq.access + 1 } }

/-- `add_wq` after the warm-up test. -/
def addWq (mc : MemoryController) (pkt : Packet) : MemoryController × AddOutcome :=
  match mc.wq.checkDramQueue pkt with
  | some i => (mc, .merged i)
  | none =>
      ({ mc with wq := mc.wq.insert pkt },
        if mc.wq.emptyIndex.isSome then .inserted else .dropped)

/-! ## Mode switches -/

/-- The body of `reset_remain_requests`' loop for one slot. -/
def resetSlot (clk : Clock) (k : QueueKind) (mc : MemoryController) (i : Nat) :
    MemoryController :=
  let sl := (mc.queue k).slotAt i
  if sl.scheduled then
    let now := clk.cycle sl.pkt.cpu
    let b := dramGetBank sl.pkt.address
    let bank := mc.bankRequest b
    let openRow :=
      if sub64 bank.cycleAvailable mc.tCAS ≤ now then dramGetRow sl.pkt.address else uint32Max
    let idle : BankRequest :=
      { bank with
        openRow := openRow, requestIndex := none, rowBufferHit := false, working := false,
        cycleAvailable := now }
    -- a bank serves one queue at a time; the flag says whose counter it was in
    let mc :=
      if bank.isWrite then
        { mc.setBank b { idle with isWrite := false } with
          scheduledWrites := dec32 mc.scheduledWrites }
      else if bank.isRead then
        { mc.setBank b { idle with isRead := false } with
          scheduledReads := dec32 mc.scheduledReads }
      else mc.setBank b idle
    mc.setQueue k ((mc.queue k).setSlot i
      { pkt := { sl.pkt with eventCycle := now }, scheduled := false })
  else mc

/-- `reset_remain_requests`. -/
def resetRemainRequests (clk : Clock) (k : QueueKind) (mc : MemoryController) :
    Except Assertion MemoryController :=
  let mc := (List.range (mc.queue k).size).foldl (resetSlot clk k) mc
  let mc :=
    { mc with
      rq := mc.rq.updateScheduleCycle.updateProcessCycle
      wq := mc.wq.updateScheduleCycle.updateProcessCycle }
  match k with
  | .wq => if mc.scheduledWrites ≠ 0 then .error .failed else .ok mc
  | .rq => if mc.scheduledReads ≠ 0 then .error .failed else .ok mc

/-- The mode switch at the top of `operate`'s loop. -/
def switchMode (clk : Clock) (mc : MemoryController) : Except Assertion MemoryController :=
  let turnAround (mc : MemoryController) : MemoryController :=
    { mc with dbusCycleAvailable := mc.dbusCycleAvailable + dramDbusTurnAroundTime }
  if !mc.writeMode && (decide (mc.wq.occupancy ≥ dramWriteHighWM)
      || (decide (mc.rq.occupancy = 0) && decide (mc.wq.occupancy > 0))) then
    (resetRemainRequests clk .rq { mc with writeMode := true }).map turnAround
  else if mc.writeMode && (decide (mc.wq.occupancy = 0)
      || (decide (mc.rq.occupancy ≠ 0) && decide (mc.wq.occupancy < dramWriteLowWM))) then
    (resetRemainRequests clk .wq { mc with writeMode := false }).map turnAround
  else .ok mc

/-! ## Scheduling -/

/-- What both passes of `schedule` look at: nonempty, not scheduled, on
an idle bank. -/
def schedulable (mc : MemoryController) (sl : Slot) : Bool :=
  !sl.scheduled && decide (sl.pkt.address ≠ 0) && !(mc.bankOf sl).working

/-- The first pass of `schedule`: the oldest open-row hit. -/
def rowHitSlot (mc : MemoryController) (q : PacketQueue) : Nat :=
  (q.minSlot fun sl =>
    mc.schedulable sl && decide ((mc.bankOf sl).openRow = dramGetRow sl.pkt.address)).2

/-- The slot `schedule` chooses: an open-row hit, else the oldest entry. -/
def scheduleSlot (mc : MemoryController) (q : PacketQueue) : Nat :=
  if mc.rowHitSlot q < q.size then mc.rowHitSlot q else (q.minSlot mc.schedulable).2

/-- `schedule`. -/
def schedule (clk : Clock) (k : QueueKind) (mc : MemoryController) : MemoryController :=
  let q := mc.queue k
  let i := mc.scheduleSlot q
  if i < q.size then
    let rowBufferHit := decide (mc.rowHitSlot q < q.size)
    let sl := q.slotAt i
    let done := clk.cycle sl.pkt.cpu
      + (if rowBufferHit then mc.tCAS else mc.tRP + mc.tRCD + mc.tCAS)
    let b := dramGetBank sl.pkt.address
    let mc := mc.setBank b
      { mc.bankRequest b with
        working := true, workingType := sl.pkt.type, cycleAvailable := done,
        requestIndex := some i, rowBufferHit := rowBufferHit,
        isWrite := decide (k = .wq), isRead := decide (k = .rq),
        openRow := dramGetRow sl.pkt.address }
    let mc :=
      match k with
      | .wq => { mc with scheduledWrites := mc.scheduledWrites + 1 }
      | .rq => { mc with scheduledReads := mc.scheduledReads + 1 }
    mc.setQueue k
      (q.setSlot i { pkt := { sl.pkt with eventCycle := done }, scheduled := true }
        |>.updateScheduleCycle.updateProcessCycle)
  else mc

/-! ## Processing -/

/-- The end of a transfer: the row-buffer counters, the bank freed, the
slot removed, the next slot to process found. -/
def finishTransfer (k : QueueKind) (i b : Nat) (mc : MemoryController) :
    Except Assertion MemoryController :=
  let bank := mc.bankRequest b
  let q := mc.queue k
  let q :=
    if bank.rowBufferHit then { q with rowBufferHit := q.rowBufferHit + 1 }
    else { q with rowBufferMiss := q.rowBufferMiss + 1 }
  let mc := mc.setBank b
    { bank with
      requestIndex := none, rowBufferHit := false, working := false, isWrite := false,
      isRead := false }
  let mc :=
    match k with
    | .wq => { mc with scheduledWrites := dec32 mc.scheduledWrites }
    | .rq => { mc with scheduledReads := dec32 mc.scheduledReads }
  match q.removeQueue i with
  | none => .error .failed
  | some q => .ok (mc.setQueue k q.updateProcessCycle)

/-- The bus is taken: the bank's cycle is moved to when it is free. -/
def busBusy (now : Nat) (sl : Slot) (mc : MemoryController) : MemoryController :=
  let b := dramGetBank sl.pkt.address
  let bank := mc.bankRequest b
  let bump (c : Option AccessType → Option AccessType → Nat) (x y : Option AccessType) :=
    Function.update c x (Function.update (c x) y (c x y + 1))
  let c := bump mc.dbusCongested none none
  let c := bump c none (some sl.pkt.type)
  let c := bump c (some bank.workingType) none
  let c := bump c (some bank.workingType) (some sl.pkt.type)
  { mc.setBank b { bank with cycleAvailable := mc.dbusCycleAvailable } with
    dbusCycleCongested := mc.dbusCycleCongested + sub64 mc.dbusCycleAvailable now
    dbusCongested := c }

/-- `process`, for a read only up to its callback: the slot index is
returned when the read in it is to be handed to the upper level. -/
def process (clk : Clock) (k : QueueKind) (mc : MemoryController) :
    Except Assertion (MemoryController × Option Nat) :=
  let q := mc.queue k
  let i := q.nextProcessIndex
  if i = q.size then .error .failed
  else
    let sl := q.slotAt i
    let now := clk.cycle sl.pkt.cpu
    let b := dramGetBank sl.pkt.address
    if (mc.bankRequest b).requestIndex ≠ some i then .error .failed
    else if (mc.bankRequest b).cycleAvailable ≤ now then
      if mc.dbusCycleAvailable ≤ now then
        let free := now + mc.dbusReturnTime
        let mc := { mc with dbusCycleAvailable := free }
        match k with
        | .wq => (mc.finishTransfer .wq i b).map fun mc => (mc, none)
        | .rq =>
            let q := q.setSlot i { sl with pkt := { sl.pkt with eventCycle := free } }
            .ok ({ mc with rq := q }, some i)
      else .ok (mc.busBusy now sl, none)
    else .ok (mc, none)

/-- `process` after the callback, with the slot and the bank it had
computed before. -/
def processReadDone (i b : Nat) (mc : MemoryController) : Except Assertion MemoryController :=
  mc.finishTransfer .rq i b

/-! ## One cycle -/

/-- `current_core_cycle[entry[index].cpu]` with `index` taken from the
queue. -/
def cycleAt (clk : Clock) (q : PacketQueue) (i : Nat) : Nat := clk.cycle (q.slotAt i).pkt.cpu

def scheduleReady (clk : Clock) (q : PacketQueue) : Bool :=
  decide (q.nextScheduleIndex < q.size)
    && decide (q.nextScheduleCycle ≤ cycleAt clk q q.nextScheduleIndex)

def processReady (clk : Clock) (q : PacketQueue) : Bool :=
  decide (q.nextProcessIndex < q.size)
    && decide (q.nextProcessCycle ≤ cycleAt clk q q.nextProcessIndex)

/-- "schedule new entry" and "process DRAM requests" for one queue. -/
def serve (clk : Clock) (k : QueueKind) (mc : MemoryController) :
    Except Assertion (MemoryController × Option Nat) :=
  let mc := if scheduleReady clk (mc.queue k) then mc.schedule clk k else mc
  if processReady clk (mc.queue k) then mc.process clk k else .ok (mc, none)

/-- `operate`, up to the callback of a finished read. The write queue is
served in write mode and the read queue otherwise, so at most one
transfer happens and nothing of the loop body follows a read's. -/
def operate (clk : Clock) (mc : MemoryController) :
    Except Assertion (MemoryController × Option Nat) := do
  let mc ← mc.switchMode clk
  if mc.writeMode then mc.serve clk .wq else mc.serve clk .rq

end MemoryController

end DramCache
