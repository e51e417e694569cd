import DramCache.Layered
import DramCache.TwoRuns

/-!
# The last-level cache

`CACHE` of `src/cache.cc` as `inc/uncore.h` builds it over the manager: type
`IS_LLC`, with the LRU policy of `replacement/lru.llc_repl`. Its counters
and the payload that it only copies are left out.

Which prefetcher is linked in is open: `Llc.prefetcher` is what it will ask
for, one list of `prefetch_line` calls each time it is called.

A function of the cache that calls the manager stops there. It returns what
it asks of the manager and the call that is the rest of it, as the functions
of `DramCache.Cascade` do.
-/

namespace DramCache

/-! ## Constants -/

def l2cMshrSize : Nat := 32

def llcSet : Nat := numCpus * 1024

def llcWay : Nat := 16

def llcRqSize : Nat := numCpus * l2cMshrSize

def llcWqSize : Nat := numCpus * l2cMshrSize

def llcPqSize : Nat := numCpus * 32

def llcMshrSize : Nat := numCpus * 64

/-- `uncore.LLC.MAX_READ`. -/
def llcMaxRead : Nat := numCpus

def fillL1 : Int := 1

/-- `uncore.LLC.fill_level`. -/
def fillLlc : Int := 4

def log2BlockSize : Nat := 6

def log2PageSize : Nat := 12

/-- `x + y` on `uint64_t`. -/
def add64 (x y : Nat) : Nat := (x + y) % (uint64Max + 1)

/-! ## Packets, blocks and queues -/

/-- `PACKET::returned`: 0, `INFLIGHT` or `COMPLETED`. -/
inductive Returned where
  | idle
  | inflight
  | completed
deriving Repr, DecidableEq

/-- The fields of `PACKET` that only a cache reads. The constructor sets no
`pf_origin_level`; it is read of prefetches, and `prefetch_line` sets it. -/
structure CachePacket extends Packet where
  fillLevel : Int := -1
  pfOriginLevel : Int := 0
  fillL1i : Bool := false
  fillL1d : Bool := false
  ip : Nat := 0
  returned : Returned := .idle
deriving Repr, DecidableEq

namespace CachePacket

/-- "mark merged consumer", of an MSHR entry and the read that merges. -/
def markConsumer (m e : CachePacket) : CachePacket :=
  if e.type = .rfo then m
  else if e.instruction then { m with instruction := true }
  else { m with isData := true }

/-- "update fill_level". -/
def updateFill (m e : CachePacket) : CachePacket :=
  { m with
    fillLevel := if e.fillLevel < m.fillLevel then e.fillLevel else m.fillLevel
    fillL1i := e.fillL1i || m.fillL1i
    fillL1d := e.fillL1d || m.fillL1d }

/-- "update request": the entry of a prefetch becomes the read's. -/
def updateRequest (m e : CachePacket) : CachePacket :=
  if m.type = .prefetch then { e with returned := m.returned, eventCycle := m.eventCycle } else m

end CachePacket

/-- `BLOCK`. -/
structure Block where
  valid : Bool := false
  dirty : Bool := false
  tag : Nat := 0
  address : Nat := 0
  fullAddr : Nat := 0
  lru : Nat := 0
deriving Repr, DecidableEq

/-- `PACKET_QUEUE`, the part a cache uses. -/
structure CacheQueue where
  size : Nat
  head : Nat := 0
  tail : Nat := 0
  occupancy : Nat := 0
  nextFillIndex : Nat := 0
  nextFillCycle : Nat := uint64Max
  entry : List CachePacket
deriving Repr, DecidableEq

namespace CacheQueue

def new (size : Nat) : CacheQueue := { size := size, entry := List.replicate size {} }

/-- The entry at an index, an empty one beyond the array. -/
def entryAt (q : CacheQueue) (i : Nat) : CachePacket := (q.entry[i]?).getD {}

def setEntry (q : CacheQueue) (i : Nat) (pkt : CachePacket) : CacheQueue :=
  { q with entry := q.entry.set i pkt }

/-- The indices from head to tail, in the order `check_queue` visits them. -/
def scanned (q : CacheQueue) : List Nat :=
  if q.head < q.tail then List.range' q.head (q.tail - q.head)
  else List.range' q.head (q.size - q.head) ++ List.range q.tail

/-- `check_queue`. -/
def checkQueue (q : CacheQueue) (pkt : CachePacket) : Option Nat :=
  if q.head = q.tail ∧ q.occupancy = 0 then none
  else q.scanned.find? fun i => (q.entryAt i).address == pkt.address

/-- `remove_queue(&entry[i])`; `none` is its failing sanity check. -/
def removeQueue (q : CacheQueue) (i : Nat) : Option CacheQueue :=
  if q.occupancy = 0 ∧ q.head = q.tail then none
  else some
    { q with
      entry := q.entry.set i {}
      occupancy := dec32 q.occupancy
      head := if q.head + 1 ≥ q.size then 0 else q.head + 1 }

/-- "ADD LATENCY". -/
def delayed (eventCycle now latency : Nat) : Nat :=
  if eventCycle < now then add64 now latency else add64 eventCycle latency

/-- The end of `add_rq`, `add_wq` and `add_pq`: the packet goes to the tail. -/
def push (q : CacheQueue) (pkt : CachePacket) (now latency : Nat) : CacheQueue :=
  { q with
    entry := q.entry.set q.tail { pkt with eventCycle := delayed pkt.eventCycle now latency }
    occupancy := q.occupancy + 1
    tail := if q.tail + 1 ≥ q.size then 0 else q.tail + 1 }

/-! ### The MSHR -/

/-- `check_mshr`. -/
def checkMshr (q : CacheQueue) (address : Nat) : Option Nat :=
  q.entry.findIdx? fun e => e.address == address

/-- `add_mshr`; with no empty entry the loop falls through. -/
def addMshr (q : CacheQueue) (pkt : CachePacket) : CacheQueue :=
  match q.checkMshr 0 with
  | none => q
  | some i =>
      { q with
        entry := q.entry.set i { pkt with returned := .inflight }
        occupancy := q.occupancy + 1 }

/-- The running minimum of `update_fill_cycle`. -/
def scanFill : List CachePacket → Nat → Nat × Nat → Nat × Nat
  | [], _, best => best
  | e :: rest, i, best =>
      scanFill rest (i + 1)
        (if e.returned = .completed ∧ e.eventCycle < best.1 then (e.eventCycle, i) else best)

/-- `update_fill_cycle`. -/
def updateFillCycle (q : CacheQueue) : CacheQueue :=
  let best := scanFill q.entry 0 (uint64Max, q.size)
  { q with nextFillCycle := best.1, nextFillIndex := best.2 }

end CacheQueue

/-! ## The cache -/

/-- A call of `prefetch_line`. -/
structure PrefetchLine where
  ip : Nat
  baseAddr : Nat
  pfAddr : Nat
  fillLevel : Int
deriving Repr, DecidableEq

/-- The assertion of `return_data`: "cannot find a matching entry!" -/
inductive ReturnFault where
  | noMatchingEntry
deriving Repr, DecidableEq

/-- The other assertions of `CACHE`. -/
inductive LlcFault where
  /-- `handle_fill`: `MSHR.next_fill_index >= MSHR.SIZE`. -/
  | fillIndex
  /-- `lru_victim`: "no victim!" -/
  | noVictim
  /-- `handle_writeback`: "LLC bypassing for writebacks is not allowed!" -/
  | writebackBypass
  /-- `llc_update_replacement_state`: a write-back that has an ip. -/
  | writebackIp
  /-- "MSHR errors". -/
  | mshrErrors
  /-- `remove_queue` of an empty queue. -/
  | emptyQueue
  /-- `add_rq`, `add_wq`, `add_pq`: "is not empty". -/
  | notEmpty
  /-- `add_rq`, `add_pq`: address 0. -/
  | zeroAddress
  /-- `add_wq`: `WQ.occupancy >= WQ.SIZE`. -/
  | writeQueueFull
deriving Repr, DecidableEq

/-- `uncore.LLC`. `reads` and `answers` are ghosts: the reads the lower level
took, and the calls of the upper level. -/
structure Llc where
  latency : Nat := 0
  block : Nat → List Block := fun _ => (List.range llcWay).map fun j => { lru := j }
  wq : CacheQueue := .new llcWqSize
  rq : CacheQueue := .new llcRqSize
  pq : CacheQueue := .new llcPqSize
  mshr : CacheQueue := .new llcMshrSize
  readsAvailable : Nat := 0
  prefetcher : List (List PrefetchLine) := []
  reads : List Packet := []
  answers : List (Port × CachePacket) := []

/-- Pending calls of the cache. Those without a source function of their
name are the rest of one, after the manager has been called. -/
inductive LlcCall where
  | addRq (pkt : CachePacket)
  | addWq (pkt : CachePacket)
  | addPq (pkt : CachePacket)
  | handleFill
  /-- `handle_fill` after the write-back of its victim. -/
  | finishFill (index set way : Nat)
  | handleWriteback
  /-- `handle_writeback` after the write-back of its victim. -/
  | finishWriteback (index set way : Nat)
  /-- `operate`, where it sets `reads_available_this_cycle`. -/
  | startReads
  /-- The loop of `handle_read`, with this many rounds left. -/
  | handleRead (left : Nat)
  /-- `handle_read`: `miss_handled`. -/
  | readMissHandled (index left : Nat)
  /-- `operate`, where it tests whether to prefetch. -/
  | startPrefetches
  /-- The loop of `handle_prefetch`, with this many rounds left. -/
  | handlePrefetch (left : Nat)
  /-- `handle_prefetch`: `miss_handled`. -/
  | prefetchMissHandled (index left : Nat)
deriving Repr, DecidableEq

/-- What the cache does to the manager. -/
inductive LowerOp where
  | op (o : Op)
  /-- `increment_WQ_FULL`. -/
  | incrementWQFull

/-- What one call of the cache does. -/
abbrev LlcStep := Except LlcFault (Llc × Option LowerOp × List LlcCall)

namespace Llc

/-- A step that asks nothing of the manager. -/
def andThen (l : Llc) (ks : List LlcCall) : LlcStep := .ok (l, none, ks)

/-- Calls of `upper_level_icache` and `upper_level_dcache` for a packet that
is to be filled above. -/
def returnUpper (l : Llc) (pkt : CachePacket) : Llc :=
  if pkt.fillLevel < fillLlc then
    { l with
      answers := l.answers ++ (if pkt.instruction then [(.icache, pkt)] else [])
        ++ (if pkt.isData then [(.dcache, pkt)] else []) }
  else l

/-! ### Blocks and replacement -/

/-- `get_set`; `NUM_SET` is a power of two, and no set is beyond it. -/
def getSet (address : Nat) : Nat := address % llcSet

def blockAt (l : Llc) (set way : Nat) : Block := ((l.block set)[way]?).getD {}

def setBlock (l : Llc) (set way : Nat) (b : Block) : Llc :=
  { l with block := Function.update l.block set ((l.block set).set way b) }

/-- `check_hit`. -/
def checkHit (l : Llc) (address : Nat) : Option Nat :=
  (l.block (getSet address)).findIdx? fun b => b.valid && b.tag == address

/-- `llc_find_victim`, `lru_victim`; `none` is its assertion. -/
def llcFindVictim (l : Llc) (set : Nat) : Option Nat :=
  match (l.block set).findIdx? fun b => !b.valid with
  | some way => some way
  | none => (l.block set).findIdx? fun b => b.lru == llcWay - 1

/-- `lru_update`. -/
def lruUpdate (l : Llc) (set way : Nat) : Llc :=
  let old := (l.blockAt set way).lru
  let aged := (l.block set).map fun b => if b.lru < old then { b with lru := b.lru + 1 } else b
  let l := { l with block := Function.update l.block set aged }
  l.setBlock set way { l.blockAt set way with lru := 0 }

/-- `llc_update_replacement_state`. -/
def llcUpdateReplacementState (l : Llc) (set way ip : Nat) (type : AccessType) (hit : Bool) :
    Except LlcFault Llc :=
  if type = .writeback ∧ ip ≠ 0 then .error .writebackIp
  else if hit = true ∧ type = .writeback then .ok l
  else .ok (l.lruUpdate set way)

/-- `fill_cache`. -/
def fillCache (l : Llc) (set way : Nat) (pkt : CachePacket) : Llc :=
  l.setBlock set way
    { l.blockAt set way with
      valid := true, dirty := false, tag := pkt.address, address := pkt.address,
      fullAddr := pkt.fullAddr }

/-- `block[set][way].dirty = 1`. -/
def markDirty (l : Llc) (set way : Nat) : Llc :=
  l.setBlock set way { l.blockAt set way with dirty := true }

/-- `invalidate_entry`. -/
def invalidateEntry (l : Llc) (address : Nat) : Llc :=
  match l.checkHit address with
  | some way => l.setBlock (getSet address) way
      { l.blockAt (getSet address) way with valid := false }
  | none => l

/-! ### The queues -/

/-- `add_rq`. -/
def addRq (l : Llc) (clk : Clock) (pkt : CachePacket) : Except LlcFault (Llc × Int) :=
  match l.wq.checkQueue pkt with
  | some _ => .ok (l.returnUpper pkt, -1)
  | none =>
      match l.rq.checkQueue pkt with
      | some i =>
          let e := l.rq.entryAt i
          let e := if pkt.instruction then { e with instruction := true } else { e with isData := true }
          let e := { e with fillL1i := pkt.fillL1i || e.fillL1i, fillL1d := pkt.fillL1d || e.fillL1d }
          .ok ({ l with rq := l.rq.setEntry i e }, i)
      | none =>
          if l.rq.occupancy = llcRqSize then .ok (l, -2)
          else if (l.rq.entryAt l.rq.tail).address ≠ 0 then .error .notEmpty
          else if pkt.address = 0 then .error .zeroAddress
          else .ok ({ l with rq := l.rq.push pkt (clk.cycle pkt.cpu) l.latency }, -1)

/-- `add_wq`. -/
def addWq (l : Llc) (clk : Clock) (pkt : CachePacket) : Except LlcFault (Llc × Int) :=
  match l.wq.checkQueue pkt with
  | some i => .ok (l, i)
  | none =>
      if l.wq.size ≤ l.wq.occupancy then .error .writeQueueFull
      else if (l.wq.entryAt l.wq.tail).address ≠ 0 then .error .notEmpty
      else .ok ({ l with wq := l.wq.push pkt (clk.cycle pkt.cpu) l.latency }, -1)

/-- `add_pq`. -/
def addPq (l : Llc) (clk : Clock) (pkt : CachePacket) : Except LlcFault (Llc × Int) :=
  match l.wq.checkQueue pkt with
  | some _ => .ok (l.returnUpper pkt, -1)
  | none =>
      match l.pq.checkQueue pkt with
      | some i =>
          let e := l.pq.entryAt i
          let e :=
            { e with
              fillLevel := if pkt.fillLevel < e.fillLevel then pkt.fillLevel else e.fillLevel
              instruction := pkt.instruction || e.instruction
              isData := pkt.isData || e.isData
              fillL1i := pkt.fillL1i || e.fillL1i
              fillL1d := pkt.fillL1d || e.fillL1d }
          .ok ({ l with pq := l.pq.setEntry i e }, i)
      | none =>
          if l.pq.occupancy = llcPqSize then .ok (l, -2)
          else if (l.pq.entryAt l.pq.tail).address ≠ 0 then .error .notEmpty
          else if pkt.address = 0 then .error .zeroAddress
          else .ok ({ l with pq := l.pq.push pkt (clk.cycle pkt.cpu) l.latency }, -1)

/-- `prefetch_line`, and `kpc_prefetch_line` with its ip 0. -/
def prefetchLine (l : Llc) (clk : Clock) (cpu : Nat) (p : PrefetchLine) : Except LlcFault Llc :=
  if l.pq.occupancy < l.pq.size ∧
      p.baseAddr >>> log2PageSize = p.pfAddr >>> log2PageSize then
    (l.addPq clk
      { fillLevel := p.fillLevel, pfOriginLevel := fillLlc, fillL1d := decide (p.fillLevel = fillL1),
        cpu := cpu, address := p.pfAddr >>> log2BlockSize, fullAddr := p.pfAddr, ip := p.ip,
        type := .prefetch, eventCycle := clk.cycle cpu }).map Prod.fst
  else .ok l

def prefetchLines (clk : Clock) (cpu : Nat) : List PrefetchLine → Llc → Except LlcFault Llc
  | [], l => .ok l
  | p :: ps, l => l.prefetchLine clk cpu p >>= prefetchLines clk cpu ps

/-- `llc_prefetcher_operate` and `llc_prefetcher_cache_fill`. -/
def callPrefetcher (l : Llc) (clk : Clock) (cpu : Nat) : Except LlcFault Llc :=
  match l.prefetcher with
  | [] => .ok l
  | ps :: rest => prefetchLines clk cpu ps { l with prefetcher := rest }

/-- `remove_queue` of the write, read or prefetch queue. -/
def removeFrom (q : CacheQueue) (i : Nat) : Except LlcFault CacheQueue :=
  match q.removeQueue i with
  | some q => .ok q
  | none => .error .emptyQueue

/-! ### Fills -/

/-- What the manager is asked for a victim: nothing when the block is clean,
else a write-back. `none` is a full write queue. -/
def evict (s : Sys) (victim : Block) (cpu instrId : Nat) : Option (Option LowerOp) :=
  if victim.dirty then
    if s.getOccupancy 2 victim.address = s.getSize 2 victim.address then none
    else some (some (.op (.addWq
      (Sys.writebackPacket cpu victim.address victim.fullAddr instrId (s.now cpu)))))
  else some none

/-- The end of `handle_fill`: the entry leaves the MSHR. -/
def removeMshr (l : Llc) (i : Nat) : Except LlcFault Llc := do
  let q ← removeFrom l.mshr i
  return { l with mshr := q.updateFillCycle }

/-- `handle_fill` of a block that bypasses the cache. -/
def bypassFill (l : Llc) (i set way : Nat) : Except LlcFault Llc := do
  let e := l.mshr.entryAt i
  let l ← l.llcUpdateReplacementState set way e.ip e.type false
  (l.returnUpper e).removeMshr i

/-- `fill_cpu`. -/
def fillCpu (l : Llc) : Nat :=
  if l.mshr.nextFillIndex = llcMshrSize then numCpus else (l.mshr.entryAt l.mshr.nextFillIndex).cpu

/-- `handle_fill`, up to the write-back of the victim. -/
def handleFill (l : Llc) (s : Sys) : LlcStep :=
  let i := l.mshr.nextFillIndex
  let e := l.mshr.entryAt i
  if l.fillCpu = numCpus then l.andThen []
  else if l.mshr.nextFillCycle ≤ s.now l.fillCpu then
    if l.mshr.size ≤ i then .error .fillIndex
    else
      let set := getSet e.address
      match l.llcFindVictim set with
      | none => .error .noVictim
      | some way =>
          if way = llcWay then
            match l.bypassFill i set way with
            | .error e => .error e
            | .ok l => l.andThen []
          else
            match evict s (l.blockAt set way) l.fillCpu e.instrId with
            | none => .ok (l, some .incrementWQFull, [])
            | some op => .ok (l, op, [.finishFill i set way])
  else l.andThen []

/-- `handle_fill`, `do_fill`. -/
def finishFill (l : Llc) (clk : Clock) (i set way : Nat) : Except LlcFault Llc := do
  let e := l.mshr.entryAt i
  let l ← l.callPrefetcher clk e.cpu
  let l ← l.llcUpdateReplacementState set way e.ip e.type false
  ((l.fillCache set way e).returnUpper e).removeMshr i

/-! ### Write-backs from above -/

/-- `handle_writeback`, a hit. -/
def writebackHit (l : Llc) (i way : Nat) : Except LlcFault Llc := do
  let e := l.wq.entryAt i
  let set := getSet e.address
  let l ← l.llcUpdateReplacementState set way e.ip e.type true
  let l := (l.markDirty set way).returnUpper e
  let q ← removeFrom l.wq i
  return { l with wq := q }

/-- `handle_writeback`, up to the write-back of the victim. -/
def handleWriteback (l : Llc) (s : Sys) : LlcStep :=
  let i := l.wq.head
  let e := l.wq.entryAt i
  if e.cpu = numCpus then l.andThen []
  else if e.eventCycle ≤ s.now e.cpu ∧ 0 < l.wq.occupancy then
    match l.checkHit e.address with
    | some way =>
        match l.writebackHit i way with
        | .error e => .error e
        | .ok l => l.andThen []
    | none =>
        let set := getSet e.address
        match l.llcFindVictim set with
        | none => .error .noVictim
        | some way =>
            if way = llcWay then .error .writebackBypass
            else
              match evict s (l.blockAt set way) e.cpu e.instrId with
              | none => .ok (l, some .incrementWQFull, [])
              | some op => .ok (l, op, [.finishWriteback i set way])
  else l.andThen []

/-- `handle_writeback`, `do_fill`. -/
def finishWriteback (l : Llc) (clk : Clock) (i set way : Nat) : Except LlcFault Llc := do
  let e := l.wq.entryAt i
  let l ← l.callPrefetcher clk e.cpu
  let l ← l.llcUpdateReplacementState set way e.ip e.type false
  let l := ((l.fillCache set way e).markDirty set way).returnUpper e
  let q ← removeFrom l.wq i
  return { l with wq := q }

/-! ### Reads -/

/-- The end of a round of `handle_read`. -/
def nextRead (l : Llc) (left : Nat) : LlcStep :=
  l.andThen (if l.readsAvailable = 0 then [] else [.handleRead left])

/-- A read leaves the queue. -/
def removeRead (l : Llc) (i : Nat) : Except LlcFault Llc := do
  let q ← removeFrom l.rq i
  return { l with rq := q, readsAvailable := dec32 l.readsAvailable }

/-- The prefetcher is run on loads. -/
def operateOnRead (l : Llc) (clk : Clock) (e : CachePacket) : Except LlcFault Llc :=
  if e.type = .load then l.callPrefetcher clk e.cpu else .ok l

/-- `handle_read`, a hit. -/
def readHit (l : Llc) (clk : Clock) (i way : Nat) : Except LlcFault Llc := do
  let e := l.rq.entryAt i
  let set := getSet e.address
  let l ← l.operateOnRead clk e
  let l ← l.llcUpdateReplacementState set way e.ip e.type true
  (l.returnUpper e).removeRead i

/-- `handle_read`, a miss in flight: entry `j` of the MSHR takes over the
read. -/
def mergeRead (l : Llc) (e : CachePacket) (j : Nat) : Llc :=
  let m := (((l.mshr.entryAt j).markConsumer e).updateFill e).updateRequest e
  { l with mshr := l.mshr.setEntry j m }

/-- One round of `handle_read`, up to the `add_rq` of a new miss. -/
def handleRead (l : Llc) (s : Sys) : Nat → LlcStep
  | 0 => l.andThen []
  | left + 1 =>
      let i := l.rq.head
      let e := l.rq.entryAt i
      if e.cpu = numCpus then l.andThen []
      else if e.eventCycle ≤ s.now e.cpu ∧ 0 < l.rq.occupancy then
        match l.checkHit e.address with
        | some way =>
            match l.readHit s.clock i way with
            | .error e => .error e
            | .ok l => l.nextRead left
        | none =>
            match l.mshr.checkMshr e.address with
            | some j => (l.mergeRead e j).andThen [.readMissHandled i left]
            | none =>
                if l.mshr.occupancy < llcMshrSize then
                  if s.getOccupancy 1 e.address = s.getSize 1 e.address then l.nextRead left
                  else .ok ({ l with mshr := l.mshr.addMshr e }, some (.op (.addRq e.toPacket)),
                    [.readMissHandled i left])
                else if l.mshr.occupancy = llcMshrSize then l.nextRead left
                else .error .mshrErrors
      else l.andThen []

/-- `handle_read`, `miss_handled`. -/
def readMissHandled (l : Llc) (clk : Clock) (i : Nat) : Except LlcFault Llc := do
  let e := l.rq.entryAt i
  let l ← l.operateOnRead clk e
  l.removeRead i

/-! ### Prefetches -/

/-- The end of a round of `handle_prefetch`. -/
def nextPrefetch (l : Llc) (left : Nat) : LlcStep :=
  l.andThen (if l.readsAvailable = 0 then [] else [.handlePrefetch left])

/-- A prefetch leaves the queue. -/
def removePrefetch (l : Llc) (i : Nat) : Except LlcFault Llc := do
  let q ← removeFrom l.pq i
  return { l with pq := q, readsAvailable := dec32 l.readsAvailable }

/-- The prefetcher is run on prefetches from higher caches. -/
def operateOnPrefetch (l : Llc) (clk : Clock) (e : CachePacket) : Except LlcFault Llc :=
  if e.pfOriginLevel < fillLlc then l.callPrefetcher clk e.cpu else .ok l

/-- `handle_prefetch`, a hit. -/
def prefetchHit (l : Llc) (clk : Clock) (i way : Nat) : Except LlcFault Llc := do
  let e := l.pq.entryAt i
  let l ← l.llcUpdateReplacementState (getSet e.address) way e.ip e.type true
  let l ← l.operateOnPrefetch clk e
  (l.returnUpper (l.pq.entryAt i)).removePrefetch i

/-- `handle_prefetch`, a miss in flight. -/
def mergePrefetch (l : Llc) (e : CachePacket) (j : Nat) : Llc :=
  { l with mshr := l.mshr.setEntry j ((l.mshr.entryAt j).updateFill e) }

/-- `handle_prefetch`, a new miss. The prefetcher may have merged into the
entry, which is read again. -/
def prefetchMiss (l : Llc) (clk : Clock) (i left : Nat) : LlcStep :=
  match l.operateOnPrefetch clk (l.pq.entryAt i) with
  | .error e => .error e
  | .ok l =>
      let e := l.pq.entryAt i
      .ok (if e.fillLevel ≤ fillLlc then { l with mshr := l.mshr.addMshr e } else l,
        some (.op (.addRq e.toPacket)), [.prefetchMissHandled i left])

/-- One round of `handle_prefetch`, up to the `add_rq` of a new miss. -/
def handlePrefetch (l : Llc) (s : Sys) : Nat → LlcStep
  | 0 => l.andThen []
  | left + 1 =>
      let i := l.pq.head
      let e := l.pq.entryAt i
      if e.cpu = numCpus then l.andThen []
      else if e.eventCycle ≤ s.now e.cpu ∧ 0 < l.pq.occupancy then
        match l.checkHit e.address with
        | some way =>
            match l.prefetchHit s.clock i way with
            | .error e => .error e
            | .ok l => l.nextPrefetch left
        | none =>
            match l.mshr.checkMshr e.address with
            | some j => (l.mergePrefetch e j).andThen [.prefetchMissHandled i left]
            | none =>
                if l.mshr.occupancy < llcMshrSize then
                  if s.getOccupancy 1 e.address = s.getSize 1 e.address then l.nextPrefetch left
                  else l.prefetchMiss s.clock i left
                else if l.mshr.occupancy = llcMshrSize then l.nextPrefetch left
                else .error .mshrErrors
      else l.andThen []

/-! ### Callbacks -/

/-- `return_data`. -/
def returnData (l : Llc) (clk : Clock) (pkt : Packet) : Except ReturnFault Llc :=
  match l.mshr.checkMshr pkt.address with
  | none => .error .noMatchingEntry
  | some i =>
      let e := l.mshr.entryAt i
      let e :=
        { e with
          returned := .completed
          eventCycle := CacheQueue.delayed e.eventCycle (clk.cycle pkt.cpu) l.latency }
      .ok { l with mshr := (l.mshr.setEntry i e).updateFillCycle }

def returnAll (clk : Clock) : List Packet → Llc → Except ReturnFault Llc
  | [], l => .ok l
  | pkt :: pkts, l => l.returnData clk pkt >>= returnAll clk pkts

/-- The reads the manager takes when an operation is entered. -/
def taken (s : Sys) : Option LowerOp → List Packet
  | some (.op (.addRq pkt)) => if (s.addRq pkt).2.1 = -1 then [pkt] else []
  | _ => []

/-- What the cache makes of a step of the manager: both upper levels of the
manager are the cache, and a callback touches the cache only. -/
def notice (op : Option LowerOp) (s s' : Sys) (l : Llc) : Except ReturnFault Llc :=
  returnAll s'.clock ((deliveries (s'.dcm.log.drop s.dcm.log.length)).map Prod.snd)
    { l with reads := l.reads ++ taken s op }

/-! ### The component -/

/-- What one call does, given the manager. -/
def exec (c : LlcCall) (l : Llc) (s : Sys) : LlcStep :=
  match c with
  | .addRq pkt => (l.addRq s.clock pkt).bind fun r => r.1.andThen []
  | .addWq pkt => (l.addWq s.clock pkt).bind fun r => r.1.andThen []
  | .addPq pkt => (l.addPq s.clock pkt).bind fun r => r.1.andThen []
  | .handleFill => l.handleFill s
  | .finishFill i set way => (l.finishFill s.clock i set way).bind (·.andThen [])
  | .handleWriteback => l.handleWriteback s
  | .finishWriteback i set way => (l.finishWriteback s.clock i set way).bind (·.andThen [])
  | .startReads => { l with readsAvailable := llcMaxRead }.andThen [.handleRead llcMaxRead]
  | .handleRead left => l.handleRead s left
  | .readMissHandled i left => (l.readMissHandled s.clock i).bind (·.nextRead left)
  | .startPrefetches =>
      l.andThen (if l.pq.occupancy ≠ 0 ∧ 0 < l.readsAvailable then [.handlePrefetch llcMaxRead]
        else [])
  | .handlePrefetch left => l.handlePrefetch s left
  | .prefetchMissHandled i left => (l.removePrefetch i).bind (·.nextPrefetch left)

end Llc

/-- What happens to the cache at a call boundary: its port, its cycle with
what the prefetcher will ask for, and what the simulator changes. -/
inductive LlcOp where
  | addRq (pkt : CachePacket)
  | addWq (pkt : CachePacket)
  | addPq (pkt : CachePacket)
  | operate (prefetcher : List (List PrefetchLine))
  | setLatency (cycles : Nat)
  | invalidateEntry (address : Nat)

/-- The calls `operate` makes, in order. -/
def Llc.operateCalls : List LlcCall :=
  [.handleFill, .handleWriteback, .startReads, .startPrefetches]

/-- Enter an operation. -/
def Llc.enter (op : LlcOp) (l : Llc) : Llc × List LlcCall :=
  match op with
  | .addRq pkt => (l, [.addRq pkt])
  | .addWq pkt => (l, [.addWq pkt])
  | .addPq pkt => (l, [.addPq pkt])
  | .operate prefetcher => ({ l with prefetcher := prefetcher }, operateCalls)
  | .setLatency n => ({ l with latency := n }, [])
  | .invalidateEntry a => (l.invalidateEntry a, [])

/-- The cache as a client of the manager. -/
def llcClient : Worklist.Client LowerOp Sys LlcOp Llc LlcCall LlcFault ReturnFault where
  enter := Llc.enter
  exec := Llc.exec
  notice := Llc.notice

/-- The memory system as the cache sees it. -/
def lowerLevel : Worklist.Machine LowerOp Sys Call Assertion where
  enter
    | .op o, s => s.enter o
    | .incrementWQFull, s =>
        (s.onDcm (·.count fun st => { st with wqFullSignals := st.wqFullSignals + 1 }), [])
  exec := Sys.exec

/-- `UNCORE`: the cache over the manager and its controllers. -/
def uncore := lowerLevel.under llcClient

end DramCache
