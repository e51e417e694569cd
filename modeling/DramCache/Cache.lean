import DramCache.Lru
import DramCache.Fifo

/-!
# Any cache or TLB

`CACHE` of `src/cache.cc` at every `cache_type`, with the LRU policy, which
finds a victim among the ways: the bypass of the last level cache is not
taken. Counters, the `PROCESSED` queue and the payload that a cache only
copies are left out, and with them the assertions that a translation is not 0.

The other levels are open. What they and the prefetcher do while the cache
runs is its `Environment`, one answer for each time it is asked; what it asks
of them is logged. A function that calls out stops there, and the call that is
the rest of it waits behind what happens in between.
-/

namespace DramCache

/-! ## Configuration and surroundings -/

/-- `cache_type`. -/
inductive CacheType where
  | itlb
  | dtlb
  | stlb
  | l1i
  | l1d
  | l2c
  | llc
deriving Repr, DecidableEq

/-- What `CACHE` is constructed with, and what `main` sets once;
`lowerLevel` tells whether there is one. -/
structure CacheConfig where
  name : String
  cacheType : CacheType
  numSet : Nat
  numWay : Nat
  wqSize : Nat
  rqSize : Nat
  pqSize : Nat
  mshrSize : Nat
  fillLevel : Int
  maxRead : Nat
  lowerLevel : Bool := true

namespace CacheConfig

/-- `get_set`; `lg2` rounds down. -/
def getSet (cfg : CacheConfig) (address : Nat) : Nat := address % 2 ^ Nat.log2 cfg.numSet

/-- `WQ.check_queue`. -/
def checkWq (cfg : CacheConfig) (q : CacheQueue) (pkt : CachePacket) : Option Nat :=
  q.checkNamed (cfg.name ++ "_WQ") pkt

/-- The caches that run a prefetcher. -/
def prefetches (cfg : CacheConfig) : Bool :=
  match cfg.cacheType with
  | .l1i | .l1d | .l2c | .llc => true
  | .itlb | .dtlb | .stlb => false

/-- Whose `return_data` a packet is handed to once its line is here. -/
def waiters (cfg : CacheConfig) (pkt : CachePacket) : List Port :=
  if pkt.fillLevel < cfg.fillLevel then
    if cfg.fillLevel = 2 then
      (if pkt.fillL1i then [.icache] else []) ++ (if pkt.fillL1d then [.dcache] else [])
    else (if pkt.instruction then [.icache] else []) ++ (if pkt.isData then [.dcache] else [])
  else []

end CacheConfig

/-- A packet of the lower level: it hands back what it was asked for, and no
cache asks for line 0. -/
structure Reply where
  pkt : CachePacket
  address_ne : pkt.address ≠ 0

/-- What a prefetcher does: `prefetch_line`, or `prefetch_code_line` with the
translation it gets and the lines that a swap invalidates for it. -/
inductive PrefetchAct where
  | line (p : PrefetchLine)
  | codeLine (vAddr pa : Nat) (invalidated : List Nat)

/-- What the cache asks of the lower level. -/
inductive LowerCall where
  | addRq (pkt : CachePacket)
  | addPq (pkt : CachePacket)
  | addWq (pkt : CachePacket)
  | incrementWqFull (address : Nat)
deriving Repr, DecidableEq

/-- Whether the queue that is looked at is full, the callbacks of the lower
level during a call of it, the prefetcher, and the pages swapped out by a page
table walk: one entry for each time. -/
structure Environment where
  full : List Bool := []
  replies : List (List Reply) := []
  prefetcher : List (List PrefetchAct) := []
  walks : List (List Nat) := []

/-- The assertions of `CACHE`. -/
inductive CacheFault where
  /-- `handle_fill`: `MSHR.next_fill_index >= MSHR.SIZE`. -/
  | fillIndex
  /-- `lru_victim`: "no victim!" -/
  | noVictim
  /-- A dirty victim, and no lower level. -/
  | noLowerLevel
  /-- `llc_update_replacement_state`: a write-back that has an ip. -/
  | writebackIp
  /-- "MSHR errors". -/
  | mshrErrors
  /-- `remove_queue` of an empty queue. -/
  | emptyQueue
  /-- `add_rq`, `add_wq`, `add_pq`: "is not empty". -/
  | notEmpty
  /-- `add_rq`, `add_pq`: address 0. -/
  | zeroAddress
  /-- `add_wq`: `WQ.occupancy >= WQ.SIZE`. -/
  | writeQueueFull
  /-- `add_rq`: a write is waiting in a cache that is never written. -/
  | forwardedRead
  /-- `return_data`: "cannot find a matching entry!" -/
  | noMatchingEntry
  /-- `prefetch_code_line`: "Cannot prefetch code line 0x0 !!!" -/
  | zeroCodeLine
deriving Repr, DecidableEq

/-- Pending calls. Those without a source function of their name are the rest
of one, after it has called out. -/
inductive CacheCall where
  | addRq (pkt : CachePacket)
  | addWq (pkt : CachePacket)
  | addPq (pkt : CachePacket)
  | invalidateEntry (address : Nat)
  | returnData (r : Reply)
  /-- A call of the prefetcher for this CPU. -/
  | prefetcher (cpu : Nat)
  | prefetch (cpu : Nat) (act : PrefetchAct)
  | handleFill
  /-- `handle_fill`, `do_fill`. -/
  | finishFill (index set way : Nat)
  | handleWriteback
  /-- `handle_writeback`, `do_fill`. -/
  | finishWriteback (index set way : Nat)
  /-- `handle_writeback`, the end of an RFO miss. -/
  | removeWrite (index : Nat)
  /-- `operate`, where it sets `reads_available_this_cycle`. -/
  | startReads
  /-- The loop of `handle_read`, with this many rounds left. -/
  | handleRead (left : Nat)
  | finishReadHit (index way left : Nat)
  /-- `handle_read`, after a page table walk. -/
  | walked (index : Nat)
  /-- `handle_read`: `miss_handled`. -/
  | readMissHandled (index left : Nat)
  | removeRead (index left : Nat)
  /-- `operate`, where it tests whether to prefetch. -/
  | startPrefetches
  /-- The loop of `handle_prefetch`, with this many rounds left. -/
  | handlePrefetch (left : Nat)
  | finishPrefetchHit (index left : Nat)
  /-- `handle_prefetch`, a new miss. -/
  | prefetchMiss (index left : Nat)
  | removePrefetch (index left : Nat)

/-- The cache at run time; `sent` and `answers` are ghosts. -/
structure Cache where
  clock : Clock
  block : Nat → List Block
  wq : CacheQueue
  rq : CacheQueue
  pq : CacheQueue
  mshr : CacheQueue
  latency : Nat := 0
  readsAvailable : Nat := 0
  env : Environment := {}
  sent : List LowerCall := []
  answers : List (Port × CachePacket) := []

/-- What one call does. -/
abbrev CacheStep := Except CacheFault (Cache × List CacheCall)

namespace Cache

/-- `CACHE`, constructed. -/
def new (cfg : CacheConfig) : Cache where
  clock := .zero
  block := fun _ => Lru.newBlocks cfg.numWay
  wq := .new cfg.wqSize
  rq := .new cfg.rqSize
  pq := .new cfg.pqSize
  mshr := .new cfg.mshrSize

/-- `current_core_cycle[cpu]`. -/
def now (s : Cache) (cpu : Nat) : Nat := s.clock.cycle cpu

variable (cfg : CacheConfig)

/-! ## Blocks -/

def blockAt (s : Cache) (set way : Nat) : Block := Lru.blockAt (s.block set) way

def setBlock (s : Cache) (set way : Nat) (b : Block) : Cache :=
  { s with block := Function.update s.block set ((s.block set).set way b) }

/-- `check_hit`. -/
def checkHit (s : Cache) (address : Nat) : Option Nat :=
  (s.block (cfg.getSet address)).findIdx? fun b => b.valid && b.tag == address

/-- `find_victim` and `llc_find_victim`. -/
def findVictim (s : Cache) (set : Nat) : Option Nat := Lru.lruVictim cfg.numWay (s.block set)

/-- `update_replacement_state` and `llc_update_replacement_state`. -/
def updateReplacementState (s : Cache) (set way ip : Nat) (type : AccessType) (hit : Bool) :
    Except CacheFault Cache :=
  if cfg.cacheType = .llc ∧ type = .writeback ∧ ip ≠ 0 then .error .writebackIp
  else if type = .writeback ∧ hit = true then .ok s
  else .ok { s with block := Lru.update cfg.numWay s.block (set, way) }

/-- `fill_cache`. -/
def fillCache (s : Cache) (set way : Nat) (pkt : CachePacket) : Cache :=
  s.setBlock set way
    { s.blockAt set way with
      valid := true, dirty := false, tag := pkt.address, address := pkt.address,
      fullAddr := pkt.fullAddr }

/-- `block[set][way].dirty = 1`. -/
def markDirty (s : Cache) (set way : Nat) : Cache :=
  s.setBlock set way { s.blockAt set way with dirty := true }

/-- `invalidate_entry`. -/
def invalidateEntry (s : Cache) (address : Nat) : Cache :=
  match s.checkHit cfg address with
  | some way =>
      s.setBlock (cfg.getSet address) way { s.blockAt (cfg.getSet address) way with valid := false }
  | none => s

/-! ## The other levels -/

/-- The calls of `upper_level_icache` and `upper_level_dcache`. -/
def returnUpper (s : Cache) (pkt : CachePacket) : Cache :=
  { s with answers := s.answers ++ (cfg.waiters pkt).map fun p => (p, pkt) }

/-- A call of the lower level, its callbacks, and what comes `next`. -/
def askLower (s : Cache) (op : LowerCall) (next : List CacheCall) : CacheStep :=
  .ok ({ s with sent := s.sent ++ [op], env := { s.env with replies := s.env.replies.tail } },
    (s.env.replies.headD []).map .returnData ++ next)

/-- `lower_level->get_occupancy == lower_level->get_size`. -/
def lowerFull (s : Cache) : Bool := s.env.full.headD false

def checkedFull (s : Cache) : Cache := { s with env := { s.env with full := s.env.full.tail } }

/-- The prefetcher is called, in a cache that has one. -/
def prefetcherCalls (cpu : Nat) : List CacheCall :=
  if cfg.prefetches then [.prefetcher cpu] else []

/-- What the prefetcher does this time. -/
def callPrefetcher (s : Cache) (cpu : Nat) : CacheStep :=
  .ok ({ s with env := { s.env with prefetcher := s.env.prefetcher.tail } },
    (s.env.prefetcher.headD []).map (.prefetch cpu))

/-! ## The queues -/

/-- `add_rq`. -/
def addRq (s : Cache) (pkt : CachePacket) : Except CacheFault (Cache × Int) :=
  match cfg.checkWq s.wq pkt with
  | some _ =>
      match cfg.cacheType with
      | .itlb | .dtlb | .l1i => .error .forwardedRead
      | _ => .ok (s.returnUpper cfg pkt, -1)
  | none =>
      match s.rq.checkQueue pkt with
      | some i =>
          let e := s.rq.entryAt i
          let e := if pkt.instruction then { e with instruction := true } else { e with isData := true }
          let e := { e with fillL1i := pkt.fillL1i || e.fillL1i, fillL1d := pkt.fillL1d || e.fillL1d }
          .ok ({ s with rq := s.rq.setEntry i e }, i)
      | none =>
          if s.rq.occupancy = cfg.rqSize then .ok (s, -2)
          else if (s.rq.entryAt s.rq.tail).address ≠ 0 then .error .notEmpty
          else if pkt.address = 0 then .error .zeroAddress
          else .ok ({ s with rq := s.rq.push pkt (s.now pkt.cpu) s.latency }, -1)

/-- `add_wq`. -/
def addWq (s : Cache) (pkt : CachePacket) : Except CacheFault (Cache × Int) :=
  match cfg.checkWq s.wq pkt with
  | some i => .ok (s, i)
  | none =>
      if s.wq.size ≤ s.wq.occupancy then .error .writeQueueFull
      else if (s.wq.entryAt s.wq.tail).address ≠ 0 then .error .notEmpty
      else .ok ({ s with wq := s.wq.push pkt (s.now pkt.cpu) s.latency }, -1)

/-- `add_pq`. -/
def addPq (s : Cache) (pkt : CachePacket) : Except CacheFault (Cache × Int) :=
  match cfg.checkWq s.wq pkt with
  | some _ => .ok (s.returnUpper cfg pkt, -1)
  | none =>
      match s.pq.checkQueue pkt with
      | some i =>
          let e := s.pq.entryAt i
          let e :=
            { e with
              fillLevel := if pkt.fillLevel < e.fillLevel then pkt.fillLevel else e.fillLevel
              instruction := pkt.instruction || e.instruction
              isData := pkt.isData || e.isData
              fillL1i := pkt.fillL1i || e.fillL1i
              fillL1d := pkt.fillL1d || e.fillL1d }
          .ok ({ s with pq := s.pq.setEntry i e }, i)
      | none =>
          if s.pq.occupancy = cfg.pqSize then .ok (s, -2)
          else if (s.pq.entryAt s.pq.tail).address ≠ 0 then .error .notEmpty
          else if pkt.address = 0 then .error .zeroAddress
          else .ok ({ s with pq := s.pq.push pkt (s.now pkt.cpu) s.latency }, -1)

/-- `prefetch_line` and `kpc_prefetch_line`, or `prefetch_code_line`. -/
def prefetch (s : Cache) (cpu : Nat) : PrefetchAct → CacheStep
  | .line p =>
      .ok (s, if s.pq.occupancy < s.pq.size ∧
          p.baseAddr >>> log2PageSize = p.pfAddr >>> log2PageSize then
        [.addPq
          { fillLevel := p.fillLevel, pfOriginLevel := cfg.fillLevel,
            fillL1d := decide (p.fillLevel = fillL1), cpu := cpu,
            address := p.pfAddr >>> log2BlockSize, fullAddr := p.pfAddr, ip := p.ip,
            type := .prefetch, eventCycle := s.now cpu }]
        else [])
  | .codeLine vAddr pa invalidated =>
      if vAddr = 0 then .error .zeroCodeLine
      else
        .ok (s, if s.pq.occupancy < s.pq.size then
          invalidated.map .invalidateEntry ++
            [.addPq
              { instruction := true, isData := false, fillLevel := fillL1, fillL1i := true,
                pfOriginLevel := fillL1, cpu := cpu, address := pa >>> log2BlockSize,
                fullAddr := pa, ip := vAddr, type := .prefetch, eventCycle := s.now cpu }]
          else [])

/-- `remove_queue` of one of the queues. -/
def removeFrom (q : CacheQueue) (i : Nat) : Except CacheFault CacheQueue :=
  match q.removeQueue i with
  | some q => .ok q
  | none => .error .emptyQueue

/-! ## Evictions and fills -/

/-- A write-back of a line of this cache. -/
def writebackPacket (s : Cache) (victim : Block) (cpu instrId : Nat) : CachePacket :=
  { toPacket := Sys.writebackPacket cpu victim.address victim.fullAddr instrId (s.now cpu)
    fillLevel := cfg.fillLevel * 2 }

/-- "is this dirty?": a dirty victim is written back before what comes `next`,
which does not happen when the lower level has no room. -/
def evict (s : Cache) (victim : Block) (cpu instrId : Nat) (next : List CacheCall) : CacheStep :=
  if victim.dirty then
    if cfg.lowerLevel then
      if s.lowerFull then
        .ok ({ s.checkedFull with sent := s.sent ++ [.incrementWqFull victim.address] }, [])
      else s.checkedFull.askLower (.addWq (s.writebackPacket cfg victim cpu instrId)) next
    else if cfg.cacheType = .stlb then .ok (s, next)
    else .error .noLowerLevel
  else .ok (s, next)

/-- `fill_cpu`. -/
def fillCpu (s : Cache) : Nat :=
  if s.mshr.nextFillIndex = cfg.mshrSize then numCpus else (s.mshr.entryAt s.mshr.nextFillIndex).cpu

/-- `handle_fill`, up to what the prefetcher and the lower level do. -/
def handleFill (s : Cache) : CacheStep :=
  let i := s.mshr.nextFillIndex
  let e := s.mshr.entryAt i
  if s.fillCpu cfg = numCpus then .ok (s, [])
  else if s.mshr.nextFillCycle ≤ s.now (s.fillCpu cfg) then
    if s.mshr.size ≤ i then .error .fillIndex
    else
      let set := cfg.getSet e.address
      match s.findVictim cfg set with
      | none => .error .noVictim
      | some way =>
          s.evict cfg (s.blockAt set way) (s.fillCpu cfg) e.instrId
            (prefetcherCalls cfg (s.fillCpu cfg) ++ [.finishFill i set way])
  else .ok (s, [])

/-- The end of `handle_fill`: the entry leaves the MSHR. -/
def removeMshr (s : Cache) (i : Nat) : Except CacheFault Cache := do
  let q ← removeFrom s.mshr i
  return { s with mshr := q.updateFillCycle }

/-- An RFO marks its line dirty. -/
def markRfo (s : Cache) (set way : Nat) (e : CachePacket) : Cache :=
  if cfg.cacheType = .l1d ∧ e.type = .rfo then s.markDirty set way else s

/-- `handle_fill`, `do_fill`. -/
def finishFill (s : Cache) (i set way : Nat) : Except CacheFault Cache := do
  let e := s.mshr.entryAt i
  let s ← s.updateReplacementState cfg set way e.ip e.type false
  (((s.fillCache set way e).markRfo cfg set way e).returnUpper cfg e).removeMshr i

/-! ## Write-backs from above, and stores -/

/-- A write leaves the queue. -/
def removeWrite (s : Cache) (i : Nat) : Except CacheFault Cache := do
  let q ← removeFrom s.wq i
  return { s with wq := q }

/-- `handle_writeback`, a hit. -/
def writebackHit (s : Cache) (i way : Nat) : Except CacheFault Cache := do
  let e := s.wq.entryAt i
  let set := cfg.getSet e.address
  let s ← s.updateReplacementState cfg set way e.ip e.type true
  ((s.markDirty set way).returnUpper cfg e).removeWrite i

/-- `handle_writeback`, an RFO that merges with entry `j` of the MSHR. -/
def mergeRfo (s : Cache) (e : CachePacket) (j : Nat) : Cache :=
  { s with mshr := s.mshr.setEntry j (((s.mshr.entryAt j).updateFill e).updateRequest e) }

/-- `handle_writeback`, an RFO miss. -/
def rfoMiss (s : Cache) (i : Nat) : CacheStep :=
  let e := s.wq.entryAt i
  match s.mshr.checkMshr e.address with
  | some j => .ok (s.mergeRfo e j, [.removeWrite i])
  | none =>
      if s.mshr.occupancy < cfg.mshrSize then
        { s with mshr := s.mshr.addMshr e }.askLower (.addRq e) [.removeWrite i]
      else if s.mshr.occupancy = cfg.mshrSize then .ok (s, [])
      else .error .mshrErrors

/-- `handle_writeback`, a miss that is to be installed. -/
def writebackMiss (s : Cache) (i : Nat) : CacheStep :=
  let e := s.wq.entryAt i
  let set := cfg.getSet e.address
  match s.findVictim cfg set with
  | none => .error .noVictim
  | some way =>
      s.evict cfg (s.blockAt set way) e.cpu e.instrId
        (prefetcherCalls cfg e.cpu ++ [.finishWriteback i set way])

/-- `handle_writeback`. -/
def handleWriteback (s : Cache) : CacheStep :=
  let i := s.wq.head
  let e := s.wq.entryAt i
  if e.cpu = numCpus then .ok (s, [])
  else if e.eventCycle ≤ s.now e.cpu ∧ 0 < s.wq.occupancy then
    match s.checkHit cfg e.address with
    | some way => (s.writebackHit cfg i way).map fun s => (s, [])
    | none => if cfg.cacheType = .l1d then s.rfoMiss cfg i else s.writebackMiss cfg i
  else .ok (s, [])

/-- `handle_writeback`, `do_fill`. -/
def finishWriteback (s : Cache) (i set way : Nat) : Except CacheFault Cache := do
  let e := s.wq.entryAt i
  let s ← s.updateReplacementState cfg set way e.ip e.type false
  (((s.fillCache set way e).markDirty set way).returnUpper cfg e).removeWrite i

/-! ## Reads -/

/-- The end of a round of `handle_read`. -/
def nextRead (s : Cache) (left : Nat) : CacheStep :=
  .ok (s, if s.readsAvailable = 0 then [] else [.handleRead left])

/-- A read leaves the queue. -/
def removeRead (s : Cache) (i left : Nat) : CacheStep := do
  let q ← removeFrom s.rq i
  { s with rq := q, readsAvailable := dec32 s.readsAvailable }.nextRead left

/-- The prefetcher is run on loads. -/
def operateOnRead (e : CachePacket) : List CacheCall :=
  if e.type = .load then prefetcherCalls cfg e.cpu else []

/-- `handle_read`, a hit, after the prefetcher. -/
def finishReadHit (s : Cache) (i way left : Nat) : CacheStep := do
  let e := s.rq.entryAt i
  let s ← s.updateReplacementState cfg (cfg.getSet e.address) way e.ip e.type true
  (s.returnUpper cfg e).removeRead i left

/-- `handle_read`, a miss in flight. -/
def mergeRead (s : Cache) (e : CachePacket) (j : Nat) : Cache :=
  { s with
    mshr := s.mshr.setEntry j
      ((((s.mshr.entryAt j).markConsumer e).updateFill e).updateRequest e) }

/-- The page table walk of the last TLB, which `return_data` ends. -/
def walk (s : Cache) (i left : Nat) : CacheStep :=
  .ok ({ s with env := { s.env with walks := s.env.walks.tail } },
    (s.env.walks.headD []).map .invalidateEntry ++ [.walked i, .readMissHandled i left])

/-- `handle_read`, a new miss. -/
def readMiss (s : Cache) (i left : Nat) : CacheStep :=
  let e := s.rq.entryAt i
  let s' := { s with mshr := s.mshr.addMshr e }
  if cfg.cacheType = .llc then
    if s.lowerFull then s.checkedFull.nextRead left
    else s'.checkedFull.askLower (.addRq e) [.readMissHandled i left]
  else if cfg.lowerLevel then s'.askLower (.addRq e) [.readMissHandled i left]
  else if cfg.cacheType = .stlb then s'.walk i left
  else .ok (s', [.readMissHandled i left])

/-- One round of `handle_read`. -/
def handleRead (s : Cache) : Nat → CacheStep
  | 0 => .ok (s, [])
  | left + 1 =>
      let i := s.rq.head
      let e := s.rq.entryAt i
      if e.cpu = numCpus then .ok (s, [])
      else if e.eventCycle ≤ s.now e.cpu ∧ 0 < s.rq.occupancy then
        match s.checkHit cfg e.address with
        | some way => .ok (s, operateOnRead cfg e ++ [.finishReadHit i way left])
        | none =>
            match s.mshr.checkMshr e.address with
            | some j => .ok (s.mergeRead e j, [.readMissHandled i left])
            | none =>
                if s.mshr.occupancy < cfg.mshrSize then s.readMiss cfg i left
                else if s.mshr.occupancy = cfg.mshrSize then s.nextRead left
                else .error .mshrErrors
      else .ok (s, [])

/-- `handle_read`, `miss_handled`. -/
def readMissHandled (s : Cache) (i left : Nat) : CacheStep :=
  .ok (s, operateOnRead cfg (s.rq.entryAt i) ++ [.removeRead i left])

/-! ## Prefetches -/

/-- The end of a round of `handle_prefetch`. -/
def nextPrefetch (s : Cache) (left : Nat) : CacheStep :=
  .ok (s, if s.readsAvailable = 0 then [] else [.handlePrefetch left])

/-- A prefetch leaves the queue. -/
def removePrefetch (s : Cache) (i left : Nat) : CacheStep := do
  let q ← removeFrom s.pq i
  { s with pq := q, readsAvailable := dec32 s.readsAvailable }.nextPrefetch left

/-- The prefetcher is run on prefetches from higher caches, but not in the
instruction cache. -/
def operateOnPrefetch (e : CachePacket) : List CacheCall :=
  if e.pfOriginLevel < cfg.fillLevel ∧ cfg.cacheType ≠ .l1i then prefetcherCalls cfg e.cpu else []

/-- `handle_prefetch`, a hit, after the prefetcher. -/
def finishPrefetchHit (s : Cache) (i left : Nat) : CacheStep :=
  (s.returnUpper cfg (s.pq.entryAt i)).removePrefetch i left

/-- `handle_prefetch`, a miss in flight. -/
def mergePrefetch (s : Cache) (e : CachePacket) (j : Nat) : Cache :=
  { s with mshr := s.mshr.setEntry j ((s.mshr.entryAt j).updateFill e) }

/-- `handle_prefetch`, a new miss, after the prefetcher. -/
def prefetchMiss (s : Cache) (i left : Nat) : CacheStep :=
  let e := s.pq.entryAt i
  let s' := if e.fillLevel ≤ cfg.fillLevel then { s with mshr := s.mshr.addMshr e } else s
  s'.askLower (if cfg.cacheType = .llc then .addRq e else .addPq e) [.removePrefetch i left]

/-- One round of `handle_prefetch`. -/
def handlePrefetch (s : Cache) : Nat → CacheStep
  | 0 => .ok (s, [])
  | left + 1 =>
      let i := s.pq.head
      let e := s.pq.entryAt i
      if e.cpu = numCpus then .ok (s, [])
      else if e.eventCycle ≤ s.now e.cpu ∧ 0 < s.pq.occupancy then
        match s.checkHit cfg e.address with
        | some way =>
            (s.updateReplacementState cfg (cfg.getSet e.address) way e.ip e.type true).map fun s =>
              (s, operateOnPrefetch cfg e ++ [.finishPrefetchHit i left])
        | none =>
            match s.mshr.checkMshr e.address with
            | some j => .ok (s.mergePrefetch e j, [.removePrefetch i left])
            | none =>
                if s.mshr.occupancy < cfg.mshrSize then
                  if cfg.lowerLevel then
                    if s.lowerFull then s.checkedFull.nextPrefetch left
                    else .ok (s.checkedFull, operateOnPrefetch cfg e ++ [.prefetchMiss i left])
                  else .ok (s, [.removePrefetch i left])
                else if s.mshr.occupancy = cfg.mshrSize then s.nextPrefetch left
                else .error .mshrErrors
      else .ok (s, [])

/-! ## Callbacks -/

/-- `return_data`. -/
def returnData (s : Cache) (pkt : CachePacket) : Except CacheFault Cache :=
  match s.mshr.checkMshr pkt.address with
  | none => .error .noMatchingEntry
  | some i =>
      let e := s.mshr.entryAt i
      let e :=
        { e with
          returned := .completed
          eventCycle := CacheQueue.delayed e.eventCycle (s.now pkt.cpu) s.latency }
      .ok { s with mshr := (s.mshr.setEntry i e).updateFillCycle }

/-- The end of a page table walk. -/
def walked (s : Cache) (i : Nat) : Except CacheFault Cache :=
  let e := s.rq.entryAt i
  let e := { e with eventCycle := s.now e.cpu }
  { s with rq := s.rq.setEntry i e }.returnData e

/-! ## The component -/

/-- A call that makes no other. -/
def last (s : Except CacheFault Cache) : CacheStep := s.map fun s => (s, [])

/-- What one call does. -/
def exec (c : CacheCall) (s : Cache) : CacheStep :=
  match c with
  | .addRq pkt => last ((s.addRq cfg pkt).map Prod.fst)
  | .addWq pkt => last ((s.addWq cfg pkt).map Prod.fst)
  | .addPq pkt => last ((s.addPq cfg pkt).map Prod.fst)
  | .invalidateEntry a => last (.ok (s.invalidateEntry cfg a))
  | .returnData r => last (s.returnData r.pkt)
  | .prefetcher cpu => s.callPrefetcher cpu
  | .prefetch cpu act => s.prefetch cfg cpu act
  | .handleFill => s.handleFill cfg
  | .finishFill i set way => last (s.finishFill cfg i set way)
  | .handleWriteback => s.handleWriteback cfg
  | .finishWriteback i set way => last (s.finishWriteback cfg i set way)
  | .removeWrite i => last (s.removeWrite i)
  | .startReads => .ok ({ s with readsAvailable := cfg.maxRead }, [.handleRead cfg.maxRead])
  | .handleRead left => s.handleRead cfg left
  | .finishReadHit i way left => s.finishReadHit cfg i way left
  | .walked i => last (s.walked i)
  | .readMissHandled i left => s.readMissHandled cfg i left
  | .removeRead i left => s.removeRead i left
  | .startPrefetches =>
      .ok (s, if s.pq.occupancy ≠ 0 ∧ 0 < s.readsAvailable then [.handlePrefetch cfg.maxRead]
        else [])
  | .handlePrefetch left => s.handlePrefetch cfg left
  | .finishPrefetchHit i left => s.finishPrefetchHit cfg i left
  | .prefetchMiss i left => s.prefetchMiss cfg i left
  | .removePrefetch i left => s.removePrefetch i left

/-- The calls `operate` makes, in order. -/
def operateCalls : List CacheCall := [.handleFill, .handleWriteback, .startReads, .startPrefetches]

end Cache

/-- What happens to a cache at a call boundary. -/
inductive CacheOp where
  | addRq (pkt : CachePacket)
  | addWq (pkt : CachePacket)
  | addPq (pkt : CachePacket)
  | operate (env : Environment)
  | invalidateEntry (address : Nat)
  | returnData (r : Reply)
  | setLatency (cycles : Nat)
  | setClock (clk : Clock)

/-- Enter an operation. -/
def Cache.enter (op : CacheOp) (s : Cache) : Cache × List CacheCall :=
  match op with
  | .addRq pkt => (s, [.addRq pkt])
  | .addWq pkt => (s, [.addWq pkt])
  | .addPq pkt => (s, [.addPq pkt])
  | .operate env => ({ s with env := env }, operateCalls)
  | .invalidateEntry a => (s, [.invalidateEntry a])
  | .returnData r => (s, [.returnData r])
  | .setLatency n => ({ s with latency := n }, [])
  | .setClock clk => ({ s with clock := clk }, [])

/-- `CACHE` in any surroundings. -/
def Cache.machine (cfg : CacheConfig) : Worklist.Machine CacheOp Cache CacheCall CacheFault where
  enter := Cache.enter
  exec := Cache.exec cfg

end DramCache
