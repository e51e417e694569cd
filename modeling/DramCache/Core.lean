import DramCache.Instruction
import DramCache.Ring

/-!
# The out-of-order core

`O3_CPU` of `src/ooo_cpu.cc`: its buffers, and the two ends of the pipeline,
from the trace to the reorder buffer and out of it again. Instructions are
scheduled in `DramCache.Scheduling`; loads and stores are in
`DramCache.LoadStore`.

The caches and TLBs are not part of it. Whether one of them takes a request is
an argument of the function that sends it, and so are the packets they have
processed, and the outcome the branch predictor predicts.

An assertion that fails is noted in `fault`, and nothing happens any more. What
the core does is noted in `log`; no function reads it.
-/

namespace DramCache

/-! ## Constants -/

def fetchWidth : Nat := 6

def decodeWidth : Nat := 6

def execWidth : Nat := 6

def lqWidth : Nat := 2

def sqWidth : Nat := 2

def retireWidth : Nat := 4

def schedulerSize : Nat := 128

def branchMispredictPenalty : Nat := 1

def robSize : Nat := 352

def lqSize : Nat := 128

def sqSize : Nat := 72

/-- `ROB_SIZE*NUM_INSTR_DESTINATIONS_SPARC`. -/
def staSize : Nat := robSize * 4

/-- `SCHEDULING_LATENCY` and `EXEC_LATENCY`, which stay 0. -/
def schedulingLatency : Nat := 0

def execLatency : Nat := 0

/-! ## Buffers -/

/-- `CORE_BUFFER`. -/
structure CoreBuffer where
  size : Nat
  entry : List OooInstr
  head : Nat := 0
  tail : Nat := 0
  occupancy : Nat := 0
  /-- `next_fetch[1]`; nothing assigns it. -/
  nextFetch : Nat := 0
  nextSchedule : Nat := 0

namespace CoreBuffer

def new (size : Nat) : CoreBuffer := { size := size, entry := List.replicate size {} }

def entryAt (b : CoreBuffer) (i : Nat) : OooInstr := b.entry[i]?.getD {}

def modify (b : CoreBuffer) (i : Nat) (f : OooInstr → OooInstr) : CoreBuffer :=
  { b with entry := b.entry.modify i f }

/-- Every entry that is like this. -/
def modifyAll (b : CoreBuffer) (p : OooInstr → Bool) (f : OooInstr → OooInstr) : CoreBuffer :=
  { b with entry := b.entry.map fun e => if p e then f e else e }

/-- An entry is added at the tail. -/
def push (b : CoreBuffer) (i : OooInstr) : CoreBuffer :=
  { b with
    entry := b.entry.set b.tail i
    occupancy := b.occupancy + 1
    tail := Ring.advance b.size b.tail }

/-- The entry at the head is removed. -/
def pop (b : CoreBuffer) : CoreBuffer :=
  { b with
    entry := b.entry.set b.head {}
    head := Ring.advance b.size b.head
    occupancy := dec32 b.occupancy }

/-- `(head == tail) && occupancy == 0`. -/
def isEmpty (b : CoreBuffer) : Bool := b.head = b.tail && b.occupancy = 0

end CoreBuffer

/-- `LSQ_ENTRY`; a `producer_id` of `UINT64_MAX` is `none`. -/
structure LsqEntry where
  instrId : Nat := 0
  producerId : Option Nat := none
  virtualAddress : UInt64 := 0
  physicalAddress : UInt64 := 0
  ip : UInt64 := 0
  eventCycle : Nat := 0
  robIndex : Nat := 0
  dataIndex : Nat := 0
  translated : Returned := .idle
  fetched : Returned := .idle
deriving DecidableEq

/-- `LOAD_STORE_QUEUE`. -/
structure LoadStoreQueue where
  size : Nat
  entry : List LsqEntry
  occupancy : Nat := 0
  head : Nat := 0
  tail : Nat := 0

namespace LoadStoreQueue

def new (size : Nat) : LoadStoreQueue := { size := size, entry := List.replicate size {} }

def entryAt (q : LoadStoreQueue) (i : Nat) : LsqEntry := q.entry[i]?.getD {}

def modify (q : LoadStoreQueue) (i : Nat) (f : LsqEntry → LsqEntry) : LoadStoreQueue :=
  { q with entry := q.entry.modify i f }

end LoadStoreQueue

/-- The arrays of indices that are ready to execute, load or store. -/
inductive ReadyName where
  | rte0
  | rte1
  | rtl0
  | rtl1
  | rts0
  | rts1
deriving Repr, DecidableEq

def ReadyName.size : ReadyName → Nat
  | rte0 | rte1 => robSize
  | rtl0 | rtl1 => lqSize
  | rts0 | rts1 => sqSize

/-- One of them; an index that is not below its size is `none`. -/
structure ReadyArray where
  entry : List (Option Nat)
  head : Nat := 0
  tail : Nat := 0

namespace ReadyArray

def new (size : Nat) : ReadyArray := { entry := List.replicate size none }

def push (size : Nat) (a : ReadyArray) (i : Nat) : ReadyArray :=
  { a with entry := a.entry.set a.tail (some i), tail := Ring.advance size a.tail }

def pop (size : Nat) (a : ReadyArray) : ReadyArray :=
  { a with entry := a.entry.set a.head none, head := Ring.advance size a.head }

/-- What is at the head. -/
def front (a : ReadyArray) : Option Nat := a.entry[a.head]?.getD none

/-- The cell at the tail is in use. -/
def occupied (a : ReadyArray) : Bool := (a.entry[a.tail]?.getD none).isSome

end ReadyArray

/-! ## The core -/

/-- The assertions of the core. -/
inductive CoreFault where
  | robNotEmpty
  | robIpZero
  | ifetchNotEmpty
  | decodeNotEmpty
  | sta
  | readyToExecute
  | noEmptySlot
  | storeQueue
  | numMemOps
  | producerId
  | checkRob
  | storeMerged
deriving Repr, DecidableEq

/-- What is handed to `L1D.add_wq` at retirement. -/
structure StorePacket where
  instrId : Nat
  dataIndex : Nat
  fullAddr : UInt64
  ip : UInt64
deriving DecidableEq

/-- What the core does: an instruction starts to execute, completes, retires,
or has one of its stores written. -/
inductive CoreEvent where
  | started (instrId : Nat)
  | completed (instrId : Nat)
  | retired (i : OooInstr)
  | written (pkt : StorePacket)
deriving DecidableEq

structure O3Cpu where
  file : TraceFile
  ifetchBuffer : CoreBuffer := .new (fetchWidth * 2)
  decodeBuffer : CoreBuffer := .new (decodeWidth * 3)
  rob : CoreBuffer := .new robSize
  lq : LoadStoreQueue := .new lqSize
  sq : LoadStoreQueue := .new sqSize
  /-- `UINT64_MAX` is `none`. -/
  sta : List (Option Nat) := List.replicate staSize none
  staHead : Nat := 0
  staTail : Nat := 0
  ready : ReadyName → ReadyArray := fun a => .new a.size
  fetchStall : Bool := false
  fetchResumeCycle : Nat := 0
  instrsToReadThisCycle : Nat := 0
  inflightRegExecutions : Nat := 0
  inflightMemExecutions : Nat := 0
  numSearched : Nat := 0
  numRetired : Nat := 0
  currentCoreCycle : Nat := 0
  warmupComplete : Bool := false
  decodeLatency : Nat := 0
  fault : Option CoreFault := none
  log : List CoreEvent := []

namespace O3Cpu

/-- The core as the simulation starts with it. -/
def init (records : List InputInstr) : O3Cpu := { file := .openTrace records }

/-- An assertion; the first one that fails is the one that is noted. -/
def check (ok : Bool) (f : CoreFault) (s : O3Cpu) : O3Cpu :=
  if ok then s else { s with fault := some (s.fault.getD f) }

def note (e : CoreEvent) (s : O3Cpu) : O3Cpu := { s with log := s.log ++ [e] }

def modifyRob (i : Nat) (f : OooInstr → OooInstr) (s : O3Cpu) : O3Cpu :=
  { s with rob := s.rob.modify i f }

def modifyLq (i : Nat) (f : LsqEntry → LsqEntry) (s : O3Cpu) : O3Cpu :=
  { s with lq := s.lq.modify i f }

def modifySq (i : Nat) (f : LsqEntry → LsqEntry) (s : O3Cpu) : O3Cpu :=
  { s with sq := s.sq.modify i f }

def pushReady (a : ReadyName) (i : Nat) (s : O3Cpu) : O3Cpu :=
  { s with ready := Function.update s.ready a ((s.ready a).push a.size i) }

def popReady (a : ReadyName) (s : O3Cpu) : O3Cpu :=
  { s with ready := Function.update s.ready a ((s.ready a).pop a.size) }

/-! ## From the trace to the fetch buffer -/

/-- `update STA`, for one store of the instruction `instrId`. -/
def updateSta (instrId : Nat) (s : O3Cpu) : O3Cpu :=
  let s := check ((s.sta[s.staTail]?.getD none).isNone || s.staHead = s.staTail) .sta s
  { s with
    sta := s.sta.set s.staTail (some instrId)
    staTail := if s.staTail + 1 = staSize then 0 else s.staTail + 1 }

/-- `add_to_ifetch_buffer`, where the translation is magic. -/
def addToIfetchBuffer (i : OooInstr) (s : O3Cpu) : O3Cpu :=
  let s := check ((s.ifetchBuffer.entryAt s.ifetchBuffer.tail).instrId = 0) .ifetchNotEmpty s
  let i := { i with eventCycle := s.currentCoreCycle, translated := .completed, fetched := .idle }
  { s with ifetchBuffer := s.ifetchBuffer.push i }

/-- "handle branch prediction" of the instruction just added at `index`. -/
def predictBranch (index : Nat) (prediction : UInt8) (s : O3Cpu) : O3Cpu :=
  let i := s.ifetchBuffer.entryAt index
  if i.isBranch = 0 then s
  else if i.branchTaken ≠ prediction then
    if s.warmupComplete then
      { s with
        fetchStall := true
        instrsToReadThisCycle := 0
        ifetchBuffer := s.ifetchBuffer.modify index fun e => { e with branchMispredicted := true } }
    else s
  else if prediction = 1 then { s with instrsToReadThisCycle := 0 }
  else s

/-- The loop of `read_from_trace`; `none` is one that has not come to an end. An
instruction for which there is no room is gone. -/
def readLoop (predict : Nat → UInt8) : Nat → Nat → O3Cpu → Option O3Cpu
  | 0, _, _ => none
  | fuel + 1, numReads, s =>
      s.file.readInstr.bind fun q =>
        let i := q.1
        let s := { s with file := q.2 }
        let s := (i.destinationMemory.filter (· ≠ 0)).foldl (fun s _ => updateSta i.instrId s) s
        if s.ifetchBuffer.occupancy < s.ifetchBuffer.size then
          let index := s.ifetchBuffer.tail
          let s := predictBranch index (predict i.instrId) (addToIfetchBuffer i s)
          if numReads + 1 ≥ s.instrsToReadThisCycle ∨
              s.ifetchBuffer.occupancy = s.ifetchBuffer.size then some s
          else readLoop predict fuel (numReads + 1) s
        else readLoop predict fuel numReads s

def readFromTrace (predict : Nat → UInt8) (s : O3Cpu) : Option O3Cpu :=
  readLoop predict fetchWidth 0 { s with instrsToReadThisCycle := fetchWidth }

/-! ## Fetch -/

/-- An entry the ITLB is asked for: all that wait for the page. -/
def requestPage (ip : UInt64) (s : O3Cpu) : O3Cpu :=
  { s with
    ifetchBuffer := s.ifetchBuffer.modifyAll
      (fun e => e.ip >>> 12 = ip >>> 12 && e.translated = .idle)
      fun e => { e with translated := .inflight, fetched := .idle } }

/-- An entry the L1I is asked for: all of the cache line. -/
def requestLine (ip : UInt64) (s : O3Cpu) : O3Cpu :=
  { s with
    ifetchBuffer := s.ifetchBuffer.modifyAll (fun e => e.ip >>> 6 = ip >>> 6)
      fun e => { e with translated := .completed, fetched := .inflight } }

def askItlb (itlb : Bool) (index : Nat) (s : O3Cpu) : O3Cpu :=
  let e := s.ifetchBuffer.entryAt index
  if e.translated = .idle ∧ itlb then requestPage e.ip s else s

def askL1i (l1i : Bool) (index : Nat) (s : O3Cpu) : O3Cpu :=
  let e := s.ifetchBuffer.entryAt index
  if e.translated = .completed ∧ e.fetched = .idle ∧ l1i then requestLine e.ip s else s

/-- The scan, with `left` entries still to come. -/
def requestEntries (itlb l1i : Nat → Bool) : Nat → Nat → O3Cpu → O3Cpu
  | 0, _, s => s
  | left + 1, index, s =>
      if (s.ifetchBuffer.entryAt index).ip = 0 then s
      else
        requestEntries itlb l1i left (Ring.advance s.ifetchBuffer.size index)
          (askL1i (l1i index) index (askItlb (itlb index) index s))

/-- `add_to_decode_buffer`, and the event cycle it is given by its caller. -/
def addToDecodeBuffer (i : OooInstr) (s : O3Cpu) : O3Cpu :=
  let s := check ((s.decodeBuffer.entryAt s.decodeBuffer.tail).instrId = 0) .decodeNotEmpty s
  { s with decodeBuffer := s.decodeBuffer.push { i with eventCycle := 0 } }

/-- "send to DECODE stage", as often as there is width left. -/
def sendToDecode : Nat → O3Cpu → O3Cpu
  | 0, s => s
  | left + 1, s =>
      let e := s.ifetchBuffer.entryAt s.ifetchBuffer.head
      if e.ip = 0 then s
      else if e.translated = .completed ∧ e.fetched = .completed then
        if s.decodeBuffer.occupancy < s.decodeBuffer.size then
          let s := addToDecodeBuffer e s
          sendToDecode left { s with ifetchBuffer := s.ifetchBuffer.pop }
        else s
      else sendToDecode left s

/-- "turn fetching back on after the branch mispredict penalty". -/
def endStall (s : O3Cpu) : O3Cpu :=
  if s.fetchStall ∧ s.currentCoreCycle ≥ s.fetchResumeCycle ∧ s.fetchResumeCycle ≠ 0 then
    { s with fetchStall := false, fetchResumeCycle := 0 }
  else s

def fetchInstruction (itlb l1i : Nat → Bool) (s : O3Cpu) : O3Cpu :=
  let s := endStall s
  if s.ifetchBuffer.occupancy = 0 then s
  else sendToDecode decodeWidth
    (requestEntries itlb l1i s.ifetchBuffer.size s.ifetchBuffer.head s)

/-- `complete_instr_fetch`, up to its `return`: the ITLB has translated the
page of `ip`, or the L1I has the line. -/
def completeInstrFetch (isItTlb : Bool) (ip : UInt64) (s : O3Cpu) : O3Cpu :=
  if isItTlb then
    { s with
      ifetchBuffer := s.ifetchBuffer.modifyAll (fun e => e.ip >>> 12 = ip >>> 12)
        fun e => { e with translated := .completed, fetched := .idle } }
  else
    { s with
      ifetchBuffer := s.ifetchBuffer.modifyAll (fun e => e.ip >>> 6 = ip >>> 6)
        fun e => { e with translated := .completed, fetched := .completed } }

/-! ## Decode and dispatch -/

def addToRob (i : OooInstr) (s : O3Cpu) : O3Cpu :=
  let s := check ((s.rob.entryAt s.rob.tail).instrId = 0) .robNotEmpty s
  let s := check (i.ip ≠ 0) .robIpZero s
  { s with rob := s.rob.push { i with eventCycle := s.currentCoreCycle } }

/-- "dispatch DECODE_WIDTH instructions that have decoded into the ROB". -/
def dispatch : Nat → O3Cpu → O3Cpu
  | 0, s => s
  | left + 1, s =>
      let e := s.decodeBuffer.entryAt s.decodeBuffer.head
      if e.ip = 0 then s
      else if s.rob.occupancy < s.rob.size ∧
          (!s.warmupComplete ∨ e.eventCycle ≠ 0 ∧ e.eventCycle < s.currentCoreCycle) then
        let s := addToRob e s
        dispatch left { s with decodeBuffer := s.decodeBuffer.pop }
      else s

/-- "apply decode latency". -/
def payLatency (index : Nat) (s : O3Cpu) : O3Cpu :=
  if (s.decodeBuffer.entryAt index).eventCycle = 0 then
    let latency := s.currentCoreCycle + s.decodeLatency
    { s with
      decodeBuffer := s.decodeBuffer.modify index fun e => { e with eventCycle := latency } }
  else s

/-- "make new instructions pay decode penalty": `left` entries to go, of which
`width` may be given a latency. The entry at the tail is given one, too. -/
def payDecode : Nat → Nat → Nat → O3Cpu → O3Cpu
  | 0, _, _, s => s
  | left + 1, width, index, s =>
      if (s.decodeBuffer.entryAt s.decodeBuffer.head).ip = 0 then s
      else
        let width := if (s.decodeBuffer.entryAt index).eventCycle = 0 then width - 1 else width
        let s := payLatency index s
        if index = s.decodeBuffer.tail then s
        else if width = 0 then s
        else payDecode left width (Ring.advance s.decodeBuffer.size index) s

/-- The first loop stops by its count of dispatches before it stops by its
bound, which is `DECODE_BUFFER.SIZE`. -/
def decodeAndDispatch (s : O3Cpu) : O3Cpu :=
  let s := dispatch decodeWidth s
  payDecode s.decodeBuffer.size decodeWidth s.decodeBuffer.head s

/-! ## Retirement -/

/-- The packet for the store at `SQ.entry[sqIndex]`. -/
def storePacket (s : O3Cpu) (sqIndex : Nat) : StorePacket :=
  let e := s.sq.entryAt sqIndex
  { instrId := e.instrId, dataIndex := e.dataIndex, fullAddr := e.physicalAddress, ip := e.ip }

/-- The stores of an instruction go to the L1D. -/
def writeStores (i : OooInstr) (s : O3Cpu) : O3Cpu :=
  (i.destinationMemory.zip i.sqIndex).foldl
    (fun s d => if d.1 ≠ 0 then note (.written (storePacket s (d.2.getD 0))) s else s) s

/-- "release SQ entries". -/
def releaseStoreQueue (i : OooInstr) (s : O3Cpu) : O3Cpu :=
  i.sqIndex.foldl (fun s sqIndex =>
    match sqIndex with
    | none => s
    | some j =>
        { s with
          sq := { s.sq with
            entry := s.sq.entry.set j {}
            occupancy := dec32 s.sq.occupancy
            head := if s.sq.head + 1 = s.sq.size then 0 else s.sq.head + 1 } }) s

/-- "release ROB entry". -/
def releaseRob (s : O3Cpu) : O3Cpu :=
  { note (.retired (s.rob.entryAt s.rob.head)) s with
    rob := s.rob.pop
    numRetired := s.numRetired + 1 }

/-- `retire_rob`, with `left` instructions of its width to go; `room` tells
whether the write queue of the L1D has room for the stores. -/
def retireFrom (room : Nat → Bool) : Nat → O3Cpu → O3Cpu
  | 0, s => s
  | left + 1, s =>
      let e := s.rob.entryAt s.rob.head
      if e.ip = 0 then s
      else if e.executed ≠ .completed then s
      else if e.destinationMemory.any (· ≠ 0) ∧ !room left then s
      else retireFrom room left (releaseRob (releaseStoreQueue e (writeStores e s)))

def retireRob (room : Nat → Bool) (s : O3Cpu) : O3Cpu := retireFrom room retireWidth s

end O3Cpu

end DramCache
