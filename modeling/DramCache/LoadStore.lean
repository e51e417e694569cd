import DramCache.Scheduling

/-!
# Loads and stores

The load queue, the store queue and what the caches answer. A load waits for
the youngest older store to its address and takes its data from it; a store
enters its queue in the order of the trace, which the array `STA` keeps, and
is written when it retires.
-/

namespace DramCache

/-- What a packet the DTLB or the L1D has processed says. -/
structure DataPacket where
  rfo : Bool
  instrId : Nat
  robIndex : Nat
  lqIndex : Nat
  sqIndex : Nat
  dataPa : UInt64
  eventCycle : Nat
  storeMerged : Bool
  loadMerged : Bool
  sqIndexDependOnMe : List Nat
  lqIndexDependOnMe : List Nat

/-- An address on the page the DTLB has found. -/
def dataAddress (dataPa virtualAddress : UInt64) : UInt64 :=
  dataPa <<< 12 ||| virtualAddress &&& 0xfff

/-- The address of forwarded data: the line of the store. -/
def forwardAddress (store virtualAddress : UInt64) : UInt64 :=
  store &&& ~~~0x3f ||| virtualAddress &&& 0x3f

namespace OooInstr

def sourceAddress (i : OooInstr) (j : Nat) : UInt64 := i.sourceMemory[j]?.getD 0

def destinationAddress (i : OooInstr) (j : Nat) : UInt64 := i.destinationMemory[j]?.getD 0

/-- All that the instruction accesses is in the queues. -/
def markScheduled (i : OooInstr) : OooInstr :=
  { i with
    scheduled := .completed
    executed := if i.executed = .idle then .inflight else i.executed }

/-- The instruction stores to this address. -/
def storesTo (i : OooInstr) (a : UInt64) : Bool :=
  i.destinationMemory.any fun d => d ≠ 0 && d = a

end OooInstr

namespace O3Cpu

/-! ## The load queue -/

def releaseLoadQueue (lqIndex : Nat) (s : O3Cpu) : O3Cpu :=
  { s with
    lq := { s.lq with entry := s.lq.entry.set lqIndex {}, occupancy := dec32 s.lq.occupancy } }

/-- One memory operation of an instruction is done. -/
def finishMemOp (robIndex eventCycle : Nat) (s : O3Cpu) : O3Cpu :=
  let s := modifyRob robIndex (fun e =>
    { e with numMemOps := e.numMemOps - 1, eventCycle := eventCycle }) s
  let s := check (0 ≤ (s.rob.entryAt robIndex).numMemOps) .numMemOps s
  if (s.rob.entryAt robIndex).numMemOps = 0 then
    { s with inflightMemExecutions := s.inflightMemExecutions + 1 }
  else s

/-- `mem_RAW_dependency`. -/
def memRAWDependency (prior current j lqIndex : Nat) (s : O3Cpu) : O3Cpu :=
  let p := s.rob.entryAt prior
  if p.storesTo ((s.rob.entryAt current).sourceAddress j) then
    modifyLq lqIndex (fun e => { e with producerId := some p.instrId, translated := .inflight })
      (modifyRob prior (fun e =>
        { e with
          memoryInstrsDependOnMe := insertIndex current e.memoryInstrsDependOnMe
          isProducer := true }) s)
  else s

/-- The store queue is searched for the store to forward from. -/
def findForwarding (robIndex lqIndex : Nat) : List Nat → O3Cpu → Option Nat × O3Cpu
  | [], s => (none, s)
  | i :: is, s =>
      let st := s.sq.entryAt i
      let ld := s.lq.entryAt lqIndex
      if st.virtualAddress ≠ 0 ∧ st.virtualAddress = ld.virtualAddress then
        if robIndex ≠ s.rob.head ∧ ld.producerId = some st.instrId then (some i, s)
        -- WAR: the load has to read from the memory system
        else if ld.producerId = none ∧ ld.instrId ≤ st.instrId then
          findForwarding robIndex lqIndex is (modifyLq lqIndex (fun e =>
            { e with physicalAddress := 0, translated := .idle, fetched := .idle }) s)
        else findForwarding robIndex lqIndex is s
      else findForwarding robIndex lqIndex is s

/-- "we have a store-to-load forwarding", if the store has been executed. -/
def forwardAtOnce (lqIndex sqIndex : Nat) (s : O3Cpu) : O3Cpu :=
  let st := s.sq.entryAt sqIndex
  if st.fetched = .completed ∧ st.eventCycle ≤ s.currentCoreCycle then
    let s := modifyLq lqIndex (fun e =>
      { e with
        physicalAddress := forwardAddress st.physicalAddress e.virtualAddress
        translated := .completed
        fetched := .completed }) s
    let s := finishMemOp (s.lq.entryAt lqIndex).robIndex s.currentCoreCycle s
    releaseLoadQueue lqIndex s
  else s

/-- The first slot that is empty, or the size. -/
def emptyLoadSlot (s : O3Cpu) : Nat :=
  ((List.range s.lq.size).find? fun i => (s.lq.entryAt i).virtualAddress = 0).getD s.lq.size

/-- "add it to the load queue". -/
def enterLoad (robIndex j lqIndex : Nat) (s : O3Cpu) : O3Cpu :=
  let e := s.rob.entryAt robIndex
  let s := modifyRob robIndex (fun e => { e with lqIndex := e.lqIndex.set j (some lqIndex) }) s
  let event := s.currentCoreCycle + schedulingLatency
  let s := modifyLq lqIndex (fun l =>
    { l with
      instrId := e.instrId, virtualAddress := e.sourceAddress j, ip := e.ip, dataIndex := j
      robIndex := robIndex, eventCycle := event }) s
  { s with lq := { s.lq with occupancy := s.lq.occupancy + 1 } }

/-- "check RAW dependency". -/
def findProducer (robIndex j lqIndex : Nat) (s : O3Cpu) : O3Cpu :=
  (priors s.rob.size s.rob.head robIndex).foldl (fun s prior =>
    if (s.lq.entryAt lqIndex).producerId = none then memRAWDependency prior robIndex j lqIndex s
    else s) s

def forward (robIndex lqIndex : Nat) (s : O3Cpu) : O3Cpu :=
  let q := findForwarding robIndex lqIndex (List.range s.sq.size) s
  q.1.elim q.2 fun sqIndex => forwardAtOnce lqIndex sqIndex q.2

/-- "succesfully added to the load queue"; it may have left that again. -/
def loadAdded (robIndex j lqIndex : Nat) (s : O3Cpu) : O3Cpu :=
  let s := modifyRob robIndex (fun e => { e with sourceAdded := e.sourceAdded.set j true }) s
  let l := s.lq.entryAt lqIndex
  if l.virtualAddress ≠ 0 ∧ l.producerId = none then pushReady .rtl0 lqIndex s else s

def addLoadQueue (robIndex j : Nat) (s : O3Cpu) : O3Cpu :=
  let lqIndex := emptyLoadSlot s
  let s := check (lqIndex ≠ s.lq.size) .noEmptySlot s
  loadAdded robIndex j lqIndex
    (forward robIndex lqIndex (findProducer robIndex j lqIndex (enterLoad robIndex j lqIndex s)))

/-! ## The store queue -/

/-- "add it to the store queue", at its tail. -/
def enterStore (robIndex j : Nat) (s : O3Cpu) : O3Cpu :=
  let sqIndex := s.sq.tail
  let e := s.rob.entryAt robIndex
  let s := modifyRob robIndex (fun e =>
    { e with
      sqIndex := e.sqIndex.set j (some sqIndex)
      destinationAdded := e.destinationAdded.set j true }) s
  let event := s.currentCoreCycle + schedulingLatency
  let s := modifySq sqIndex (fun q =>
    { q with
      instrId := e.instrId, virtualAddress := e.destinationAddress j, ip := e.ip, dataIndex := j
      robIndex := robIndex, eventCycle := event }) s
  { s with sq := { s.sq with
    occupancy := s.sq.occupancy + 1
    tail := if s.sq.tail + 1 = s.sq.size then 0 else s.sq.tail + 1 } }

/-- The store at the head of `STA` is in the queue. -/
def releaseSta (s : O3Cpu) : O3Cpu :=
  { s with
    sta := s.sta.set s.staHead none
    staHead := if s.staHead + 1 = staSize then 0 else s.staHead + 1 }

def addStoreQueue (robIndex j : Nat) (s : O3Cpu) : O3Cpu :=
  let sqIndex := s.sq.tail
  let s := check ((s.sq.entryAt sqIndex).virtualAddress = 0) .storeQueue s
  pushReady .rts0 sqIndex (releaseSta (enterStore robIndex j s))

/-! ## Scheduling of memory instructions -/

/-- The source `j`: how many operations are not in a queue, and the core. -/
def addLoad (robIndex : Nat) (q : Nat × O3Cpu) (j : Nat) : Nat × O3Cpu :=
  let e := q.2.rob.entryAt robIndex
  if e.sourceAddress j = 0 ∨ e.sourceAdded[j]?.getD false then q
  else if q.2.lq.occupancy < q.2.lq.size then (q.1, addLoadQueue robIndex j q.2)
  else (q.1 + 1, q.2)

/-- The destination `j`; a store is added only when it is the next of all. -/
def addStore (robIndex : Nat) (q : Nat × O3Cpu) (j : Nat) : Nat × O3Cpu :=
  let e := q.2.rob.entryAt robIndex
  if e.destinationAddress j = 0 ∨ e.destinationAdded[j]?.getD false then q
  else if q.2.sq.occupancy < q.2.sq.size ∧ (q.2.sta[q.2.staHead]?.getD none) = some e.instrId then
    (q.1, addStoreQueue robIndex j q.2)
  else (q.1 + 1, q.2)

/-- `check_and_add_lsq`. What has been added is never more than there is, so
that the assertion on the difference cannot fail. -/
def checkAndAddLsq (robIndex : Nat) (s : O3Cpu) : Nat × O3Cpu :=
  (List.range numInstrDestinations).foldl (addStore robIndex)
    ((List.range numInstrSources).foldl (addLoad robIndex) (0, s))

def doMemoryScheduling (robIndex : Nat) (s : O3Cpu) : O3Cpu :=
  let q := checkAndAddLsq robIndex s
  let s := q.2
  let s :=
    if q.1 = 0 then
      let s := note (.started (s.rob.entryAt robIndex).instrId) s
      modifyRob robIndex OooInstr.markScheduled s
    else s
  { s with numSearched := s.numSearched + 1 }

/-- One of the two loops of `schedule_memory_instruction`. -/
def scheduleMemoryFrom : List Nat → O3Cpu → O3Cpu
  | [], s => s
  | i :: is, s =>
      let e := s.rob.entryAt i
      if !e.isMemory then scheduleMemoryFrom is s
      else if e.fetched ≠ .completed ∨ e.eventCycle > s.currentCoreCycle ∨
          s.numSearched ≥ schedulerSize then s
      else if e.regReady ∧ e.scheduled = .inflight then
        scheduleMemoryFrom is (doMemoryScheduling i s)
      else scheduleMemoryFrom is s

def scheduleMemoryInstruction (s : O3Cpu) : O3Cpu :=
  if s.rob.isEmpty then s
  else
    let head := s.rob.head
    let limit := s.rob.nextSchedule
    let s := { s with numSearched := 0 }
    if head < limit then scheduleMemoryFrom (List.range' head (limit - head)) s
    else
      scheduleMemoryFrom (List.range limit)
        (scheduleMemoryFrom (List.range' head (s.rob.size - head)) s)

/-! ## Execution of loads and stores -/

/-- A load that waits for the store at `sqIndex` is forwarded to. -/
def forwardTo (sqIndex lqIndex : Nat) (s : O3Cpu) : O3Cpu :=
  let st := s.sq.entryAt sqIndex
  let s := check (lqIndex < s.lq.size &&
    (s.lq.entryAt lqIndex).producerId = some st.instrId) .producerId s
  let s := modifyLq lqIndex (fun e =>
    { e with
      physicalAddress := forwardAddress st.physicalAddress e.virtualAddress
      translated := .completed
      fetched := .completed
      eventCycle := s.currentCoreCycle }) s
  let s := finishMemOp (s.lq.entryAt lqIndex).robIndex s.currentCoreCycle s
  releaseLoadQueue lqIndex s

/-- The source `j` of an instruction that depends on the store. The set it is
in is inserted into once more. -/
def resolveSource (robIndex sqIndex dependent : Nat) (s : O3Cpu) (j : Nat) : O3Cpu :=
  let e := s.rob.entryAt dependent
  if e.sourceAddress j ≠ 0 ∧ e.sourceAdded[j]?.getD false ∧
      e.sourceAddress j = (s.sq.entryAt sqIndex).virtualAddress then
    let s := forwardTo sqIndex ((e.lqIndex[j]?.getD none).getD lqSize) s
    if j = numInstrSources - 1 then
      modifyRob robIndex (fun e =>
        { e with memoryInstrsDependOnMe := insertIndex dependent e.memoryInstrsDependOnMe }) s
    else s
  else s

def executeStore (robIndex sqIndex : Nat) (s : O3Cpu) : O3Cpu :=
  let s := modifySq sqIndex (fun e =>
    { e with fetched := .completed, eventCycle := s.currentCoreCycle }) s
  let s := finishMemOp robIndex s.currentCoreCycle s
  let e := s.rob.entryAt robIndex
  if e.isProducer then
    e.memoryInstrsDependOnMe.foldl (fun s dependent =>
      (List.range numInstrSources).foldl (resolveSource robIndex sqIndex dependent) s) s
  else s

/-- A store whose page the DTLB is asked for. -/
def translateStoreStep (accept : Nat → Bool) (fuel sqIndex : Nat) (s : O3Cpu) : Outcome :=
  if (s.sq.entryAt sqIndex).eventCycle ≤ s.currentCoreCycle then
    if accept fuel then .issued (modifySq sqIndex (fun e => { e with translated := .inflight }) s)
    else .stop s
  else .wait s

def executeStoreStep (_ sqIndex : Nat) (s : O3Cpu) : Outcome :=
  let e := s.sq.entryAt sqIndex
  if e.eventCycle ≤ s.currentCoreCycle then .issued (executeStore e.robIndex sqIndex s) else .wait s

/-- A load whose page the DTLB is asked for. -/
def translateLoadStep (accept : Nat → Bool) (fuel lqIndex : Nat) (s : O3Cpu) : Outcome :=
  if (s.lq.entryAt lqIndex).eventCycle ≤ s.currentCoreCycle then
    if accept fuel then .issued (modifyLq lqIndex (fun e => { e with translated := .inflight }) s)
    else .stop s
  else .wait s

/-- `execute_load`, which the L1D may refuse. -/
def executeLoadStep (accept : Nat → Bool) (fuel lqIndex : Nat) (s : O3Cpu) : Outcome :=
  if (s.lq.entryAt lqIndex).eventCycle ≤ s.currentCoreCycle then
    if accept fuel then .issued (modifyLq lqIndex (fun e => { e with fetched := .inflight }) s)
    else .wait s
  else .wait s

/-- `operate_lsq`; the arguments tell which requests are taken. -/
def operateLsq (stores loads data : Nat → Bool) (s : O3Cpu) : O3Cpu :=
  let q := drain sqWidth .rts0 (translateStoreStep stores) (sqSize - 1) 0 s
  let q := drain sqWidth .rts1 executeStoreStep (sqSize - 1) q.1 q.2
  let q := drain lqWidth .rtl0 (translateLoadStep loads) (lqSize - 1) 0 q.2
  (drain lqWidth .rtl1 (executeLoadStep data) (lqSize - 1) q.1 q.2).2

/-! ## What comes back -/

/-- The translation of a store is known. -/
def storeTranslated (dataPa : UInt64) (s : O3Cpu) (sqIndex : Nat) : O3Cpu :=
  pushReady .rts1 sqIndex (modifySq sqIndex (fun e =>
    { e with
      physicalAddress := dataAddress dataPa e.virtualAddress
      translated := .completed
      eventCycle := s.currentCoreCycle }) s)

/-- The translation of a load is known. -/
def loadTranslated (dataPa : UInt64) (s : O3Cpu) (lqIndex : Nat) : O3Cpu :=
  pushReady .rtl1 lqIndex (modifyLq lqIndex (fun e =>
    { e with
      physicalAddress := dataAddress dataPa e.virtualAddress
      translated := .completed
      eventCycle := s.currentCoreCycle }) s)

def handleMergedTranslation (pkt : DataPacket) (s : O3Cpu) : O3Cpu :=
  let s :=
    if pkt.storeMerged then pkt.sqIndexDependOnMe.foldl (storeTranslated pkt.dataPa) s else s
  if pkt.loadMerged then pkt.lqIndexDependOnMe.foldl (loadTranslated pkt.dataPa) s else s

/-- The data of a load is there. -/
def loadFetched (s : O3Cpu) (lqIndex robIndex eventCycle : Nat) : O3Cpu :=
  let s := modifyLq lqIndex (fun e =>
    { e with fetched := .completed, eventCycle := s.currentCoreCycle }) s
  releaseLoadQueue lqIndex (finishMemOp robIndex eventCycle s)

def handleMergedLoad (pkt : DataPacket) (s : O3Cpu) : O3Cpu :=
  pkt.lqIndexDependOnMe.foldl (fun s lqIndex =>
    loadFetched s lqIndex (s.lq.entryAt lqIndex).robIndex s.currentCoreCycle) s

/-- `check_rob`: the entry of an instruction; `none` is its failing assertion. -/
def checkRob (instrId : Nat) (s : O3Cpu) : Option Nat :=
  if s.rob.isEmpty then some s.rob.size
  else (Ring.scan s.rob.size s.rob.head s.rob.tail).find? fun i =>
    (s.rob.entryAt i).instrId = instrId

/-- `complete_data_fetch`, of the DTLB or the L1D. -/
def completeDataFetch (isItTlb : Bool) (pkt : DataPacket) (s : O3Cpu) : O3Cpu :=
  let s := check (pkt.rfo || checkRob pkt.instrId s = some pkt.robIndex) .checkRob s
  if isItTlb then
    let s :=
      if pkt.rfo then storeTranslated pkt.dataPa s pkt.sqIndex
      else loadTranslated pkt.dataPa s pkt.lqIndex
    let s := handleMergedTranslation pkt s
    modifyRob pkt.robIndex (fun e => { e with eventCycle := pkt.eventCycle }) s
  else if pkt.rfo then handleMergedLoad pkt s
  else
    let s := check (!pkt.storeMerged) .storeMerged s
    handleMergedLoad pkt (loadFetched s pkt.lqIndex pkt.robIndex pkt.eventCycle)

end O3Cpu

end DramCache
