import Mathlib.Data.List.AList
import Mathlib.Data.Multiset.AddSub
import DramCache.Controller

/-!
# The DRAM cache manager's own state

The data of `DRAM_CACHE_MANAGER` (`inc/dram_cache_manager.h`) and those of
its functions that neither call a memory controller nor are called back by
one. What reaches the controllers is in `DramCache.Cascade`.

`log` and `sends` are ghosts: the code paths that matter to a history
append to them, and no function reads them.
-/

namespace DramCache

def dcmOrbMaxSize : Nat := 128

def dcmCrbMaxSize : Nat := 32

def dcmWbPressureThreshold : Nat := dcmOrbMaxSize / 2

/-- `DCM_DRAM_CACHE_SIZE / DCM_BLOCK_SIZE`. -/
def dcmNumLines : Nat := 128 * 1024 * 1024 / 64

inductive Policy where
  | baselineCascadeLake
  | bearWrOpt
  | oracle
deriving Repr, DecidableEq

inductive ReqState where
  | start
  | locMemRead
  | waitingLocMemReadResp
  | locMemWrite
  | waitingLocMemWriteResp
  | farMemRead
  | waitingFarMemReadResp
  | farMemWrite
  | waitingFarMemWriteResp
  | done
deriving Repr, DecidableEq

structure TagEntry where
  tagDC : Nat := 0
  indexDC : Nat := 0
  validLine : Bool := false
  dirtyLine : Bool := false
  farMemAddr : Nat := 0
deriving Repr, DecidableEq

structure OrbEntry where
  requestId : Nat
  validEntry : Bool
  arrivalCycle : Nat
  tagDC : Nat
  indexDC : Nat
  pkt : Packet
  isWriteReq : Bool
  pol : Policy
  state : ReqState
  issued : Bool := false
  isHit : Bool := false
  conflict : Bool := false
  victimWasValid : Bool := false
  victimWasDirty : Bool := false
  victimFarAddr : Nat := 0
  handleDirtyLine : Bool := false
  dirtyLineAddr : Nat := 0
deriving Repr, DecidableEq

structure CrbEntry where
  arrivalCycle : Nat
  pkt : Packet
  isWriteReq : Bool
deriving Repr, DecidableEq

structure WbEntry where
  arrivalCycle : Nat
  pkt : Packet
deriving Repr, DecidableEq

structure PendingFarDispatch where
  targetCycle : Nat
  pkt : Packet
  isWrite : Bool
deriving Repr, DecidableEq

structure PendingNearDispatch where
  pkt : Packet
  isWrite : Bool
deriving Repr, DecidableEq

structure PendingResponse where
  targetCycle : Nat
  pkt : Packet
deriving Repr, DecidableEq

/-- `DCM_STATS`. The counters are unbounded here. -/
structure Stats where
  totalRequests : Nat := 0
  readRequests : Nat := 0
  writeRequests : Nat := 0
  sentToNear : Nat := 0
  sentToFar : Nat := 0
  completedFromNear : Nat := 0
  completedFromFar : Nat := 0
  completedReadsToLLC : Nat := 0
  completedWrites : Nat := 0
  orbFullRejects : Nat := 0
  wqFullSignals : Nat := 0
  crbInserts : Nat := 0
  crbPromotions : Nat := 0
  crbFullRejects : Nat := 0
  localReads : Nat := 0
  localWrites : Nat := 0
  farReads : Nat := 0
  farWrites : Nat := 0
  numTotHits : Nat := 0
  numTotMisses : Nat := 0
  numColdMisses : Nat := 0
  numHotMisses : Nat := 0
  numRdHit : Nat := 0
  numWrHit : Nat := 0
  numRdMissClean : Nat := 0
  numRdMissDirty : Nat := 0
  numWrMissClean : Nat := 0
  numWrMissDirty : Nat := 0
  numWrBacks : Nat := 0
  wbInsertions : Nat := 0
  wbDrains : Nat := 0
  wbFullRejects : Nat := 0
  wbDispatchRetries : Nat := 0
  nearDispatchRetries : Nat := 0
  farDispatchRetries : Nat := 0
  dispatchMergeRetries : Nat := 0
  warmupTagUpdates : Nat := 0
  cacheFills : Nat := 0
  orbMaxOccupancy : Nat := 0
  crbMaxOccupancy : Nat := 0
  wbMaxOccupancy : Nat := 0
  orbOccupancySum : Nat := 0
  crbOccupancySum : Nat := 0
  wbOccupancySum : Nat := 0
  occupancySamples : Nat := 0
  writeHitOptOpportunities : Nat := 0
  writeHitOptApplied : Nat := 0
  writeHitOptNotApplicable : Nat := 0
  cleanMissOptOpportunities : Nat := 0
  cleanMissOptApplied : Nat := 0
  cleanMissOptNotApplicable : Nat := 0
  oracleWriteHits : Nat := 0
  oracleCleanMisses : Nat := 0
  localTagCheckReadsAvoided : Nat := 0
  bypassReads : Nat := 0
  bypassWrites : Nat := 0
  bypassCompletedReads : Nat := 0
deriving Repr, DecidableEq

/-! ## The ghost history -/

inductive Side where
  | near
  | far
deriving Repr, DecidableEq

/-- `upper_level_icache` or `upper_level_dcache`. -/
inductive Port where
  | icache
  | dcache
deriving Repr, DecidableEq

/-- Which code path called the upper level's `return_data`. -/
inductive Upcall where
  | response
  | bypass
  | warmup
deriving Repr, DecidableEq

inductive Event where
  /-- `add_rq` or `add_wq` returned -1 for a DRAM-cache request. -/
  | accepted (isWrite : Bool) (pkt : Packet)
  /-- `warmupTagUpdate`. -/
  | warmed (isWrite : Bool) (pkt : Packet)
  /-- `admitRequest`, with the entry as classified. -/
  | admitted (e : OrbEntry)
  /-- A packet handed to `dispatchToNear`, for which request and index. -/
  | handNear (requestId indexDC : Nat) (pkt : Packet) (isWrite : Bool)
  /-- A packet handed over for farMC: a fetch names its request. -/
  | handFar (requestId : Option Nat) (pkt : Packet) (isWrite : Bool)
  /-- `return_data`, called by a controller, found this entry. -/
  | answered (side : Side) (e : OrbEntry)
  /-- `return_data` found no entry. -/
  | untracked (side : Side) (address : Nat)
  /-- `pushDirtyWriteBack`. -/
  | wbQueued (requestId address : Nat)
  /-- `completeRequest`, with the entry it erased. -/
  | retired (e : OrbEntry) (cycle : Nat)
  /-- The upper level's `return_data` was called. -/
  | upcall (why : Upcall) (port : Port) (pkt : Packet) (cycle : Nat)
deriving Repr, DecidableEq

/-- `trySend` called a controller's `add_rq` or `add_wq`. -/
structure Send where
  side : Side
  pkt : Packet
  isWrite : Bool
  outcome : AddOutcome
deriving Repr, DecidableEq

/-- `DRAM_CACHE_MANAGER`. `ORB` is a map from line addresses. -/
@[ext] structure Manager where
  policy : Policy
  linkLatencyCycles : Nat
  frontendLatencyCycles : Nat
  backendLatencyCycles : Nat
  bypassDcache : Bool := false
  nextRequestId : Nat := 1
  tagMetadataStore : Nat → TagEntry := fun _ => {}
  orb : AList fun _ : Nat => OrbEntry := ∅
  crb : List CrbEntry := []
  wb : List WbEntry := []
  pendingFarDispatches : List PendingFarDispatch := []
  pendingNearDispatches : List PendingNearDispatch := []
  pendingResponses : List PendingResponse := []
  bypassOutstandingReads : Multiset Nat := 0
  stats : Stats := {}
  log : List Event := []
  sends : List Send := []

/-- `returnIndexDC`. -/
def returnIndexDC (address : Nat) : Nat := address % dcmNumLines

/-- `returnTagDC`. -/
def returnTagDC (address : Nat) : Nat := address / dcmNumLines

namespace Manager

def emit (m : Manager) (ev : Event) : Manager := { m with log := m.log ++ [ev] }

def noteSend (m : Manager) (x : Send) : Manager := { m with sends := m.sends ++ [x] }

def count (m : Manager) (f : Stats → Stats) : Manager := { m with stats := f m.stats }

/-- The entries of the ORB, in no particular order. -/
def entries (m : Manager) : List OrbEntry := m.orb.entries.map fun x => x.2

/-- `ORB.size()`. -/
def orbSize (m : Manager) : Nat := m.orb.entries.length

/-- `packet->instruction` and `packet->is_data` select the ports whose
`return_data` is called, icache first. -/
def upcalls (why : Upcall) (pkt : Packet) (now : Nat) : List Event :=
  (if pkt.instruction then [.upcall why .icache pkt now] else [])
    ++ (if pkt.isData then [.upcall why .dcache pkt now] else [])

theorem mem_upcalls {why : Upcall} {pkt : Packet} {now : Nat} {ev : Event}
    (h : ev ∈ upcalls why pkt now) : ∃ port, ev = .upcall why port pkt now := by
  simp only [upcalls, List.mem_append] at h
  rcases h with h | h <;> split at h
  · exact ⟨.icache, List.mem_singleton.mp h⟩
  · cases h
  · exact ⟨.dcache, List.mem_singleton.mp h⟩
  · cases h

def callUpper (m : Manager) (why : Upcall) (pkt : Packet) (now : Nat) : Manager :=
  { m with log := m.log ++ upcalls why pkt now }

/-- `resetROIStats`. -/
def resetROIStats (m : Manager) : Manager :=
  { m with stats := { warmupTagUpdates := m.stats.warmupTagUpdates } }

/-- `warmupTagUpdate`. -/
def warmupTagUpdate (m : Manager) (pkt : Packet) (isWrite : Bool) : Manager :=
  let indexDC := returnIndexDC pkt.address
  let tagDC := returnTagDC pkt.address
  let slot := m.tagMetadataStore indexDC
  let isHit := slot.validLine && decide (slot.tagDC = tagDC)
  let slot' : TagEntry :=
    { tagDC := tagDC
      indexDC := indexDC
      validLine := true
      dirtyLine := if !isWrite then (if isHit then slot.dirtyLine else false) else true
      farMemAddr := pkt.address }
  ({ m with tagMetadataStore := Function.update m.tagMetadataStore indexDC slot' }.count
    fun st => { st with warmupTagUpdates := st.warmupTagUpdates + 1 }).emit
      (.warmed isWrite pkt)

/-- `checkConflictInORB`. -/
def checkConflictInORB (m : Manager) (indexDC : Nat) : Bool :=
  m.entries.any fun e => e.validEntry && decide (e.indexDC = indexDC)

/-! ## Classification -/

/-- The hit, miss and victim counters of `classifyAndInstall`. -/
def countClass (oldValid oldDirty isHit isWriteReq : Bool) (st : Stats) : Stats :=
  if isHit then
    let st := { st with numTotHits := st.numTotHits + 1 }
    if isWriteReq then { st with numWrHit := st.numWrHit + 1 }
    else { st with numRdHit := st.numRdHit + 1 }
  else
    let st :=
      { st with numTotMisses := st.numTotMisses + 1, cacheFills := st.cacheFills + 1 }
    let st :=
      if oldValid then { st with numHotMisses := st.numHotMisses + 1 }
      else { st with numColdMisses := st.numColdMisses + 1 }
    if isWriteReq then
      if oldValid && oldDirty then { st with numWrMissDirty := st.numWrMissDirty + 1 }
      else { st with numWrMissClean := st.numWrMissClean + 1 }
    else
      if oldValid && oldDirty then { st with numRdMissDirty := st.numRdMissDirty + 1 }
      else { st with numRdMissClean := st.numRdMissClean + 1 }

/-- What `classifyAndInstall` writes to the entry, given the old slot: a
miss over a valid dirty line records the victim to write back. -/
def classify (slot : TagEntry) (e : OrbEntry) : OrbEntry :=
  let isHit := slot.validLine && decide (e.tagDC = slot.tagDC)
  let evicts := slot.validLine && slot.dirtyLine && !isHit
  { e with
    victimWasValid := slot.validLine
    victimWasDirty := slot.dirtyLine
    victimFarAddr := slot.farMemAddr
    isHit := isHit
    dirtyLineAddr := if evicts then slot.farMemAddr else e.dirtyLineAddr
    handleDirtyLine := if evicts then true else e.handleDirtyLine }

/-- What `classifyAndInstall` writes to the slot, for a classified entry. -/
def install (slot : TagEntry) (e : OrbEntry) : TagEntry :=
  { tagDC := e.tagDC
    indexDC := e.indexDC
    validLine := true
    dirtyLine := if !e.isWriteReq then (if e.isHit then slot.dirtyLine else false) else true
    farMemAddr := e.pkt.address }

/-- `classifyAndInstall`. -/
def classifyAndInstall (m : Manager) (e : OrbEntry) : OrbEntry × Manager :=
  let slot := m.tagMetadataStore e.indexDC
  let e := classify slot e
  (e, { m with
        tagMetadataStore := Function.update m.tagMetadataStore e.indexDC (install slot e)
        stats := countClass slot.validLine slot.dirtyLine e.isHit e.isWriteReq m.stats })

/-- `isCleanMiss` of `chooseInitialState`: not a hit, and the victim is not
a valid dirty line. -/
def isCleanMiss (e : OrbEntry) : Bool :=
  !e.isHit && !(!e.isHit && e.victimWasValid && e.victimWasDirty)

def isWriteHit (e : OrbEntry) : Bool := e.isWriteReq && e.isHit

/-- The opportunity counters at the top of `chooseInitialState`. -/
def countOpportunity (e : OrbEntry) (st : Stats) : Stats :=
  let st :=
    if isWriteHit e then
      let st := { st with writeHitOptOpportunities := st.writeHitOptOpportunities + 1 }
      if e.pol ≠ .bearWrOpt ∧ e.pol ≠ .oracle then
        { st with writeHitOptNotApplicable := st.writeHitOptNotApplicable + 1 }
      else st
    else st
  if isCleanMiss e then
    let st := { st with cleanMissOptOpportunities := st.cleanMissOptOpportunities + 1 }
    if e.pol ≠ .oracle then
      { st with cleanMissOptNotApplicable := st.cleanMissOptNotApplicable + 1 }
    else st
  else st

/-- The branches of `chooseInitialState`: the state chosen and what is
counted for it. -/
def initialChoice (e : OrbEntry) : ReqState × (Stats → Stats) :=
  if e.pol = .bearWrOpt ∧ isWriteHit e then
    (.locMemWrite, fun st =>
      { st with
        writeHitOptApplied := st.writeHitOptApplied + 1
        localTagCheckReadsAvoided := st.localTagCheckReadsAvoided + 1 })
  else if e.pol = .oracle ∧ isWriteHit e then
    (.locMemWrite, fun st =>
      { st with
        oracleWriteHits := st.oracleWriteHits + 1
        writeHitOptApplied := st.writeHitOptApplied + 1
        localTagCheckReadsAvoided := st.localTagCheckReadsAvoided + 1 })
  else if e.pol = .oracle ∧ isCleanMiss e then
    (if e.isWriteReq then .locMemWrite else .farMemRead, fun st =>
      { st with
        oracleCleanMisses := st.oracleCleanMisses + 1
        cleanMissOptApplied := st.cleanMissOptApplied + 1
        localTagCheckReadsAvoided := st.localTagCheckReadsAvoided + 1 })
  else (.locMemRead, id)

/-- `chooseInitialState`. -/
def chooseInitialState (m : Manager) (e : OrbEntry) : OrbEntry × Manager :=
  ({ e with state := (initialChoice e).1 },
    (m.count (countOpportunity e)).count (initialChoice e).2)

/-- The fields `admitRequest` gives a new ORB entry; `arrival` is the
default argument's -1 when it is `none`. -/
def newEntry (m : Manager) (pkt : Packet) (isWrite : Bool) (arrival : Option Nat)
    (now : Nat) : OrbEntry :=
  { requestId := m.nextRequestId
    validEntry := true
    arrivalCycle := arrival.getD now
    tagDC := returnTagDC pkt.address
    indexDC := returnIndexDC pkt.address
    pkt := pkt
    isWriteReq := isWrite
    pol := m.policy
    state := .start }

/-- The request counters of `admitRequest`. -/
def countRequest (isWrite : Bool) (st : Stats) : Stats :=
  let st := { st with totalRequests := st.totalRequests + 1 }
  if isWrite then { st with writeRequests := st.writeRequests + 1 }
  else { st with readRequests := st.readRequests + 1 }

/-- `admitRequest` up to its call of `driveState`: a new ORB entry,
classified, with its first state chosen. -/
def admitEntry (m : Manager) (pkt : Packet) (isWrite : Bool) (arrival : Option Nat) (now : Nat) :
    Manager :=
  let e := m.newEntry pkt isWrite arrival now
  let m := { m with nextRequestId := m.nextRequestId + 1 }.count (countRequest isWrite)
  let r := m.classifyAndInstall e
  let r := r.2.chooseInitialState r.1
  { r.2 with orb := r.2.orb.insert pkt.address r.1 }.emit (.admitted r.1)

section Admit

variable (m : Manager) (pkt : Packet) (w : Bool) (arr : Option Nat) (now : Nat)

/-- The entry `admitEntry` puts into the ORB. -/
def admittedEntry : OrbEntry :=
  let e := classify (m.tagMetadataStore (returnIndexDC pkt.address)) (m.newEntry pkt w arr now)
  { e with state := (initialChoice e).1 }

/-- The counters after `admitEntry`. -/
def admitStats : Stats :=
  let slot := m.tagMetadataStore (returnIndexDC pkt.address)
  let e := classify slot (m.newEntry pkt w arr now)
  (initialChoice e).2 (countOpportunity e
    (countClass slot.validLine slot.dirtyLine e.isHit e.isWriteReq (countRequest w m.stats)))

@[simp] theorem admitEntry_stats :
    (m.admitEntry pkt w arr now).stats = m.admitStats pkt w arr now := by
  simp only [admitEntry, emit, chooseInitialState, classifyAndInstall, count, admitStats]
  rfl

@[simp] theorem admitEntry_orb : (m.admitEntry pkt w arr now).orb
    = m.orb.insert pkt.address (m.admittedEntry pkt w arr now) := rfl

@[simp] theorem admitEntry_log : (m.admitEntry pkt w arr now).log
    = m.log ++ [.admitted (m.admittedEntry pkt w arr now)] := rfl

@[simp] theorem admitEntry_nextRequestId :
    (m.admitEntry pkt w arr now).nextRequestId = m.nextRequestId + 1 := rfl

@[simp] theorem admitEntry_crb : (m.admitEntry pkt w arr now).crb = m.crb := rfl

@[simp] theorem admitEntry_wb : (m.admitEntry pkt w arr now).wb = m.wb := rfl

@[simp] theorem admitEntry_linkLatencyCycles :
    (m.admitEntry pkt w arr now).linkLatencyCycles = m.linkLatencyCycles := rfl

@[simp] theorem admitEntry_frontendLatencyCycles :
    (m.admitEntry pkt w arr now).frontendLatencyCycles = m.frontendLatencyCycles := rfl

@[simp] theorem admitEntry_backendLatencyCycles :
    (m.admitEntry pkt w arr now).backendLatencyCycles = m.backendLatencyCycles := rfl

@[simp] theorem admitEntry_bypassDcache :
    (m.admitEntry pkt w arr now).bypassDcache = m.bypassDcache := rfl

@[simp] theorem admitEntry_bypassOutstandingReads :
    (m.admitEntry pkt w arr now).bypassOutstandingReads = m.bypassOutstandingReads := rfl

@[simp] theorem admitEntry_pendingResponses :
    (m.admitEntry pkt w arr now).pendingResponses = m.pendingResponses := rfl

@[simp] theorem admitEntry_tagMetadataStore : (m.admitEntry pkt w arr now).tagMetadataStore
    = Function.update m.tagMetadataStore (returnIndexDC pkt.address)
      (install (m.tagMetadataStore (returnIndexDC pkt.address))
        (m.admittedEntry pkt w arr now)) := rfl

@[simp] theorem admittedEntry_pkt : (m.admittedEntry pkt w arr now).pkt = pkt := rfl

@[simp] theorem admittedEntry_isWriteReq :
    (m.admittedEntry pkt w arr now).isWriteReq = w := rfl

@[simp] theorem admittedEntry_requestId :
    (m.admittedEntry pkt w arr now).requestId = m.nextRequestId := rfl

end Admit

/-- `add_rq` and `add_wq` for a request whose index is taken. -/
def waitInCRB (m : Manager) (pkt : Packet) (isWrite : Bool) (now : Nat) : Manager :=
  let c : CrbEntry := { arrivalCycle := now, pkt := pkt, isWriteReq := isWrite }
  ({ m.count fun st => { st with crbInserts := st.crbInserts + 1 } with
    crb := m.crb ++ [c] }).emit (.accepted isWrite pkt)

/-! ## Write-backs and responses -/

/-- The write-back packet of an entry's recorded victim. -/
def victimWrite (e : OrbEntry) (now : Nat) : Packet :=
  { type := .writeback, address := e.dirtyLineAddr, fullAddr := e.dirtyLineAddr,
    cpu := e.pkt.cpu, instruction := false, isData := true, eventCycle := now }

/-- `pushDirtyWriteBack`. -/
def pushDirtyWriteBack (m : Manager) (e : OrbEntry) (now : Nat) : Manager :=
  let w : WbEntry := { arrivalCycle := now, pkt := victimWrite e now }
  let m := { m with wb := m.wb ++ [w] }
  (m.count fun st =>
    { st with
      wbInsertions := st.wbInsertions + 1
      wbMaxOccupancy := if m.wb.length > st.wbMaxOccupancy then m.wb.length
        else st.wbMaxOccupancy }).emit (.wbQueued e.requestId e.dirtyLineAddr)

/-- `scheduleResponse`. -/
def scheduleResponse (m : Manager) (pkt : Packet) (delayCycles now : Nat) : Manager :=
  if delayCycles = 0 then m.callUpper .response pkt now
  else
    let r : PendingResponse := { targetCycle := now + delayCycles, pkt := pkt }
    { m with pendingResponses := m.pendingResponses ++ [r] }

/-- The loop of `processPendingResponses` over what is still pending. -/
def releaseResponses (clk : Clock) : List PendingResponse → Manager → Manager
  | [], m => { m with pendingResponses := [] }
  | r :: rest, m =>
      if r.targetCycle ≤ clk.cycle r.pkt.cpu then
        releaseResponses clk rest (m.callUpper .response r.pkt (clk.cycle r.pkt.cpu))
      else { m with pendingResponses := r :: rest }

/-- `processPendingResponses`. -/
def processPendingResponses (m : Manager) (clk : Clock) : Manager :=
  releaseResponses clk m.pendingResponses m

/-- `completeRequest` up to its call of `promoteFromCRB`. -/
def retire (m : Manager) (e : OrbEntry) (responseLatencyCycles now : Nat) : Manager :=
  let m := m.emit (.retired e now)
  let m :=
    if !e.isWriteReq then
      (m.count fun st => { st with completedReadsToLLC := st.completedReadsToLLC + 1 })
        |>.scheduleResponse e.pkt responseLatencyCycles now
    else m.count fun st => { st with completedWrites := st.completedWrites + 1 }
  { m with orb := m.orb.erase e.pkt.address }

/-- The call of the upper level `retire` makes at once. -/
def respondNow (e : OrbEntry) (lat now : Nat) : List Event :=
  if e.isWriteReq = false ∧ lat = 0 then upcalls .response e.pkt now else []

theorem mem_respondNow {e : OrbEntry} {lat now : Nat} {ev : Event}
    (h : ev ∈ respondNow e lat now) : ∃ port, ev = .upcall .response port e.pkt now := by
  unfold respondNow at h
  split at h
  · exact mem_upcalls h
  · cases h

/-- The response `retire` holds for the controller latency. -/
def respondLater (e : OrbEntry) (lat now : Nat) : List PendingResponse :=
  if e.isWriteReq = false ∧ lat ≠ 0 then [{ targetCycle := now + lat, pkt := e.pkt }] else []

/-- The completion counters of `retire`. -/
def countRetired (e : OrbEntry) (st : Stats) : Stats :=
  if e.isWriteReq then { st with completedWrites := st.completedWrites + 1 }
  else { st with completedReadsToLLC := st.completedReadsToLLC + 1 }

theorem retire_eq (m : Manager) (e : OrbEntry) (lat now : Nat) :
    m.retire e lat now =
      { m with
        orb := m.orb.erase e.pkt.address
        pendingResponses := m.pendingResponses ++ respondLater e lat now
        stats := countRetired e m.stats
        log := m.log ++ .retired e now :: respondNow e lat now } := by
  unfold retire scheduleResponse respondLater respondNow countRetired
  cases hw : e.isWriteReq <;> by_cases hlat : lat = 0 <;>
    simp [hlat, emit, count, callUpper]

section Retire

variable (m : Manager) (e : OrbEntry) (lat now : Nat)

@[simp] theorem retire_orb : (m.retire e lat now).orb = m.orb.erase e.pkt.address := by
  rw [retire_eq]

@[simp] theorem retire_crb : (m.retire e lat now).crb = m.crb := by rw [retire_eq]

@[simp] theorem retire_wb : (m.retire e lat now).wb = m.wb := by rw [retire_eq]

@[simp] theorem retire_nextRequestId :
    (m.retire e lat now).nextRequestId = m.nextRequestId := by rw [retire_eq]

@[simp] theorem retire_tagMetadataStore :
    (m.retire e lat now).tagMetadataStore = m.tagMetadataStore := by rw [retire_eq]

@[simp] theorem retire_pendingResponses : (m.retire e lat now).pendingResponses
    = m.pendingResponses ++ respondLater e lat now := by rw [retire_eq]

@[simp] theorem retire_stats : (m.retire e lat now).stats = countRetired e m.stats := by
  rw [retire_eq]

@[simp] theorem retire_log : (m.retire e lat now).log
    = m.log ++ .retired e now :: respondNow e lat now := by rw [retire_eq]

end Retire

/-- The responses released are due, and the first that is held is not. -/
theorem releaseResponses_split (clk : Clock) (rs : List PendingResponse) : ∀ m : Manager,
    ∃ due rest, rs = due ++ rest ∧ (∀ r ∈ due, r.targetCycle ≤ clk.cycle r.pkt.cpu) ∧
      (∀ r ∈ rest.head?, clk.cycle r.pkt.cpu < r.targetCycle) ∧
      releaseResponses clk rs m =
        { m with
          pendingResponses := rest
          log := m.log ++ due.flatMap fun r =>
            upcalls .response r.pkt (clk.cycle r.pkt.cpu) } := by
  induction rs with
  | nil => exact fun m => ⟨[], [], rfl, by simp, by simp, by simp [releaseResponses]⟩
  | cons r rest ih =>
      intro m
      rw [releaseResponses]
      split
      · rename_i hdue
        obtain ⟨due, left, hrs, hd, hl, heq⟩ :=
          ih (m.callUpper .response r.pkt (clk.cycle r.pkt.cpu))
        refine ⟨r :: due, left, by rw [hrs, List.cons_append], ?_, hl, ?_⟩
        · exact List.forall_mem_cons.mpr ⟨hdue, hd⟩
        · rw [heq]
          simp [callUpper]
      · rename_i hdue
        exact ⟨[], r :: rest, rfl, by simp, by simpa using hdue, by simp⟩

theorem releaseResponses_eq (clk : Clock) (rs : List PendingResponse) (m : Manager) :
    ∃ due rest, rs = due ++ rest ∧ releaseResponses clk rs m =
      { m with
        pendingResponses := rest
        log := m.log ++ due.flatMap fun r =>
          upcalls .response r.pkt (clk.cycle r.pkt.cpu) } := by
  obtain ⟨due, rest, hrs, -, -, heq⟩ := releaseResponses_split clk rs m
  exact ⟨due, rest, hrs, heq⟩

/-! ## The pieces of the request state machine -/

/-- `PACKET p = e->pkt` with the type and cycle of a sub-request. -/
def subRequest (e : OrbEntry) (type : AccessType) (now : Nat) : Packet :=
  { e.pkt with type := type, eventCycle := now }

/-- `e->state = st`. -/
def enterState (m : Manager) (e : OrbEntry) (st : ReqState) : Manager :=
  { m with orb := m.orb.insert e.pkt.address { e with state := st } }

/-- The state change of one case of `driveState`. -/
def issue (m : Manager) (e : OrbEntry) (st : ReqState) : Manager :=
  { m with orb := m.orb.insert e.pkt.address { e with state := st, issued := true } }

/-- `driveState`, `DCM_LOC_MEM_READ`, up to the dispatch. -/
def readNear (m : Manager) (e : OrbEntry) (now : Nat) : Manager :=
  ((m.issue e .waitingLocMemReadResp).count fun st =>
    { st with sentToNear := st.sentToNear + 1, localReads := st.localReads + 1 }).emit
      (.handNear e.requestId e.indexDC (subRequest e .load now) false)

/-- `driveState`, `DCM_FAR_MEM_READ`, up to the dispatch. -/
def readFar (m : Manager) (e : OrbEntry) (now : Nat) : Manager :=
  ((m.issue e .waitingFarMemReadResp).count fun st =>
    { st with sentToFar := st.sentToFar + 1, farReads := st.farReads + 1 }).emit
      (.handFar (some e.requestId) (subRequest e .load now) false)

/-- `driveState`, `DCM_LOC_MEM_WRITE`, up to the dispatch. -/
def writeNear (m : Manager) (e : OrbEntry) (now : Nat) : Manager :=
  ((m.issue e .waitingLocMemWriteResp).count fun st =>
    { st with sentToNear := st.sentToNear + 1, localWrites := st.localWrites + 1 }).emit
      (.handNear e.requestId e.indexDC (subRequest e .writeback now) true)

/-- `return_data` with the near response of an entry, up to the branch on
the request. -/
def nearAnswered (m : Manager) (e : OrbEntry) (now : Nat) : Manager :=
  let m := m.count fun st => { st with completedFromNear := st.completedFromNear + 1 }
  if e.handleDirtyLine then m.pushDirtyWriteBack e now else m

/-- The WB entry a near response queues. -/
def victims (e : OrbEntry) (now : Nat) : List WbEntry :=
  if e.handleDirtyLine then [{ arrivalCycle := now, pkt := victimWrite e now }] else []

def victimEvents (e : OrbEntry) : List Event :=
  if e.handleDirtyLine then [.wbQueued e.requestId e.dirtyLineAddr] else []

theorem mem_victimEvents {e : OrbEntry} {ev : Event} (h : ev ∈ victimEvents e) :
    ev = .wbQueued e.requestId e.dirtyLineAddr := by
  unfold victimEvents at h
  split at h
  · exact List.mem_singleton.mp h
  · cases h

theorem nearAnswered_eq (m : Manager) (e : OrbEntry) (now : Nat) :
    m.nearAnswered e now =
      { m with
        wb := m.wb ++ victims e now
        stats := (m.nearAnswered e now).stats
        log := m.log ++ victimEvents e } := by
  unfold nearAnswered victims victimEvents
  cases e.handleDirtyLine <;> simp [pushDirtyWriteBack, emit, count]

section NearAnswered

variable (m : Manager) (e : OrbEntry) (now : Nat)

@[simp] theorem nearAnswered_orb : (m.nearAnswered e now).orb = m.orb := by
  rw [nearAnswered_eq]

@[simp] theorem nearAnswered_crb : (m.nearAnswered e now).crb = m.crb := by
  rw [nearAnswered_eq]

@[simp] theorem nearAnswered_wb : (m.nearAnswered e now).wb = m.wb ++ victims e now := by
  rw [nearAnswered_eq]

@[simp] theorem nearAnswered_nextRequestId :
    (m.nearAnswered e now).nextRequestId = m.nextRequestId := by rw [nearAnswered_eq]

@[simp] theorem nearAnswered_tagMetadataStore :
    (m.nearAnswered e now).tagMetadataStore = m.tagMetadataStore := by rw [nearAnswered_eq]

@[simp] theorem nearAnswered_pendingResponses :
    (m.nearAnswered e now).pendingResponses = m.pendingResponses := by rw [nearAnswered_eq]

@[simp] theorem nearAnswered_frontendLatencyCycles :
    (m.nearAnswered e now).frontendLatencyCycles = m.frontendLatencyCycles := by
  rw [nearAnswered_eq]

@[simp] theorem nearAnswered_backendLatencyCycles :
    (m.nearAnswered e now).backendLatencyCycles = m.backendLatencyCycles := by
  rw [nearAnswered_eq]

@[simp] theorem nearAnswered_log :
    (m.nearAnswered e now).log = m.log ++ victimEvents e := by rw [nearAnswered_eq]

end NearAnswered

/-- `return_data` with the far response of an entry, before it completes
the request. -/
def farAnswered (m : Manager) : Manager :=
  m.count fun st => { st with completedFromFar := st.completedFromFar + 1 }

/-- `return_data` with the response of a bypass-mode read. -/
def bypassAnswered (m : Manager) (pkt : Packet) (now : Nat) : Manager :=
  ({ m.count fun st => { st with bypassCompletedReads := st.bypassCompletedReads + 1 } with
    bypassOutstandingReads := m.bypassOutstandingReads.erase pkt.address }).callUpper
      .bypass pkt now

/-- The background fill of `return_data`, up to the dispatch. -/
def fillNear (m : Manager) (requestId indexDC : Nat) (fillPkt : Packet) : Manager :=
  (m.count fun st =>
    { st with sentToNear := st.sentToNear + 1, localWrites := st.localWrites + 1 }).emit
      (.handNear requestId indexDC fillPkt true)

/-- The CRB entry `promoteFromCRB` takes out: the first of its index. -/
def waiter? (m : Manager) (indexDC : Nat) : Option CrbEntry :=
  m.crb.find? fun c => decide (returnIndexDC c.pkt.address = indexDC)

/-- `CRB.erase(it)`. -/
def takeWaiter (m : Manager) (indexDC : Nat) : Manager :=
  { m.count fun st => { st with crbPromotions := st.crbPromotions + 1 } with
    crb := m.crb.eraseP fun c => decide (returnIndexDC c.pkt.address = indexDC) }

/-- The end of `promoteFromCRB`: does another entry wait for the index? -/
def flagConflict (m : Manager) (address indexDC : Nat) : Manager :=
  match m.orb.lookup address with
  | none => m
  | some e =>
      if (m.waiter? indexDC).isSome then
        { m with orb := m.orb.insert address { e with conflict := true } }
      else m

theorem flagConflict_eq (m : Manager) (address indexDC : Nat) :
    m.flagConflict address indexDC = m ∨
    ∃ e, m.orb.lookup address = some e ∧ m.flagConflict address indexDC =
      { m with orb := m.orb.insert address { e with conflict := true } } := by
  unfold flagConflict
  split
  · exact .inl rfl
  · rename_i e he
    split
    · exact .inr ⟨e, he, rfl⟩
    · exact .inl rfl

/-- `drainWB` after a successful hand-off of the front. -/
def drained (m : Manager) (front : WbEntry) : Manager :=
  ({ m.count fun st =>
      { st with
        wbDrains := st.wbDrains + 1
        farWrites := st.farWrites + 1
        numWrBacks := st.numWrBacks + 1 } with
    wb := m.wb.tail }).emit (.handFar none front.pkt true)

/-- `recordOccupancySamples`. -/
def recordOccupancySamples (m : Manager) : Manager :=
  let orbSize := m.orbSize
  let crbSize := m.crb.length
  let wbSize := m.wb.length
  m.count fun st =>
    { st with
      orbMaxOccupancy := if orbSize > st.orbMaxOccupancy then orbSize else st.orbMaxOccupancy
      crbMaxOccupancy := if crbSize > st.crbMaxOccupancy then crbSize else st.crbMaxOccupancy
      wbMaxOccupancy := if wbSize > st.wbMaxOccupancy then wbSize else st.wbMaxOccupancy
      orbOccupancySum := st.orbOccupancySum + orbSize
      crbOccupancySum := st.crbOccupancySum + crbSize
      wbOccupancySum := st.wbOccupancySum + wbSize
      occupancySamples := st.occupancySamples + 1 }

end Manager

end DramCache
