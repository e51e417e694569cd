import DramCache.Cascade

/-!
# Runs of the memory system

The port of `DRAM_CACHE_MANAGER` the last-level cache uses (`add_rq`,
`add_wq`, `get_occupancy`, `get_size`, `operate`), its setters, and what
the simulator around it changes: the clocks and the warm-up flag. `machine`
is the re-entrant component they make; a run is a run of it.
-/

namespace DramCache

namespace Sys

/-! ## The port -/

/-- What `add_rq` and `add_wq` do after their warm-up and bypass branches:
a conflicting index waits in the CRB, a write-back backlog or a full ORB
is refused, anything else is admitted. The middle component is the return
value. -/
def admission (s : Sys) (pkt : Packet) (isWrite : Bool) : Sys × Int × List Call :=
  if s.dcm.checkConflictInORB (returnIndexDC pkt.address) then
    if s.dcm.crb.length ≥ dcmCrbMaxSize then
      (s.onDcm (·.count fun st => { st with crbFullRejects := st.crbFullRejects + 1 }), -2, [])
    else (s.onDcm (·.waitInCRB pkt isWrite (s.now pkt.cpu)), -1, [])
  else if s.dcm.wb.length ≥ dcmWbPressureThreshold then
    (s.onDcm (·.count fun st => { st with wbFullRejects := st.wbFullRejects + 1 }), -2, [])
  else if s.dcm.orbSize ≥ dcmOrbMaxSize then
    (s.onDcm (·.count fun st => { st with orbFullRejects := st.orbFullRejects + 1 }), -2, [])
  else
    match (s.onDcm (·.emit (.accepted isWrite pkt))).admitRequest pkt isWrite none with
    | (s, ks) => (s, -1, ks)

/-- `add_rq`. -/
def addRq (s : Sys) (pkt : Packet) : Sys × Int × List Call :=
  if s.allWarmupComplete < numCpus then
    let s := if !s.dcm.bypassDcache then s.onDcm (·.warmupTagUpdate pkt false) else s
    (s.onDcm (·.callUpper .warmup pkt (s.now pkt.cpu)), -1, [])
  else if s.dcm.bypassDcache then
    let now := s.now pkt.cpu
    let pkt := { pkt with eventCycle := now }
    let s := s.onDcm fun m =>
      ({ m.count fun st => { st with bypassReads := st.bypassReads + 1 } with
        bypassOutstandingReads := pkt.address ::ₘ m.bypassOutstandingReads }).emit
          (.handFar none pkt false)
    match s.dispatchToFarGuaranteed pkt false with
    | (s, ks) => (s, -1, ks)
  else s.admission pkt false

/-- `add_wq`. -/
def addWq (s : Sys) (pkt : Packet) : Sys × Int × List Call :=
  if s.allWarmupComplete < numCpus then
    (if !s.dcm.bypassDcache then s.onDcm (·.warmupTagUpdate pkt true) else s, -1, [])
  else if s.dcm.bypassDcache then
    let now := s.now pkt.cpu
    let pkt := { pkt with eventCycle := now }
    let s := s.onDcm fun m =>
      (m.count fun st => { st with bypassWrites := st.bypassWrites + 1 }).emit
        (.handFar none pkt true)
    match s.dispatchToFarGuaranteed pkt true with
    | (s, ks) => (s, -1, ks)
  else s.admission pkt true

/-- `get_occupancy`. -/
def getOccupancy (s : Sys) (queueType address : Nat) : Nat :=
  if s.dcm.bypassDcache then s.farMC.getOccupancy queueType
  else if queueType = 1 ∨ queueType = 2 then
    if s.dcm.checkConflictInORB (returnIndexDC address) then s.dcm.crb.length
    else if s.dcm.wb.length ≥ dcmWbPressureThreshold then dcmWbPressureThreshold
    else s.dcm.orbSize
  else 0

/-- `get_size`. -/
def getSize (s : Sys) (queueType address : Nat) : Nat :=
  if s.dcm.bypassDcache then s.farMC.getSize queueType
  else if queueType = 1 ∨ queueType = 2 then
    if s.dcm.checkConflictInORB (returnIndexDC address) then dcmCrbMaxSize
    else if s.dcm.wb.length ≥ dcmWbPressureThreshold then dcmWbPressureThreshold
    else dcmOrbMaxSize
  else 1

/-! ## What the last-level cache hands down -/

/-- `add_rq` or `add_wq`. -/
def addRequest (s : Sys) (pkt : Packet) (isWrite : Bool) : Sys × Int × List Call :=
  if isWrite then s.addWq pkt else s.addRq pkt

/-- The `queue_type` a request is gated on. -/
def gateType (isWrite : Bool) : Nat := if isWrite then 2 else 1

/-- The packet `handle_fill` and `handle_writeback` make of a dirty
victim block. -/
def writebackPacket (cpu address fullAddr instrId now : Nat) : Packet :=
  { cpu := cpu, address := address, fullAddr := fullAddr, instrId := instrId,
    type := .writeback, eventCycle := now }

/-- The calls `operate` makes, in order. -/
def operateCalls : List Call :=
  [.processPendingFarDispatches, .drainWB, .processPendingNearDispatches,
    .operateController .near, .operateController .far, .processPendingResponses,
    .recordOccupancySamples]

end Sys

/-! ## Operations and runs -/

/-- What happens at a call boundary. -/
inductive Op where
  | addRq (pkt : Packet)
  | addWq (pkt : Packet)
  | operate
  | tick (clk : Clock)
  | setPolicy (pol : Policy)
  | setLinkLatency (cycles : Nat)
  | setControllerLatency (frontendCycles backendCycles : Nat)
  | setBypassDcache (enable : Bool)
  | finishWarmup
  | resetROIStats

namespace Sys

/-- Enter an operation: the state and the calls it has pending. -/
def enter (op : Op) (s : Sys) : Sys × List Call :=
  match op with
  | .addRq pkt => match s.addRq pkt with | (s, _, ks) => (s, ks)
  | .addWq pkt => match s.addWq pkt with | (s, _, ks) => (s, ks)
  | .operate => (s, operateCalls)
  | .tick clk => ({ s with clock := clk }, [])
  | .setPolicy pol => (s.onDcm fun m => { m with policy := pol }, [])
  | .setLinkLatency n => (s.onDcm fun m => { m with linkLatencyCycles := n }, [])
  | .setControllerLatency f b =>
      (s.onDcm fun m => { m with frontendLatencyCycles := f, backendLatencyCycles := b }, [])
  | .setBypassDcache b => (s.onDcm fun m => { m with bypassDcache := b }, [])
  | .finishWarmup => ({ s with allWarmupComplete := numCpus }, [])
  | .resetROIStats => (s.onDcm (·.resetROIStats), [])

end Sys

/-- The memory system as a re-entrant component. -/
def machine : Worklist.Machine Op Sys Call Assertion where
  enter := Sys.enter
  exec := Sys.exec

/-- The manager's constructor over two fresh controllers, in warm-up. -/
def Sys.boot (near far : MemoryController) (clk : Clock) (frontend backend : Nat) : Sys :=
  { dcm :=
      { policy := .baselineCascadeLake, linkLatencyCycles := 0,
        frontendLatencyCycles := frontend, backendLatencyCycles := backend }
    nearMC := near
    farMC := far
    clock := clk
    allWarmupComplete := 0 }

/-- The request an operation makes, and whether it is a write. -/
def Op.request? : Op → Option (Bool × Packet)
  | .addRq pkt => some (false, pkt)
  | .addWq pkt => some (true, pkt)
  | _ => none

/-- Operations of a run after warm-up and outside bypass mode. -/
def Op.Roi : Op → Prop
  | .setBypassDcache b => b = false
  | _ => True

/-- No request names the line address 0, which marks an empty slot. -/
def Op.Nonzero (op : Op) : Prop :=
  ∀ w pkt, op.request? = some (w, pkt) → pkt.address ≠ 0

/-- Reads ask for exactly one port. -/
def Op.SingleFlag (op : Op) : Prop :=
  ∀ pkt, op.request? = some (false, pkt) → pkt.SingleFlag

/-! ## Where runs start -/

/-- After warm-up, outside bypass mode. -/
structure Sys.Live (s : Sys) : Prop where
  warm : numCpus ≤ s.allWarmupComplete
  noBypass : s.dcm.bypassDcache = false
  noBypassReads : s.dcm.bypassOutstandingReads = 0

/-- A valid slot holds a line of its index, under that line's tag. -/
structure TagEntry.Coherent (i : Nat) (slot : TagEntry) : Prop where
  index : slot.validLine = true → returnIndexDC slot.farMemAddr = i
  tag : slot.validLine = true → slot.tagDC = returnTagDC slot.farMemAddr

/-- What a warm-up history consists of. -/
def Event.isWarmup : Event → Bool
  | .warmed .. => true
  | .upcall .warmup .. => true
  | _ => false

/-- The end of warm-up: fresh controllers and empty queues over a tag
store that is warm. -/
structure Sys.Fresh (s : Sys) : Prop where
  live : s.Live
  nearMC : ∃ tRP tRCD tCAS dbus, s.nearMC = .new tRP tRCD tCAS dbus
  farMC : ∃ tRP tRCD tCAS dbus, s.farMC = .new tRP tRCD tCAS dbus
  orb : s.dcm.orb = ∅
  crb : s.dcm.crb = []
  wb : s.dcm.wb = []
  far : s.dcm.pendingFarDispatches = []
  near : s.dcm.pendingNearDispatches = []
  responses : s.dcm.pendingResponses = []
  sends : s.dcm.sends = []
  tags : ∀ i, (s.dcm.tagMetadataStore i).Coherent i
  log : ∀ ev ∈ s.dcm.log, ev.isWarmup = true

/-! ## A system to run -/

/-- The end of an empty warm-up: every timing and controller latency 0, all
clocks at 0. -/
def Sys.cold (policy : Policy) (linkLatencyCycles : Nat) : Sys :=
  { dcm :=
      { policy := policy, linkLatencyCycles := linkLatencyCycles,
        frontendLatencyCycles := 0, backendLatencyCycles := 0 }
    nearMC := .new 0 0 0 0
    farMC := .new 0 0 0 0
    clock := .zero
    allWarmupComplete := numCpus }

theorem Sys.cold_fresh (policy : Policy) (linkLatencyCycles : Nat) :
    (Sys.cold policy linkLatencyCycles).Fresh where
  live := ⟨le_refl _, rfl, rfl⟩
  nearMC := ⟨0, 0, 0, 0, rfl⟩
  farMC := ⟨0, 0, 0, 0, rfl⟩
  orb := rfl
  crb := rfl
  wb := rfl
  far := rfl
  near := rfl
  responses := rfl
  sends := rfl
  tags _ := ⟨fun h => (Bool.false_ne_true h).elim, fun h => (Bool.false_ne_true h).elim⟩
  log _ h := (List.not_mem_nil h).elim

end DramCache
