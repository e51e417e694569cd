import DramCache.Manager
import DramCache.Worklist

/-!
# The manager over its two controllers

The functions of `src/dram_cache_manager.cc` that reach nearMC or farMC.
A controller answers through `return_data`, possibly inside the very
`add_rq` that offered the read, and `return_data` may complete a request,
promote another and dispatch again. Each function below therefore returns
the state together with the calls that are pending when it gets there: the
callbacks of a controller, the calls of `driveState` and `promoteFromCRB`
that follow, and the statements of callers that come after them. `exec`
says what one pending call does; the work list of `DramCache.Worklist` is
the call stack.

The upper level never calls back into the manager, so its `return_data`
is a log entry.
-/

namespace DramCache

/-- The manager, its controllers, and the globals it reads. -/
structure Sys where
  dcm : Manager
  nearMC : MemoryController
  farMC : MemoryController
  clock : Clock
  allWarmupComplete : Nat

/-- Pending calls. Those without a source function of their name are the
rest of one, after the callbacks it has caused. -/
inductive Call where
  /-- `DRAM_CACHE_MANAGER::return_data`, called by a controller. -/
  | returnData (side : Side) (pkt : Packet)
  | driveState (address : Nat)
  /-- `completeRequest` after the near write of `driveState`. -/
  | completeRequest (address responseLatencyCycles : Nat)
  | promoteFromCRB (indexDC : Nat)
  /-- `promoteFromCRB` after `admitRequest`. -/
  | flagConflict (address indexDC : Nat)
  /-- `return_data` after the `completeRequest` of a far response. -/
  | backgroundFill (requestId indexDC : Nat) (fillPkt : Packet)
  /-- `MEMORY_CONTROLLER::add_rq` after the callbacks of a forward. -/
  | forwardDone (side : Side)
  /-- `processPendingFarDispatches` after a successful `trySend`. -/
  | popFar
  /-- `processPendingNearDispatches` after a successful `trySend`. -/
  | popNear
  /-- `MEMORY_CONTROLLER::process` after the callback of a read. -/
  | processReadDone (side : Side) (index bank : Nat)
  | processPendingFarDispatches
  | drainWB
  | processPendingNearDispatches
  /-- `MEMORY_CONTROLLER::operate`. -/
  | operateController (side : Side)
  | processPendingResponses
  | recordOccupancySamples
deriving Repr, DecidableEq

namespace Sys

def now (s : Sys) (cpu : Nat) : Nat := s.clock.cycle cpu

def mc (s : Sys) : Side → MemoryController
  | .near => s.nearMC
  | .far => s.farMC

def setMc (s : Sys) (side : Side) (mc : MemoryController) : Sys :=
  match side with
  | .near => { s with nearMC := mc }
  | .far => { s with farMC := mc }

def onDcm (s : Sys) (f : Manager → Manager) : Sys := { s with dcm := f s.dcm }

/-! ## Sending -/

/-- Both upper levels of both controllers are the manager. -/
def callbacks (side : Side) (pkt : Packet) : List Call :=
  (if pkt.instruction then [.returnData side pkt] else [])
    ++ (if pkt.isData then [.returnData side pkt] else [])

/-- `MEMORY_CONTROLLER::add_rq`. -/
def controllerAddRq (s : Sys) (side : Side) (pkt : Packet) : Sys × AddOutcome × List Call :=
  if s.allWarmupComplete < numCpus then (s, .preWarmup, callbacks side pkt)
  else
    match (s.mc side).addRq pkt with
    | (mc, .forwarded i) =>
        (s.setMc side mc, .forwarded i, callbacks side pkt ++ [.forwardDone side])
    | (mc, o) => (s.setMc side mc, o, [])

/-- `MEMORY_CONTROLLER::add_wq`. -/
def controllerAddWq (s : Sys) (side : Side) (pkt : Packet) : Sys × AddOutcome :=
  if s.allWarmupComplete < numCpus then (s, .preWarmup)
  else
    match (s.mc side).addWq pkt with
    | (mc, o) => (s.setMc side mc, o)

/-- The write branch of `trySend`: a merge coalesces and counts as sent. -/
def sendWrite (s : Sys) (side : Side) (pkt : Packet) : Sys × Bool × List Call :=
  match s.controllerAddWq side pkt with
  | (s, o) => (s.onDcm (·.noteSend ⟨side, pkt, true, o⟩), true, [])

/-- The read branch of `trySend`: a merged read was not enqueued. -/
def sendRead (s : Sys) (side : Side) (pkt : Packet) : Sys × Bool × List Call :=
  match s.controllerAddRq side pkt with
  | (s, o, ks) =>
      let s := s.onDcm (·.noteSend ⟨side, pkt, false, o⟩)
      if o.returnValue ≥ 0 then
        (s.onDcm (·.count fun st =>
          { st with dispatchMergeRetries := st.dispatchMergeRetries + 1 }), false, [])
      else (s, true, ks)

/-- The capacity check of `trySend`; `queue_type` 2 is the write queue. -/
def noRoom (s : Sys) (side : Side) (isWrite : Bool) : Bool :=
  let queueType := if isWrite then 2 else 1
  decide ((s.mc side).getOccupancy queueType ≥ (s.mc side).getSize queueType)

/-- `trySend`, and whether it returned true. -/
def trySend (s : Sys) (side : Side) (pkt : Packet) (isWrite : Bool) :
    Sys × Bool × List Call :=
  if s.noRoom side isWrite then (s, false, [])
  else
    let stamped := { pkt with eventCycle := s.now pkt.cpu }
    match isWrite with
    | true => s.sendWrite side stamped
    | false => s.sendRead side stamped

/-- `dispatchToFar`. -/
def dispatchToFar (s : Sys) (pkt : Packet) (isWrite : Bool) : Sys × Bool × List Call :=
  if s.dcm.linkLatencyCycles = 0 then s.trySend .far pkt isWrite
  else
    let d : PendingFarDispatch :=
      { targetCycle := s.now pkt.cpu + s.dcm.linkLatencyCycles, pkt := pkt, isWrite := isWrite }
    (s.onDcm fun m => { m with pendingFarDispatches := m.pendingFarDispatches ++ [d] },
      true, [])

/-- `dispatchToFarGuaranteed`. -/
def dispatchToFarGuaranteed (s : Sys) (pkt : Packet) (isWrite : Bool) : Sys × List Call :=
  match s.dispatchToFar pkt isWrite with
  | (s, true, ks) => (s, ks)
  | (s, false, _) =>
      let d : PendingFarDispatch :=
        { targetCycle := s.now pkt.cpu, pkt := pkt, isWrite := isWrite }
      (s.onDcm fun m =>
        { m.count fun st => { st with farDispatchRetries := st.farDispatchRetries + 1 } with
          pendingFarDispatches := m.pendingFarDispatches ++ [d] }, [])

/-- The retry branch of `dispatchToNear`. -/
def queueNear (s : Sys) (pkt : Packet) (isWrite : Bool) : Sys :=
  let d : PendingNearDispatch := { pkt := pkt, isWrite := isWrite }
  s.onDcm fun m =>
    { m.count fun st => { st with nearDispatchRetries := st.nearDispatchRetries + 1 } with
      pendingNearDispatches := m.pendingNearDispatches ++ [d] }

/-- `dispatchToNear`. -/
def dispatchToNear (s : Sys) (pkt : Packet) (isWrite : Bool) : Sys × List Call :=
  if s.dcm.pendingNearDispatches.isEmpty then
    match s.trySend .near pkt isWrite with
    | (s, true, ks) => (s, ks)
    | (s, false, _) => (s.queueNear pkt isWrite, [])
  else (s.queueNear pkt isWrite, [])

/-! ## The request state machine -/

/-- `driveState` for the ORB entry of an address. -/
def driveState (s : Sys) (address : Nat) : Sys × List Call :=
  match s.dcm.orb.lookup address with
  | none => (s, [])
  | some e =>
      let now := s.now e.pkt.cpu
      match e.state with
      | .locMemRead =>
          (s.onDcm (·.readNear e now)).dispatchToNear (Manager.subRequest e .load now) false
      | .farMemRead =>
          (s.onDcm (·.readFar e now)).dispatchToFarGuaranteed (Manager.subRequest e .load now)
            false
      | .locMemWrite =>
          match (s.onDcm (·.writeNear e now)).dispatchToNear
              (Manager.subRequest e .writeback now) true with
          | (s, ks) => (s, ks ++ [.completeRequest address 0])
      | _ => (s, [])

/-- `admitRequest`. -/
def admitRequest (s : Sys) (pkt : Packet) (isWrite : Bool) (arrival : Option Nat) :
    Sys × List Call :=
  (s.onDcm (·.admitEntry pkt isWrite arrival (s.now pkt.cpu)), [.driveState pkt.address])

/-- `promoteFromCRB`. -/
def promoteFromCRB (s : Sys) (indexDC : Nat) : Sys × List Call :=
  match s.dcm.waiter? indexDC with
  | none => (s, [])
  | some c =>
      match (s.onDcm (·.takeWaiter indexDC)).admitRequest c.pkt c.isWriteReq
          (some c.arrivalCycle) with
      | (s, ks) => (s, ks ++ [.flagConflict c.pkt.address indexDC])

/-- `completeRequest` for an ORB entry. -/
def completeEntry (s : Sys) (e : OrbEntry) (responseLatencyCycles : Nat) : Sys × List Call :=
  (s.onDcm (·.retire e responseLatencyCycles (s.now e.pkt.cpu)), [.promoteFromCRB e.indexDC])

/-- `completeRequest` for the ORB entry of an address. -/
def completeRequest (s : Sys) (address responseLatencyCycles : Nat) : Sys × List Call :=
  match s.dcm.orb.lookup address with
  | none => (s, [])
  | some e => s.completeEntry e responseLatencyCycles

/-- `return_data` for the near response of an entry. -/
def nearResponse (s : Sys) (e : OrbEntry) : Sys × List Call :=
  let s := s.onDcm (·.nearAnswered e (s.now e.pkt.cpu))
  if e.isWriteReq then
    (s.onDcm (·.enterState e .locMemWrite), [.driveState e.pkt.address])
  else if e.isHit then
    s.completeEntry e (s.dcm.frontendLatencyCycles + s.dcm.backendLatencyCycles)
  else (s.onDcm (·.enterState e .farMemRead), [.driveState e.pkt.address])

/-- `return_data` for the far response of an entry. -/
def farResponse (s : Sys) (e : OrbEntry) : Sys × List Call :=
  let fillPkt := Manager.subRequest e .writeback (s.now e.pkt.cpu)
  match (s.onDcm (·.farAnswered)).completeEntry e
      (s.dcm.frontendLatencyCycles + s.dcm.backendLatencyCycles
        + s.dcm.backendLatencyCycles) with
  | (s, ks) => (s, ks ++ [.backgroundFill e.requestId e.indexDC fillPkt])

/-- `return_data`; which controller called it is only logged. -/
def returnData (s : Sys) (side : Side) (pkt : Packet) : Sys × List Call :=
  if pkt.address ∈ s.dcm.bypassOutstandingReads then
    (s.onDcm (·.bypassAnswered pkt (s.now pkt.cpu)), [])
  else
    match s.dcm.orb.lookup pkt.address with
    | none => (s.onDcm (·.emit (.untracked side pkt.address)), [])
    | some e =>
        let s := s.onDcm (·.emit (.answered side e))
        match e.state with
        | .waitingLocMemReadResp => s.nearResponse e
        | .waitingFarMemReadResp => s.farResponse e
        | _ => (s, [])

/-- The background fill write at the end of `return_data`. -/
def backgroundFill (s : Sys) (requestId indexDC : Nat) (fillPkt : Packet) : Sys × List Call :=
  (s.onDcm (·.fillNear requestId indexDC fillPkt)).dispatchToNear fillPkt true

/-! ## The steps of `operate` -/

/-- `processPendingFarDispatches`, one iteration: after the callbacks of a
release the front is popped and the loop goes round again. -/
def processPendingFarDispatches (s : Sys) : Sys × List Call :=
  match s.dcm.pendingFarDispatches with
  | [] => (s, [])
  | d :: _ =>
      if d.targetCycle ≤ s.now d.pkt.cpu then
        match s.trySend .far d.pkt d.isWrite with
        | (s, true, ks) => (s, ks ++ [.popFar])
        | (s, false, _) =>
            (s.onDcm (·.count fun st =>
              if d.isWrite then { st with wbDispatchRetries := st.wbDispatchRetries + 1 }
              else { st with farDispatchRetries := st.farDispatchRetries + 1 }), [])
      else (s, [])

def popFar (s : Sys) : Sys :=
  s.onDcm fun m => { m with pendingFarDispatches := m.pendingFarDispatches.tail }

/-- `processPendingNearDispatches`, one iteration. -/
def processPendingNearDispatches (s : Sys) : Sys × List Call :=
  match s.dcm.pendingNearDispatches with
  | [] => (s, [])
  | d :: _ =>
      match s.trySend .near d.pkt d.isWrite with
      | (s, true, ks) => (s, ks ++ [.popNear])
      | (s, false, _) => (s, [])

def popNear (s : Sys) : Sys :=
  s.onDcm fun m => { m with pendingNearDispatches := m.pendingNearDispatches.tail }

/-- `drainWB`. A write is never called back, so nothing is left pending. -/
def drainWB (s : Sys) : Sys :=
  match s.dcm.wb with
  | [] => s
  | front :: _ =>
      match s.dispatchToFar front.pkt true with
      | (s, false, _) =>
          s.onDcm (·.count fun st => { st with wbDispatchRetries := st.wbDispatchRetries + 1 })
      | (s, true, _) => s.onDcm (·.drained front)

/-- `MEMORY_CONTROLLER::operate`; a finished read calls the manager back
with the queue entry as it stands. -/
def operateController (s : Sys) (side : Side) : Except Assertion (Sys × List Call) :=
  match (s.mc side).operate s.clock with
  | .error a => .error a
  | .ok (mc, none) => .ok (s.setMc side mc, [])
  | .ok (mc, some i) =>
      let pkt := (mc.rq.slotAt i).pkt
      .ok (s.setMc side mc,
        [.returnData side pkt, .processReadDone side i (dramGetBank pkt.address)])

/-- What one pending call does, and the calls it leaves pending. -/
def exec (c : Call) (s : Sys) : Except Assertion (Sys × List Call) :=
  match c with
  | .returnData side pkt => .ok (s.returnData side pkt)
  | .driveState a => .ok (s.driveState a)
  | .completeRequest a lat => .ok (s.completeRequest a lat)
  | .promoteFromCRB i => .ok (s.promoteFromCRB i)
  | .flagConflict a i => .ok (s.onDcm (·.flagConflict a i), [])
  | .backgroundFill r i pkt => .ok (s.backgroundFill r i pkt)
  | .forwardDone side => .ok (s.setMc side (s.mc side).forwardDone, [])
  | .popFar => .ok (s.popFar, [.processPendingFarDispatches])
  | .popNear => .ok (s.popNear, [.processPendingNearDispatches])
  | .processReadDone side i b =>
      match (s.mc side).processReadDone i b with
      | .error a => .error a
      | .ok mc => .ok (s.setMc side mc, [])
  | .processPendingFarDispatches => .ok s.processPendingFarDispatches
  | .drainWB => .ok (s.drainWB, [])
  | .processPendingNearDispatches => .ok s.processPendingNearDispatches
  | .operateController side => s.operateController side
  | .processPendingResponses => .ok (s.onDcm (·.processPendingResponses s.clock), [])
  | .recordOccupancySamples => .ok (s.onDcm (·.recordOccupancySamples), [])

end Sys

end DramCache
