import DramCache.Core
import Mathlib.Data.List.Sort

/-!
# Scheduling and execution

How an instruction in the reorder buffer comes to execute: `schedule_instruction`
finds the older instructions its source registers wait for, the last of them to
complete makes it ready, and `execute_instruction` takes what is ready in the
order in which it became so.
-/

namespace DramCache

/-- `fastset::insert`, on the list of the elements. -/
def insertIndex (x : Nat) (l : List Nat) : List Nat :=
  if x ∈ l then l else l.orderedInsert (· ≤ ·) x

namespace OooInstr

/-- The instruction writes the register `r`. -/
def writes (i : OooInstr) (r : UInt8) : Bool :=
  i.destinationRegisters.any fun d => d ≠ 0 && d = r

def sourceRegister (i : OooInstr) (j : Nat) : UInt8 := i.sourceRegisters[j]?.getD 0

/-- The source `j` names a register no producer has been found for. -/
def unchecked (i : OooInstr) (j : Nat) : Bool :=
  i.sourceRegister j ≠ 0 && !(i.regRAWChecked[j]?.getD false)

/-- `registers_index_depend_on_me[j]`. -/
def indexDependOnMe (i : OooInstr) (j : Nat) : List Nat :=
  i.registersIndexDependOnMe[j]?.getD []

/-- The producer's side of a dependency. -/
def addDependent (current j : Nat) (i : OooInstr) : OooInstr :=
  { i with
    registersInstrsDependOnMe := insertIndex current i.registersInstrsDependOnMe
    registersIndexDependOnMe := i.registersIndexDependOnMe.modify j (insertIndex current)
    regRAWProducer := true }

/-- The consumer's side. -/
def addProducer (producer j : Nat) (i : OooInstr) : OooInstr :=
  { i with
    regReady := false
    producerId := producer
    numRegDependent := i.numRegDependent + 1
    regRAWChecked := i.regRAWChecked.set j true }

/-- "ADD LATENCY". -/
def addLatency (latency cycle : Nat) (i : OooInstr) : OooInstr :=
  { i with eventCycle := if i.eventCycle < cycle then cycle + latency else i.eventCycle + latency }

end OooInstr

/-- The reorder-buffer entries before `index`, youngest first. -/
def priors (size head index : Nat) : List Nat :=
  let prior := if index = 0 then size - 1 else index - 1
  if index = head then []
  else if head ≤ prior then (List.range' head (prior + 1 - head)).reverse
  else (List.range (prior + 1)).reverse ++ (List.range' head (size - head)).reverse

namespace O3Cpu

/-! ## Dependencies -/

/-- `reg_RAW_dependency`. -/
def regRAWDependency (prior current j : Nat) (s : O3Cpu) : O3Cpu :=
  let p := s.rob.entryAt prior
  if p.writes ((s.rob.entryAt current).sourceRegister j) then
    modifyRob current (OooInstr.addProducer p.instrId j)
      (modifyRob prior (OooInstr.addDependent current j) s)
  else s

/-- The sources of `current` against one older instruction, unless that is done. -/
def regDependencyOn (current prior : Nat) (s : O3Cpu) : O3Cpu :=
  if (s.rob.entryAt prior).executed ≠ .completed then
    (List.range numInstrSources).foldl (fun s j =>
      if (s.rob.entryAt current).unchecked j then regRAWDependency prior current j s else s) s
  else s

def regDependency (index : Nat) (s : O3Cpu) : O3Cpu :=
  (priors s.rob.size s.rob.head index).foldl (fun s prior => regDependencyOn index prior s) s

/-! ## Scheduling -/

/-- An entry goes to the array, whose cell has to be free. -/
def addReady (a : ReadyName) (i : Nat) (s : O3Cpu) : O3Cpu :=
  pushReady a i (check (!(s.ready a).occupied) .readyToExecute s)

/-- The producers of the entry, which make it the last one scheduled. -/
def findProducers (index : Nat) (s : O3Cpu) : O3Cpu :=
  let s := regDependency index (modifyRob index (fun e => { e with regReady := true }) s)
  { s with rob := { s.rob with nextSchedule := if index = s.rob.size - 1 then 0 else index + 1 } }

def doScheduling (index : Nat) (s : O3Cpu) : O3Cpu :=
  let s := findProducers index s
  if (s.rob.entryAt index).isMemory then
    modifyRob index (fun e => { e with scheduled := .inflight }) s
  else
    let s := modifyRob index (fun e =>
      { e with scheduled := .completed }.addLatency schedulingLatency s.currentCoreCycle) s
    if (s.rob.entryAt index).regReady then addReady .rte1 index s else s

/-- The loops of `schedule_instruction`, either of which returns. -/
def scheduleFrom : List Nat → O3Cpu → O3Cpu
  | [], s => s
  | i :: is, s =>
      let e := s.rob.entryAt i
      if e.fetched ≠ .completed ∨ e.eventCycle > s.currentCoreCycle ∨
          s.numSearched ≥ schedulerSize then s
      else
        let s := if e.scheduled = .idle then doScheduling i s else s
        scheduleFrom is { s with numSearched := s.numSearched + 1 }

def scheduleInstruction (s : O3Cpu) : O3Cpu :=
  if s.rob.isEmpty then s
  else
    scheduleFrom (Ring.scan s.rob.size s.rob.head s.rob.nextFetch) { s with numSearched := 0 }

/-! ## Execution -/

/-- What becomes of the entry at the head of an array: the loop ends, it stays
where it is, or it is popped. -/
inductive Outcome where
  | stop (s : O3Cpu)
  | wait (s : O3Cpu)
  | issued (s : O3Cpu)

/-- The loops over the arrays of what is ready. They count what they have
issued, up to `width`, and their iterations; `fuel` is what is left of those. -/
def drain (width : Nat) (a : ReadyName) (step : Nat → Nat → O3Cpu → Outcome) :
    Nat → Nat → O3Cpu → Nat × O3Cpu
  | 0, issued, s => (issued, s)
  | fuel + 1, issued, s =>
      if width ≤ issued then (issued, s)
      else
        match (s.ready a).front with
        | none => (issued, s)
        | some i =>
            match step fuel i s with
            | .stop s => (issued, s)
            | .wait s => drain width a step fuel issued s
            | .issued s => drain width a step fuel (issued + 1) (popReady a s)

def doExecution (index : Nat) (s : O3Cpu) : O3Cpu :=
  let s := note (.started (s.rob.entryAt index).instrId) s
  let s := modifyRob index (fun e =>
    { e with executed := .inflight }.addLatency execLatency s.currentCoreCycle) s
  { s with inflightRegExecutions := s.inflightRegExecutions + 1 }

def executeStep (_ index : Nat) (s : O3Cpu) : Outcome :=
  if (s.rob.entryAt index).eventCycle ≤ s.currentCoreCycle then .issued (doExecution index s)
  else .wait s

def executeInstruction (s : O3Cpu) : O3Cpu :=
  if s.rob.isEmpty then s
  else
    let q := drain execWidth .rte0 executeStep (robSize - 1) 0 s
    (drain execWidth .rte1 executeStep (robSize - 1) q.1 q.2).2

/-! ## Completion -/

/-- All source registers of the entry at `index` have their values. -/
def wake (index : Nat) (s : O3Cpu) : O3Cpu :=
  let s := modifyRob index (fun e => { e with regReady := true }) s
  if (s.rob.entryAt index).isMemory then
    modifyRob index (fun e => { e with scheduled := .inflight }) s
  else addReady .rte0 index (modifyRob index (fun e => { e with scheduled := .completed }) s)

/-- One of them has. -/
def releaseOne (index : Nat) (s : O3Cpu) : O3Cpu :=
  let s := modifyRob index (fun e => { e with numRegDependent := e.numRegDependent - 1 }) s
  if (s.rob.entryAt index).numRegDependent = 0 then wake index s else s

/-- The source `j` of the entry at `i`, where it waits for the one at `index`. -/
def releaseSource (index i : Nat) (s : O3Cpu) (j : Nat) : O3Cpu :=
  if i ∈ (s.rob.entryAt index).indexDependOnMe j then releaseOne i s else s

/-- `reg_RAW_release`. -/
def regRAWRelease (index : Nat) (s : O3Cpu) : O3Cpu :=
  (s.rob.entryAt index).registersInstrsDependOnMe.foldl (fun s i =>
    (List.range numInstrSources).foldl (releaseSource index i) s) s

/-- The entry is done. -/
def completeEntry (index : Nat) (s : O3Cpu) : O3Cpu :=
  let e := s.rob.entryAt index
  let s := modifyRob index (fun e => { e with executed := .completed }) (note (.completed e.instrId) s)
  if e.isMemory then { s with inflightMemExecutions := dec32 s.inflightMemExecutions }
  else { s with inflightRegExecutions := dec32 s.inflightRegExecutions }

/-- `complete_execution`; an instruction that accesses memory has to be done
with that. -/
def completeExecution (s : O3Cpu) (index : Nat) : O3Cpu :=
  let e := s.rob.entryAt index
  if (e.isMemory → e.numMemOps = 0) ∧ e.executed = .inflight ∧
      e.eventCycle ≤ s.currentCoreCycle then
    let s := completeEntry index s
    let s := if e.regRAWProducer then regRAWRelease index s else s
    if e.branchMispredicted then
      { s with fetchResumeCycle := s.currentCoreCycle + branchMispredictPenalty }
    else s
  else s

/-- "update ROB entries with completed executions". -/
def completeExecutions (s : O3Cpu) : O3Cpu :=
  if s.inflightRegExecutions > 0 ∨ s.inflightMemExecutions > 0 then
    (Ring.scan s.rob.size s.rob.head s.rob.tail).foldl completeExecution s
  else s

end O3Cpu

end DramCache
