import DramCache.LoadStore

/-!
# What the core does

A run of the core: any calls of its functions in any order, each under the
condition under which the loop of `main` makes it, until an assertion fails.
The caches, the TLBs and the branch predictor answer as they like.

What the loads and stores leave alone is said once for every property
(`MemoryKeeps`), and so is what scheduling and execution leave alone
(`RegisterKeeps`).
-/

namespace DramCache

/-- The calls of a cycle, and what `main` does to the core between them. -/
inductive CoreOp where
  /-- `current_core_cycle[i]++` -/
  | tick
  /-- `warmup_complete[i] = 1` -/
  | warmup
  /-- `finish_warmup`, after which decoding takes its time. -/
  | finishWarmup
  | retireRob (room : Nat → Bool)
  | updateRob (itlb l1i : Option UInt64) (dtlb l1d : Option DataPacket)
  | scheduleInstruction
  | executeInstruction
  | scheduleMemoryInstruction
  | operateLsq (stores loads data : Nat → Bool)
  | decodeAndDispatch
  | fetchInstruction (itlb l1i : Nat → Bool)
  | readFromTrace (predict : Nat → UInt8)

namespace O3Cpu

/-- `update_rob`: the packets at the heads of the queues of what is processed,
where there are any, and the executions that are complete. -/
def updateRob (itlb l1i : Option UInt64) (dtlb l1d : Option DataPacket) (s : O3Cpu) : O3Cpu :=
  let s := itlb.elim s fun ip => completeInstrFetch true ip s
  let s := l1i.elim s fun ip => completeInstrFetch false ip s
  let s := dtlb.elim s fun pkt => completeDataFetch true pkt s
  completeExecutions (l1d.elim s fun pkt => completeDataFetch false pkt s)

end O3Cpu

namespace CoreOp

open O3Cpu

/-- A call of the loop, under its condition. -/
def step : CoreOp → O3Cpu → Option O3Cpu
  | tick, s => some { s with currentCoreCycle := s.currentCoreCycle + 1 }
  | warmup, s => some { s with warmupComplete := true }
  | finishWarmup, s => some { s with decodeLatency := 2 }
  | retireRob room, s =>
      let e := s.rob.entryAt s.rob.head
      some (if e.executed = .completed ∧ e.eventCycle ≤ s.currentCoreCycle then s.retireRob room
        else s)
  | updateRob itlb l1i dtlb l1d, s => some (s.updateRob itlb l1i dtlb l1d)
  | scheduleInstruction, s =>
      let e := s.rob.entryAt s.rob.nextSchedule
      some (if e.scheduled = .idle ∧ e.eventCycle ≤ s.currentCoreCycle then s.scheduleInstruction
        else s)
  | executeInstruction, s => some s.executeInstruction
  | scheduleMemoryInstruction, s => some s.scheduleMemoryInstruction
  | operateLsq stores loads data, s => some (s.operateLsq stores loads data)
  | decodeAndDispatch, s =>
      some (if s.decodeBuffer.occupancy > 0 then s.decodeAndDispatch else s)
  | fetchInstruction itlb l1i, s => some (s.fetchInstruction itlb l1i)
  | readFromTrace predict, s =>
      if s.ifetchBuffer.occupancy < s.ifetchBuffer.size ∧ s.fetchStall = false then
        s.readFromTrace predict
      else some s

/-- Nothing happens behind an assertion that fails. -/
def apply (op : CoreOp) (s : O3Cpu) : Option O3Cpu := if s.fault = none then op.step s else some s

/-- Calls one after the other; `none` is a call that does not return. -/
def run : List CoreOp → O3Cpu → Option O3Cpu
  | [], s => some s
  | op :: ops, s => (op.apply s).bind (run ops)

/-- The calls of a cycle, in the order of `main`. The caches take every request,
but for the translations of stores if `stores` is false; the L1I has processed
the line of `ip`, and the DTLB the packet `dtlb`. -/
def cycle (ip : UInt64) (stores : Bool) (dtlb : Option DataPacket) : List CoreOp :=
  [.tick, .retireRob fun _ => true, .updateRob none (some ip) none none, .scheduleInstruction,
    .executeInstruction, .updateRob none none none none, .scheduleMemoryInstruction,
    .operateLsq (fun _ => stores) (fun _ => true) fun _ => true, .updateRob none none dtlb none,
    .decodeAndDispatch, .fetchInstruction (fun _ => true) fun _ => true,
    .readFromTrace fun _ => 0]

/-- What every call keeps holds after a run, which comes to an end when every
call does. -/
theorem run_keeps {P : O3Cpu → Prop}
    (hstep : ∀ (op : CoreOp) s, P s → ∃ s', op.step s = some s' ∧ P s') (ops : List CoreOp)
    {s : O3Cpu} (hs : P s) : ∃ s', run ops s = some s' ∧ P s' := by
  induction ops generalizing s with
  | nil => exact ⟨s, rfl, hs⟩
  | cons op ops ih =>
      obtain ⟨s₁, h₁, hs₁⟩ : ∃ s₁, op.apply s = some s₁ ∧ P s₁ := by
        rw [apply]
        by_cases hfault : s.fault = none
        · rw [if_pos hfault]
          exact hstep op s hs
        · rw [if_neg hfault]
          exact ⟨s, rfl, hs⟩
      obtain ⟨s', h', hs'⟩ := ih hs₁
      exact ⟨s', by rw [run, h₁, Option.bind_some, h'], hs'⟩

end CoreOp

/-! ## Buffers -/

namespace CoreBuffer

variable {b : CoreBuffer} {f : OooInstr → OooInstr} {i j : Nat}

theorem entryAt_modify_self (hi : i < b.entry.length) :
    (b.modify i f).entryAt i = f (b.entryAt i) := by
  unfold entryAt modify
  rw [List.getElem?_modify_eq, List.getElem?_eq_getElem hi]
  rfl

theorem entryAt_modify_ne (h : i ≠ j) : (b.modify i f).entryAt j = b.entryAt j := by
  unfold entryAt modify
  rw [List.getElem?_modify_ne _ _ h]

theorem modify_entry_length : (b.modify i f).entry.length = b.entry.length :=
  List.length_modify ..

end CoreBuffer

/-! ## Loads and stores -/

/-- What the loads and stores change of an instruction, but for whether its
stores are added. -/
def OooInstr.SameButMemory (e e' : OooInstr) : Prop :=
  e' = { e with
    eventCycle := e'.eventCycle
    isProducer := e'.isProducer
    numMemOps := e'.numMemOps
    memoryInstrsDependOnMe := e'.memoryInstrsDependOnMe
    sourceAdded := e'.sourceAdded
    lqIndex := e'.lqIndex }

/-- What is done to an entry of the store queue while it is in there. -/
def LsqEntry.SameButState (e e' : LsqEntry) : Prop :=
  e' = { e with
    producerId := e'.producerId
    physicalAddress := e'.physicalAddress
    eventCycle := e'.eventCycle
    translated := e'.translated
    fetched := e'.fetched }

/-- The assertions of the loads and stores, but for those on the order of the
stores. -/
def CoreFault.ofMemory : CoreFault → Bool
  | noEmptySlot | numMemOps | producerId | checkRob | storeMerged => true
  | _ => false

def ReadyName.ofMemory : ReadyName → Bool
  | rte0 | rte1 => false
  | rtl0 | rtl1 | rts0 | rts1 => true

namespace O3Cpu

/-- What the loads and stores do keeps `P`, but for `add_store_queue`. -/
structure MemoryKeeps (P : O3Cpu → Prop) : Prop where
  check : ∀ {s f} ok, f.ofMemory = true → P s → P (check ok f s)
  lq : ∀ {s} q, P s → P { s with lq := q }
  sq : ∀ {s} i f, (∀ e, LsqEntry.SameButState e (f e)) → P s → P (modifySq i f s)
  rob : ∀ {s} i f, (∀ e, OooInstr.SameButMemory e (f e)) → P s → P (modifyRob i f s)
  ready : ∀ {s a} r, a.ofMemory = true → P s → P { s with ready := Function.update s.ready a r }
  inflight : ∀ {s} n, P s → P { s with inflightMemExecutions := n }
  searched : ∀ {s} n, P s → P { s with numSearched := n }

/-- What holds through a fold. -/
theorem foldl_keeps {α : Type*} {P : O3Cpu → Prop} {f : O3Cpu → α → O3Cpu} {xs : List α}
    (h : ∀ s, ∀ x ∈ xs, P s → P (f s x)) {s : O3Cpu} (hs : P s) : P (xs.foldl f s) := by
  induction xs generalizing s with
  | nil => exact hs
  | cons x xs ih =>
      exact ih (fun s y hy => h s y (List.mem_cons_of_mem x hy)) (h s x List.mem_cons_self hs)

/-- What holds whether or not there is a packet. -/
theorem elim_keeps {α : Type*} {P : O3Cpu → Prop} {f : α → O3Cpu → O3Cpu}
    (h : ∀ x s, P s → P (f x s)) {x : Option α} {s : O3Cpu} (hs : P s) :
    P (x.elim s fun x => f x s) := by
  cases x with
  | none => exact hs
  | some x => exact h x s hs

/-- What the loop over the array `a` makes of the outcome of a step. -/
def Outcome.Leaves (a : ReadyName) (P : O3Cpu → Prop) : Outcome → Prop
  | .stop s => P s
  | .wait s => P s
  | .issued s => P (popReady a s)

theorem drain_keeps {P : O3Cpu → Prop} {width : Nat} {a : ReadyName}
    {step : Nat → Nat → O3Cpu → Outcome}
    (h : ∀ fuel i s, P s → (s.ready a).front = some i → (step fuel i s).Leaves a P)
    (fuel issued : Nat) {s : O3Cpu} (hs : P s) : P (drain width a step fuel issued s).2 := by
  induction fuel generalizing issued s with
  | zero => exact hs
  | succ fuel ih =>
      rw [drain]
      by_cases hwidth : width ≤ issued
      · rwa [if_pos hwidth]
      · rw [if_neg hwidth]
        cases hfront : (s.ready a).front with
        | none => exact hs
        | some i =>
            have hleft := h fuel i s hs hfront
            cases hstep : step fuel i s with
            | stop s' =>
                rw [hstep] at hleft
                simp only [hstep]
                exact hleft
            | wait s' =>
                rw [hstep] at hleft
                simpa only [hstep] using ih issued hleft
            | issued s' =>
                rw [hstep] at hleft
                simpa only [hstep] using ih (issued + 1) hleft

namespace MemoryKeeps

variable {P : O3Cpu → Prop} {s : O3Cpu} (h : MemoryKeeps P)
include h

theorem pushReady {a : ReadyName} (ha : a.ofMemory = true) (i : Nat) (hs : P s) :
    P (s.pushReady a i) := h.ready _ ha hs

theorem popReady {a : ReadyName} (ha : a.ofMemory = true) (hs : P s) : P (s.popReady a) :=
  h.ready _ ha hs

theorem finishMemOp (robIndex eventCycle : Nat) (hs : P s) :
    P (s.finishMemOp robIndex eventCycle) := by
  unfold O3Cpu.finishMemOp
  dsimp only
  split
  · exact h.inflight _ (h.check _ rfl (h.rob _ _ (fun _ => rfl) hs))
  · exact h.check _ rfl (h.rob _ _ (fun _ => rfl) hs)

theorem releaseLoadQueue (lqIndex : Nat) (hs : P s) : P (s.releaseLoadQueue lqIndex) := h.lq _ hs

theorem modifyLq (lqIndex : Nat) (f : LsqEntry → LsqEntry) (hs : P s) : P (s.modifyLq lqIndex f) :=
  h.lq _ hs

theorem memRAWDependency (prior current j lqIndex : Nat) (hs : P s) :
    P (s.memRAWDependency prior current j lqIndex) := by
  unfold O3Cpu.memRAWDependency
  dsimp only
  split
  · exact h.modifyLq _ _ (h.rob _ _ (fun _ => rfl) hs)
  · exact hs

theorem findForwarding (robIndex lqIndex : Nat) (is : List Nat) (hs : P s) :
    P (s.findForwarding robIndex lqIndex is).2 := by
  induction is generalizing s with
  | nil => exact hs
  | cons i is ih =>
      unfold O3Cpu.findForwarding
      dsimp only
      split
      · split
        · exact hs
        · split
          · exact ih (h.modifyLq _ _ hs)
          · exact ih hs
      · exact ih hs

theorem forwardAtOnce (lqIndex sqIndex : Nat) (hs : P s) : P (s.forwardAtOnce lqIndex sqIndex) := by
  unfold O3Cpu.forwardAtOnce
  dsimp only
  split
  · exact h.releaseLoadQueue _ (h.finishMemOp _ _ (h.modifyLq _ _ hs))
  · exact hs

theorem enterLoad (robIndex j lqIndex : Nat) (hs : P s) : P (s.enterLoad robIndex j lqIndex) :=
  h.lq _ (h.modifyLq _ _ (h.rob _ _ (fun _ => rfl) hs))

theorem findProducer (robIndex j lqIndex : Nat) (hs : P s) :
    P (s.findProducer robIndex j lqIndex) := by
  refine foldl_keeps (fun s prior _ hs => ?_) hs
  split
  · exact h.memRAWDependency _ _ _ _ hs
  · exact hs

theorem forward (robIndex lqIndex : Nat) (hs : P s) : P (s.forward robIndex lqIndex) := by
  unfold O3Cpu.forward
  have hfound := h.findForwarding robIndex lqIndex (List.range s.sq.size) hs
  cases hq : (s.findForwarding robIndex lqIndex (List.range s.sq.size)).1 with
  | none => simpa only [hq, Option.elim_none] using hfound
  | some sqIndex =>
      simpa only [hq, Option.elim_some] using h.forwardAtOnce lqIndex sqIndex hfound

theorem loadAdded (robIndex j lqIndex : Nat) (hs : P s) : P (s.loadAdded robIndex j lqIndex) := by
  unfold O3Cpu.loadAdded
  dsimp only
  split
  · exact h.pushReady rfl _ (h.rob _ _ (fun _ => rfl) hs)
  · exact h.rob _ _ (fun _ => rfl) hs

theorem addLoadQueue (robIndex j : Nat) (hs : P s) : P (s.addLoadQueue robIndex j) :=
  h.loadAdded _ _ _ (h.forward _ _ (h.findProducer _ _ _ (h.enterLoad _ _ _ (h.check _ rfl hs))))

theorem forwardTo (sqIndex lqIndex : Nat) (hs : P s) : P (s.forwardTo sqIndex lqIndex) :=
  h.releaseLoadQueue _ (h.finishMemOp _ _ (h.modifyLq _ _ (h.check _ rfl hs)))

theorem resolveSource (robIndex sqIndex dependent j : Nat) (hs : P s) :
    P (resolveSource robIndex sqIndex dependent s j) := by
  unfold O3Cpu.resolveSource
  dsimp only
  split
  · split
    · exact h.rob _ _ (fun _ => rfl) (h.forwardTo _ _ hs)
    · exact h.forwardTo _ _ hs
  · exact hs

theorem executeStore (robIndex sqIndex : Nat) (hs : P s) : P (s.executeStore robIndex sqIndex) := by
  unfold O3Cpu.executeStore
  have hdone := h.finishMemOp robIndex s.currentCoreCycle (h.sq sqIndex (fun e =>
    { e with fetched := .completed, eventCycle := s.currentCoreCycle }) (fun _ => rfl) hs)
  dsimp only
  split
  · exact foldl_keeps (fun s i _ hs =>
      foldl_keeps (fun s j _ hs => h.resolveSource _ _ _ _ hs) hs) hdone
  · exact hdone

theorem operateLsq (stores loads data : Nat → Bool) (hs : P s) :
    P (s.operateLsq stores loads data) := by
  refine drain_keeps (fun fuel i s hs _ => ?_) _ _ <|
    drain_keeps (fun fuel i s hs _ => ?_) _ _ <|
    drain_keeps (fun fuel i s hs _ => ?_) _ _ <|
    drain_keeps (fun fuel i s hs _ => ?_) _ _ hs
  · unfold executeLoadStep
    split
    · split
      · exact h.popReady rfl (h.modifyLq _ _ hs)
      · exact hs
    · exact hs
  · unfold translateLoadStep
    split
    · split
      · exact h.popReady rfl (h.modifyLq _ _ hs)
      · exact hs
    · exact hs
  · unfold executeStoreStep
    dsimp only
    split
    · exact h.popReady rfl (h.executeStore _ _ hs)
    · exact hs
  · unfold translateStoreStep
    split
    · split
      · exact h.popReady rfl (h.sq _ _ (fun _ => rfl) hs)
      · exact hs
    · exact hs

theorem storeTranslated (dataPa : UInt64) (sqIndex : Nat) (hs : P s) :
    P (storeTranslated dataPa s sqIndex) :=
  h.pushReady rfl _ (h.sq _ _ (fun _ => rfl) hs)

theorem loadTranslated (dataPa : UInt64) (lqIndex : Nat) (hs : P s) :
    P (loadTranslated dataPa s lqIndex) :=
  h.pushReady rfl _ (h.modifyLq _ _ hs)

theorem handleMergedTranslation (pkt : DataPacket) (hs : P s) :
    P (s.handleMergedTranslation pkt) := by
  have hstores : P (if pkt.storeMerged then
      pkt.sqIndexDependOnMe.foldl (O3Cpu.storeTranslated pkt.dataPa) s else s) := by
    split
    · exact foldl_keeps (fun s i _ hs => h.storeTranslated _ _ hs) hs
    · exact hs
  unfold O3Cpu.handleMergedTranslation
  dsimp only
  split
  · exact foldl_keeps (fun s i _ hs => h.loadTranslated _ _ hs) hstores
  · exact hstores

theorem loadFetched (lqIndex robIndex eventCycle : Nat) (hs : P s) :
    P (s.loadFetched lqIndex robIndex eventCycle) :=
  h.releaseLoadQueue _ (h.finishMemOp _ _ (h.modifyLq _ _ hs))

theorem handleMergedLoad (pkt : DataPacket) (hs : P s) : P (s.handleMergedLoad pkt) :=
  foldl_keeps (fun _ _ _ hs => h.loadFetched _ _ _ hs) hs

theorem completeDataFetch (isItTlb : Bool) (pkt : DataPacket) (hs : P s) :
    P (s.completeDataFetch isItTlb pkt) := by
  unfold O3Cpu.completeDataFetch
  dsimp only
  have hchecked := h.check (f := .checkRob)
    (pkt.rfo || s.checkRob pkt.instrId = some pkt.robIndex) rfl hs
  split
  · refine h.rob _ _ (fun _ => rfl) (h.handleMergedTranslation _ ?_)
    split
    · exact h.storeTranslated _ _ hchecked
    · exact h.loadTranslated _ _ hchecked
  · split
    · exact h.handleMergedLoad _ hchecked
    · exact h.handleMergedLoad _ (h.loadFetched _ _ _ (h.check _ rfl hchecked))

/-! ### Scheduling -/

theorem addLoads (robIndex : Nat) (js : List Nat) (q : Nat × O3Cpu) (hq : P q.2) :
    P (js.foldl (addLoad robIndex) q).2 := by
  induction js generalizing q with
  | nil => exact hq
  | cons j js ih =>
      refine ih _ ?_
      unfold addLoad
      dsimp only
      split
      · exact hq
      · split
        · exact h.addLoadQueue _ _ hq
        · exact hq

theorem checkAndAddLsq
    (hadd : ∀ {s : O3Cpu} {robIndex j}, P s → j < numInstrDestinations →
      (s.rob.entryAt robIndex).destinationAddress j ≠ 0 →
      (s.rob.entryAt robIndex).destinationAdded[j]?.getD false = false →
      s.sq.occupancy < s.sq.size →
      s.sta[s.staHead]?.getD none = some (s.rob.entryAt robIndex).instrId →
      P (s.addStoreQueue robIndex j))
    (robIndex : Nat) (hs : P s) : P (s.checkAndAddLsq robIndex).2 := by
  have hstores : ∀ (js : List Nat) (q : Nat × O3Cpu), (∀ j ∈ js, j < numInstrDestinations) →
      P q.2 → P (js.foldl (addStore robIndex) q).2 := by
    intro js
    induction js with
    | nil => exact fun q _ hq => hq
    | cons j js ih =>
        refine fun q hjs hq => ih _ (fun j' h' => hjs j' (List.mem_cons_of_mem j h')) ?_
        unfold addStore
        dsimp only
        split
        · exact hq
        · rename_i hnew
          split
          · rename_i hroom
            rw [not_or] at hnew
            exact hadd hq (hjs j List.mem_cons_self) hnew.1 (Bool.eq_false_iff.mpr hnew.2)
              hroom.1 hroom.2
          · exact hq
  exact hstores _ _ (fun _ => List.mem_range.mp) (h.addLoads _ _ (0, s) hs)

end MemoryKeeps

theorem scheduleMemoryInstruction_keeps {P : O3Cpu → Prop}
    (hsearched : ∀ s n, P s → P { s with numSearched := n })
    (hdo : ∀ s i, P s → (s.rob.entryAt i).isMemory = true → (s.rob.entryAt i).regReady = true →
      (s.rob.entryAt i).scheduled = .inflight → P (doMemoryScheduling i s))
    {s : O3Cpu} (hs : P s) : P s.scheduleMemoryInstruction := by
  have hfrom : ∀ (is : List Nat) s, P s → P (scheduleMemoryFrom is s) := by
    intro is
    induction is with
    | nil => exact fun s hs => hs
    | cons i is ih =>
        intro s hs
        unfold scheduleMemoryFrom
        dsimp only
        split
        · exact ih s hs
        · rename_i hmemory
          split
          · exact hs
          · split
            · rename_i hready
              exact ih _ (hdo s i hs (by simpa using hmemory) hready.1 hready.2)
            · exact ih s hs
  unfold scheduleMemoryInstruction
  dsimp only
  split
  · exact hs
  · split
    · exact hfrom _ _ (hsearched _ _ hs)
    · exact hfrom _ _ (hfrom _ _ (hsearched _ _ hs))

/-! ## Scheduling and execution -/

end O3Cpu

/-- What scheduling and execution change of an instruction; one that accesses
memory is not done with its scheduling there. -/
def OooInstr.SameButRegisters (e e' : OooInstr) : Prop :=
  e' = { e with
    producerId := e'.producerId
    eventCycle := e'.eventCycle
    scheduled := e'.scheduled
    executed := e'.executed
    regReady := e'.regReady
    regRAWProducer := e'.regRAWProducer
    numRegDependent := e'.numRegDependent
    regRAWChecked := e'.regRAWChecked
    registersInstrsDependOnMe := e'.registersInstrsDependOnMe
    registersIndexDependOnMe := e'.registersIndexDependOnMe } ∧
  (e.isMemory = true → e'.scheduled = .completed → e.scheduled = .completed)

def CoreEvent.ofExecution : CoreEvent → Bool
  | started _ | completed _ => true
  | retired _ | written _ => false

namespace O3Cpu

/-- What scheduling and execution do keeps `P`. -/
structure RegisterKeeps (P : O3Cpu → Prop) : Prop where
  check : ∀ {s} ok, P s → P (check ok .readyToExecute s)
  rob : ∀ {s} i f, OooInstr.SameButRegisters (s.rob.entryAt i) (f (s.rob.entryAt i)) → P s →
    P (modifyRob i f s)
  ready : ∀ {s a} r, a.ofMemory = false → P s →
    P { s with ready := Function.update s.ready a r }
  nextSchedule : ∀ {s} n, P s → P { s with rob := { s.rob with nextSchedule := n } }
  searched : ∀ {s} n, P s → P { s with numSearched := n }
  regExecutions : ∀ {s} n, P s → P { s with inflightRegExecutions := n }
  memExecutions : ∀ {s} n, P s → P { s with inflightMemExecutions := n }
  resume : ∀ {s} n, P s → P { s with fetchResumeCycle := n }
  note : ∀ {s e}, e.ofExecution = true → P s → P (note e s)

namespace RegisterKeeps

variable {P : O3Cpu → Prop} {s : O3Cpu} (h : RegisterKeeps P)
include h

theorem regRAWDependency (prior current j : Nat) (hs : P s) :
    P (s.regRAWDependency prior current j) := by
  unfold O3Cpu.regRAWDependency
  dsimp only
  split
  · exact h.rob _ _ ⟨rfl, fun _ => id⟩ (h.rob _ _ ⟨rfl, fun _ => id⟩ hs)
  · exact hs

theorem regDependency (index : Nat) (hs : P s) : P (s.regDependency index) := by
  refine foldl_keeps (fun s prior _ hs => ?_) hs
  unfold regDependencyOn
  split
  · refine foldl_keeps (fun s j _ hs => ?_) hs
    split
    · exact h.regRAWDependency _ _ _ hs
    · exact hs
  · exact hs

theorem addReady {a : ReadyName} (ha : a.ofMemory = false) (i : Nat) (hs : P s) :
    P (s.addReady a i) :=
  h.ready _ ha (h.check _ hs)

theorem findProducers (index : Nat) (hs : P s) : P (s.findProducers index) :=
  h.nextSchedule _ (h.regDependency index (h.rob index _ ⟨rfl, fun _ => id⟩ hs))

theorem doScheduling (index : Nat) (hs : P s) : P (s.doScheduling index) := by
  have hfound := h.findProducers index hs
  unfold O3Cpu.doScheduling
  dsimp only
  split
  · exact h.rob _ _ ⟨rfl, fun _ => Returned.noConfusion⟩ hfound
  · rename_i hmemory
    have hdone := h.rob index (fun e => { e with scheduled := .completed }.addLatency
      schedulingLatency (s.findProducers index).currentCoreCycle)
      ⟨rfl, fun hm => absurd hm hmemory⟩ hfound
    split
    · exact h.addReady rfl _ hdone
    · exact hdone

theorem scheduleInstruction (hs : P s) : P s.scheduleInstruction := by
  have hfrom : ∀ (is : List Nat) s, P s → P (scheduleFrom is s) := by
    intro is
    induction is with
    | nil => exact fun s hs => hs
    | cons i is ih =>
        intro s hs
        unfold scheduleFrom
        dsimp only
        split
        · exact hs
        · refine ih _ (h.searched _ ?_)
          split
          · exact h.doScheduling _ hs
          · exact hs
  unfold O3Cpu.scheduleInstruction
  split
  · exact hs
  · exact hfrom _ _ (h.searched _ hs)

theorem executeInstruction (hs : P s) : P s.executeInstruction := by
  have hstep : ∀ a : ReadyName, a.ofMemory = false → ∀ fuel i s, P s →
      (s.ready a).front = some i → (executeStep fuel i s).Leaves a P := by
    intro a ha fuel i s hs _
    unfold executeStep
    split
    · exact h.ready _ ha (h.regExecutions _ (h.rob _ _ ⟨rfl, fun _ => id⟩ (h.note rfl hs)))
    · exact hs
  unfold O3Cpu.executeInstruction
  split
  · exact hs
  · exact drain_keeps (hstep .rte1 rfl) _ _ (drain_keeps (hstep .rte0 rfl) _ _ hs)

theorem wake (index : Nat) (hs : P s) : P (s.wake index) := by
  have hready := h.rob index (fun e => { e with regReady := true }) ⟨rfl, fun _ => id⟩ hs
  unfold O3Cpu.wake
  dsimp only
  split
  · exact h.rob _ _ ⟨rfl, fun _ => Returned.noConfusion⟩ hready
  · rename_i hmemory
    exact h.addReady rfl _ (h.rob _ _ ⟨rfl, fun hm => absurd hm hmemory⟩ hready)

theorem releaseOne (index : Nat) (hs : P s) : P (s.releaseOne index) := by
  have hless := h.rob index (fun e => { e with numRegDependent := e.numRegDependent - 1 })
    ⟨rfl, fun _ => id⟩ hs
  unfold O3Cpu.releaseOne
  dsimp only
  split
  · exact h.wake _ hless
  · exact hless

theorem regRAWRelease (index : Nat) (hs : P s) : P (s.regRAWRelease index) := by
  refine foldl_keeps (fun s i _ hs => foldl_keeps (fun s j _ hs => ?_) hs) hs
  unfold releaseSource
  split
  · exact h.releaseOne _ hs
  · exact hs

theorem completeEntry (index : Nat) (hs : P s) : P (s.completeEntry index) := by
  have hdone := h.rob index (fun e => { e with executed := .completed }) ⟨rfl, fun _ => id⟩
    (h.note (e := .completed (s.rob.entryAt index).instrId) rfl hs)
  unfold O3Cpu.completeEntry
  dsimp only
  split
  · exact h.memExecutions _ hdone
  · exact h.regExecutions _ hdone

theorem completeExecution (index : Nat) (hs : P s) : P (s.completeExecution index) := by
  have hdone := h.completeEntry index hs
  have hreleased : P (if (s.rob.entryAt index).regRAWProducer then
      (s.completeEntry index).regRAWRelease index else s.completeEntry index) := by
    split
    · exact h.regRAWRelease _ hdone
    · exact hdone
  unfold O3Cpu.completeExecution
  dsimp only
  split
  · split
    · exact h.resume _ hreleased
    · exact hreleased
  · exact hs

theorem completeExecutions (hs : P s) : P s.completeExecutions := by
  unfold O3Cpu.completeExecutions
  split
  · exact foldl_keeps (fun s i _ hs => h.completeExecution i hs) hs
  · exact hs

end RegisterKeeps

end O3Cpu

end DramCache
