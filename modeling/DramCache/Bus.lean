import Mathlib.Data.List.Chain
import Mathlib.Data.List.Induction
import DramCache.Standalone
import DramCache.Watched

/-!
# The data bus

One transfer at a time, each after the bus has been returned, and after
the turn-around if the direction changed. A mode switch charges the
turn-around to the cycle at which the bus is free, also when that cycle is
long past, so the distance of two transfers holds without a look at the
clocks. Switches postpone transfers; `slack` says how many more there can
be before the next one, and no upper level can drive it above four.
-/

namespace DramCache

open Worklist (ReachesIf Reaches)

/-- A data transfer: out of which queue, and at which cycle. -/
structure BusTransfer where
  kind : QueueKind
  cycle : Nat
deriving Repr, DecidableEq

/-- What happens on the bus. -/
inductive BusEvent where
  /-- The mode changed. -/
  | switched
  | moved (x : BusTransfer)
deriving Repr, DecidableEq

def BusEvent.transfer? : BusEvent → Option BusTransfer
  | .switched => none
  | .moved x => some x

def transfers (bus : List BusEvent) : List BusTransfer := bus.filterMap BusEvent.transfer?

/-- The switches since the last transfer. -/
def switchesSince (bus : List BusEvent) : Nat :=
  bus.foldl (fun n ev => match ev with
    | .switched => n + 1
    | .moved _ => 0) 0

@[simp] theorem transfers_append (l₁ l₂ : List BusEvent) :
    transfers (l₁ ++ l₂) = transfers l₁ ++ transfers l₂ := List.filterMap_append ..

theorem transfers_switched {l : List BusEvent} (h : ∀ ev ∈ l, ev = .switched) :
    transfers l = [] :=
  List.filterMap_eq_nil_iff.mpr fun ev hev => by
    rw [h ev hev]
    rfl

@[simp] theorem switchesSince_moved (l : List BusEvent) (x : BusTransfer) :
    switchesSince (l ++ [.moved x]) = 0 := by simp [switchesSince]

@[simp] theorem switchesSince_switched (l : List BusEvent) :
    switchesSince (l ++ [.switched]) = switchesSince l + 1 := by simp [switchesSince]

theorem switchesSince_append {l₂ : List BusEvent} (h : ∀ ev ∈ l₂, ev = .switched)
    (l₁ : List BusEvent) : switchesSince (l₁ ++ l₂) = switchesSince l₁ + l₂.length := by
  induction l₂ using List.reverseRecOn with
  | nil => rw [List.append_nil, List.length_nil, Nat.add_zero]
  | append_singleton l ev ih =>
      obtain rfl := h ev (by simp)
      rw [← List.append_assoc, switchesSince_switched, ih fun ev hev => h ev (by simp [hev]),
        List.length_append, List.length_singleton, Nat.add_assoc]

namespace MemoryController

/-! ## What the functions do to the bus -/

/-- What the bus depends on. -/
structure BusView where
  available : Nat
  returnTime : Nat
  writeMode : Bool
  reads : Nat
  writes : Nat

def busView (mc : MemoryController) : BusView :=
  { available := mc.dbusCycleAvailable, returnTime := mc.dbusReturnTime, writeMode := mc.writeMode,
    reads := mc.rq.occupancy, writes := mc.wq.occupancy }

/-- The queue whose requests are transferred. -/
def BusView.kind (v : BusView) : QueueKind := if v.writeMode then .wq else .rq

variable {mc mc' : MemoryController} {clk : Clock}

theorem resetSlot_busView (clk : Clock) (k : QueueKind) (mc : MemoryController) (i : Nat) :
    (resetSlot clk k mc i).busView = mc.busView := by
  unfold resetSlot
  dsimp only
  split
  · cases k <;> split <;> first | rfl | (split <;> rfl)
  · rfl

theorem resetRemainRequests_busView {k : QueueKind} (h : resetRemainRequests clk k mc = .ok mc') :
    mc'.busView = mc.busView := by
  have hfold : ∀ is : List Nat, (is.foldl (resetSlot clk k) mc).busView = mc.busView := by
    intro is
    induction is using List.reverseRecOn with
    | nil => rfl
    | append_singleton is i ih =>
        rw [List.foldl_append, List.foldl_cons, List.foldl_nil, resetSlot_busView, ih]
  rw [← hfold (List.range (mc.queue k).size)]
  unfold resetRemainRequests at h
  cases k <;> dsimp only at h <;> split at h <;> cases h <;> rfl

/-- A switch turns the bus around. -/
inductive Switches (v : BusView) : BusView → List BusEvent → Prop
  | stays : Switches v v []
  | toWrites (hmode : v.writeMode = false)
      (h : dramWriteHighWM ≤ v.writes ∨ v.reads = 0 ∧ 0 < v.writes) :
      Switches v { v with writeMode := true, available := v.available + dramDbusTurnAroundTime }
        [.switched]
  | toReads (hmode : v.writeMode = true)
      (h : v.writes = 0 ∨ v.reads ≠ 0 ∧ v.writes < dramWriteLowWM) :
      Switches v { v with writeMode := false, available := v.available + dramDbusTurnAroundTime }
        [.switched]

theorem switchMode_switches (h : mc.switchMode clk = .ok mc') :
    ∃ evs, Switches mc.busView mc'.busView evs := by
  have hturn : ∀ {k b}, (resetRemainRequests clk k { mc with writeMode := b }).map
      (fun mc => { mc with dbusCycleAvailable := mc.dbusCycleAvailable + dramDbusTurnAroundTime })
        = .ok mc' →
      mc'.busView = { mc.busView with
        writeMode := b, available := mc.busView.available + dramDbusTurnAroundTime } := by
    intro k b h
    obtain ⟨mc₁, hreset, rfl⟩ := ok_of_map h
    have hview := resetRemainRequests_busView hreset
    exact congrArg (fun v : BusView =>
      { v with available := v.available + dramDbusTurnAroundTime }) hview
  unfold switchMode at h
  dsimp only at h
  split at h
  · rename_i hc
    simp only [Bool.and_eq_true, Bool.not_eq_true', Bool.or_eq_true, decide_eq_true_eq] at hc
    rw [hturn h]
    exact ⟨_, .toWrites hc.1 hc.2⟩
  · split at h
    · rename_i hc
      simp only [Bool.and_eq_true, Bool.or_eq_true, decide_eq_true_eq] at hc
      rw [hturn h]
      exact ⟨_, .toReads hc.1 hc.2⟩
    · cases h
      exact ⟨_, .stays⟩

theorem schedule_busView (clk : Clock) (k : QueueKind) (mc : MemoryController) :
    (mc.schedule clk k).busView = mc.busView := by
  unfold schedule
  dsimp only
  split
  · cases k <;> rfl
  · rfl

/-- A transfer finds the bus free and takes it for the return time. -/
structure Moves (v v' : BusView) (x : BusTransfer) : Prop where
  kind : x.kind = v.kind
  free : v.available ≤ x.cycle
  taken : v'.available = x.cycle + v.returnTime
  returnTime : v'.returnTime = v.returnTime
  mode : v'.writeMode = v.writeMode

/-- What serving a queue does to the bus: a transfer, of a read with its slot
handed over, or nothing. -/
inductive Passes (v : BusView) : BusView → Option BusTransfer → Option Nat → Prop
  | moves {v' : BusView} {t : BusTransfer} {r : Option Nat} (h : Moves v v' t)
      (hr : r.isSome = decide (t.kind = .rq)) : Passes v v' (some t) r
  | idles : Passes v v none none

/-- The transfer `process` makes. -/
def processTransfer (clk : Clock) (k : QueueKind) (mc : MemoryController) : Option BusTransfer :=
  if processReady clk (mc.queue k) && mc.granted clk k then
    some ⟨k, cycleAt clk (mc.queue k) (mc.queue k).nextProcessIndex⟩
  else none

/-- The transfer `operate` makes: which queue's, and at which cycle. -/
def busTransfer (clk : Clock) (mc : MemoryController) : Option BusTransfer :=
  match mc.switchMode clk with
  | .error _ => none
  | .ok mc =>
      let k := if mc.writeMode then .wq else .rq
      processTransfer clk k (if scheduleReady clk (mc.queue k) then mc.schedule clk k else mc)

theorem finishTransfer_bus {k : QueueKind} {i b : Nat} (h : finishTransfer k i b mc = .ok mc') :
    mc'.dbusCycleAvailable = mc.dbusCycleAvailable ∧ mc'.dbusReturnTime = mc.dbusReturnTime ∧
      mc'.writeMode = mc.writeMode := by
  unfold finishTransfer at h
  dsimp only at h
  cases k <;> dsimp only at h <;> split at h <;> cases h <;> exact ⟨rfl, rfl, rfl⟩

/-- `process` makes its transfer, or leaves the bus alone. -/
theorem process_passes {k : QueueKind} {r : Option Nat} (hk : k = mc.busView.kind)
    (hready : processReady clk (mc.queue k) = true) (h : mc.process clk k = .ok (mc', r)) :
    Passes mc.busView mc'.busView (processTransfer clk k mc) r := by
  have hidle : mc.granted clk k = false → processTransfer clk k mc = none := fun hgrant => by
    simp [processTransfer, hgrant]
  unfold process at h
  dsimp only at h
  split at h
  · cases h
  split at h
  · cases h
  split at h
  swap
  · rename_i havail
    obtain ⟨rfl, rfl⟩ := Prod.mk.inj (Except.ok.inj h)
    rw [hidle (by simp [granted, bankOf, havail])]
    exact .idles
  rename_i havail
  split at h
  swap
  · rename_i hbus
    obtain ⟨rfl, rfl⟩ := Prod.mk.inj (Except.ok.inj h)
    rw [hidle (by simp [granted, hbus])]
    exact .idles
  rename_i hbus
  have hgrant : mc.granted clk k = true := by simp [granted, bankOf, havail, hbus]
  simp only [processTransfer, hready, hgrant, Bool.and_self, if_true]
  cases k with
  | wq =>
      obtain ⟨mc₁, hf, heq⟩ := ok_of_map h
      obtain ⟨hfree, hret, hmode⟩ := finishTransfer_bus hf
      obtain ⟨rfl, rfl⟩ := Prod.mk.inj heq
      exact .moves ⟨hk, hbus, hfree, hret, hmode⟩ rfl
  | rq =>
      obtain ⟨rfl, rfl⟩ := Prod.mk.inj (Except.ok.inj h)
      exact .moves ⟨hk, hbus, rfl, rfl, rfl⟩ rfl

/-- The transfer recorded is the one that empties a slot. -/
theorem busTransfer_kind (clk : Clock) (mc : MemoryController) :
    (mc.busTransfer clk).map BusTransfer.kind = (mc.transfer clk).map Prod.fst := by
  unfold busTransfer transfer
  cases mc.switchMode clk with
  | error a => rfl
  | ok mc =>
      have hkind : ∀ (k : QueueKind) (mc : MemoryController),
          (processTransfer clk k mc).map BusTransfer.kind
            = (if processReady clk (mc.queue k) && mc.granted clk k then
                some (k, (mc.queue k).nextProcessIndex) else none).map Prod.fst := by
        intro k mc
        unfold processTransfer
        split <;> rfl
      exact hkind ..

/-- A queue's turn: scheduling leaves the bus alone, then `process`. -/
theorem serve_passes {k : QueueKind} {r : Option Nat} (hk : k = mc.busView.kind)
    (h : mc.serve clk k = .ok (mc', r)) :
    Passes mc.busView mc'.busView
      (processTransfer clk k (if scheduleReady clk (mc.queue k) then mc.schedule clk k else mc)) r := by
  have hview : ∀ b : Bool, (if b then mc.schedule clk k else mc).busView = mc.busView := fun b => by
    cases b
    · rfl
    · exact schedule_busView ..
  unfold serve at h
  dsimp only at h
  replace hview := hview (scheduleReady clk (mc.queue k))
  generalize (if scheduleReady clk (mc.queue k) then mc.schedule clk k else mc) = mc₁ at h hview ⊢
  rw [← hview] at hk ⊢
  split at h
  · rename_i hready
    exact process_passes hk hready h
  · rename_i hready
    obtain ⟨rfl, rfl⟩ := Prod.mk.inj (Except.ok.inj h)
    rw [Bool.not_eq_true] at hready
    have hnone : processTransfer clk k mc₁ = none := by simp [processTransfer, hready]
    rw [hnone]
    exact .idles

/-- **One cycle on the bus**: a switch or none, then a transfer or none. -/
theorem operate_passes {r : Option Nat} (h : mc.operate clk = .ok (mc', r)) :
    ∃ v evs, Switches mc.busView v evs ∧ Passes v mc'.busView (mc.busTransfer clk) r := by
  unfold operate at h
  unfold busTransfer
  cases hs : mc.switchMode clk with
  | error a =>
      rw [hs] at h
      cases h
  | ok mc₁ =>
      rw [hs] at h
      obtain ⟨evs, hsw⟩ := switchMode_switches hs
      refine ⟨mc₁.busView, evs, hsw, ?_⟩
      have hserve : mc₁.serve clk mc₁.busView.kind = .ok (mc', r) := by
        rw [← h]
        change mc₁.serve clk (if mc₁.writeMode then .wq else .rq) = _
        cases hm : mc₁.writeMode <;> simp [bind, Except.bind, hm]
      exact serve_passes rfl hserve

end MemoryController

/-! ## Watching the bus -/

/-- The queue whose request an event of the controller transfers. -/
def ControllerEvent.transferred? : ControllerEvent → Option QueueKind
  | .returned _ _ => some .rq
  | .transferred _ _ => some .wq
  | _ => none

namespace Standalone

/-- The queues of the transfers so far. -/
def transferred (c : Standalone) : List QueueKind := c.log.filterMap ControllerEvent.transferred?

/-- What an action does on the bus. -/
def busEvents (op : ControllerOp) (c c' : Standalone) : List BusEvent :=
  match op with
  | .operate =>
      (if c'.mc.writeMode = c.mc.writeMode then [] else [.switched])
        ++ ((c.mc.busTransfer c.clock).map .moved).toList
  | _ => []

/-- The controller and its upper level, with a record of the bus. -/
def onBus : Worklist.Machine ControllerOp (Standalone × List BusEvent) ControllerOp Assertion :=
  standalone.watched (fun _ _ _ => []) busEvents

/-- Other actions leave the bus alone; requests come in, and only the end
of a read's callback takes one out. -/
structure Waits (op : ControllerOp) (c c' : Standalone) : Prop where
  available : c'.mc.dbusCycleAvailable = c.mc.dbusCycleAvailable
  returnTime : c'.mc.dbusReturnTime = c.mc.dbusReturnTime
  mode : c'.mc.writeMode = c.mc.writeMode
  reads : c.processing = none → c.mc.rq.occupancy ≤ c'.mc.rq.occupancy
  writes : c.mc.wq.occupancy ≤ c'.mc.wq.occupancy
  processing : c.processing = none → c'.processing = none

end Standalone

namespace PacketQueue

theorem insert_occupancy (q : PacketQueue) (pkt : Packet) :
    q.occupancy ≤ (q.insert pkt).occupancy := by
  unfold insert
  split
  · exact Nat.le_succ _
  · exact Nat.le_refl _

end PacketQueue

namespace Standalone

variable {op : ControllerOp} {c c' : Standalone}

theorem Waits.same (hmc : c'.mc.busView = c.mc.busView) (hp : c'.processing = c.processing) :
    Waits op c c' where
  available := congrArg MemoryController.BusView.available hmc
  returnTime := congrArg MemoryController.BusView.returnTime hmc
  mode := congrArg MemoryController.BusView.writeMode hmc
  reads _ := (congrArg MemoryController.BusView.reads hmc).ge
  writes := (congrArg MemoryController.BusView.writes hmc).ge
  processing h := hp.trans h

theorem answer_waits (pkt : Packet) (n : Nat) :
    (c.answer pkt n).mc.busView = c.mc.busView ∧ (c.answer pkt n).processing = c.processing ∧
      (c.answer pkt n).clock = c.clock := by
  cases n <;> exact ⟨rfl, rfl, rfl⟩

theorem exec_waits (hop : op ≠ .operate) (h : exec op c = .ok c') : Waits op c c' := by
  cases op with
  | operate => exact absurd rfl hop
  | tick clk =>
      cases h
      exact .same rfl rfl
  | addRq pkt =>
      cases h
      unfold addRq MemoryController.addRq
      cases hwq : c.mc.wq.checkDramQueue pkt with
      | some i =>
          obtain ⟨hmc, hp, -⟩ := answer_waits (c := { c with log := c.log ++ [.forwarded pkt] }) pkt
            (callbackCount pkt)
          exact .same hmc hp
      | none =>
          cases hrq : c.mc.rq.checkDramQueue pkt with
          | some i => exact .same rfl rfl
          | none =>
              dsimp only
              split
              · rename_i heq
                split at heq <;> cases heq
              · exact ⟨rfl, rfl, rfl, fun _ => c.mc.rq.insert_occupancy pkt, Nat.le_refl _, id⟩
  | addWq pkt =>
      cases h
      unfold addWq MemoryController.addWq
      cases hwq : c.mc.wq.checkDramQueue pkt with
      | some i => exact .same rfl rfl
      | none => exact ⟨rfl, rfl, rfl, fun _ => Nat.le_refl _, c.mc.wq.insert_occupancy pkt, id⟩
  | returnCallback =>
      change c.returnCallback = .ok c' at h
      unfold returnCallback at h
      split at h
      · rename_i pkt n rest _
        cases h
        obtain ⟨hmc, hp, -⟩ := answer_waits (c := { c with answering := rest }) pkt n
        exact .same hmc hp
      · rename_i i b _ hp
        split at h
        · cases h
        · rename_i mc hdone
          cases h
          obtain ⟨hfree, hret, hmode⟩ := MemoryController.finishTransfer_bus hdone
          have hwq : mc.wq = c.mc.wq := by
            unfold MemoryController.processReadDone MemoryController.finishTransfer at hdone
            dsimp only at hdone
            split at hdone <;> cases hdone
            rfl
          have hbusy : c.processing ≠ none := by simp [hp]
          exact ⟨hfree, hret, hmode, fun hn => absurd hn hbusy,
            (congrArg PacketQueue.occupancy hwq).ge, fun _ => rfl⟩
      · cases h
        exact .same rfl rfl

/-- The events recorded for a cycle are what happened on the bus. -/
theorem Switches.evs {v v' : MemoryController.BusView} {evs : List BusEvent}
    (h : MemoryController.Switches v v' evs) :
    (if v'.writeMode = v.writeMode then [] else [.switched]) = evs := by
  cases h with
  | stays => exact if_pos rfl
  | toWrites hmode => simp [hmode]
  | toReads hmode => simp [hmode]

/-- One action: a cycle on the bus, or the bus is left alone. -/
inductive OnBus (op : ControllerOp) (c : Standalone) (bus : List BusEvent) (c' : Standalone) :
    List BusEvent → Prop
  | moved {v : MemoryController.BusView} {evs : List BusEvent} {t : BusTransfer}
      (hop : op = .operate) (ht : c.mc.busTransfer c.clock = some t)
      (hs : MemoryController.Switches c.mc.busView v evs)
      (hm : MemoryController.Moves v c'.mc.busView t) : OnBus op c bus c' (bus ++ evs ++ [.moved t])
  | cycled {evs : List BusEvent} (hop : op = .operate)
      (hs : MemoryController.Switches c.mc.busView c'.mc.busView evs)
      (hp : c'.processing = c.processing) : OnBus op c bus c' (bus ++ evs)
  | waits (hop : op ≠ .operate) (h : Waits op c c') : OnBus op c bus c' bus

theorem operate_mc (h : c.operate = .ok c') : ∃ r, c.mc.operate c.clock = .ok (c'.mc, r) ∧
    c'.clock = c.clock ∧ (r = none → c'.processing = c.processing) ∧
    c'.transferred = c.transferred ++ (if r.isSome then [.rq] else
      (writeEvents c.clock c.mc).filterMap ControllerEvent.transferred?) := by
  unfold operate at h
  split at h
  · cases h
  · rename_i mc heq
    cases h
    exact ⟨none, heq, rfl, fun _ => rfl, List.filterMap_append ..⟩
  · rename_i mc i heq
    cases h
    exact ⟨some i, heq, rfl, nofun, List.filterMap_append ..⟩

theorem exec_onBus {bus : List BusEvent} (h : exec op c = .ok c') :
    OnBus op c bus c' (bus ++ busEvents op c c') := by
  by_cases hop : op = .operate
  · subst hop
    obtain ⟨r, hmc, -, hp, -⟩ := operate_mc h
    obtain ⟨v, evs, hs, hm⟩ := MemoryController.operate_passes hmc
    have hevs := Switches.evs hs
    unfold busEvents
    cases ht : c.mc.busTransfer c.clock with
    | none =>
        rw [ht] at hm
        cases hm
        change (if c'.mc.writeMode = c.mc.writeMode then _ else _) = _ at hevs
        simp only [Option.map_none, Option.toList_none, List.append_nil, hevs]
        exact .cycled rfl hs (hp rfl)
    | some t =>
        rw [ht] at hm
        cases hm with
        | moves hm hr =>
          rw [← hm.mode] at hevs
          change (if c'.mc.writeMode = c.mc.writeMode then _ else _) = _ at hevs
          simp only [Option.map_some, Option.toList_some, hevs, ← List.append_assoc]
          exact .moved rfl ht hs hm
  · have hevs : busEvents op c c' = [] := by
      cases op with
      | operate => exact absurd rfl hop
      | _ => rfl
    rw [hevs, List.append_nil]
    exact .waits hop (exec_waits hop h)

theorem writeEvents_transferred (clk : Clock) (mc : MemoryController) :
    (writeEvents clk mc).filterMap ControllerEvent.transferred? =
      (((mc.transfer clk).map Prod.fst).filter fun k => k = .wq).toList := by
  unfold writeEvents
  cases mc.transfer clk with
  | none => rfl
  | some t =>
      obtain ⟨k, i⟩ := t
      cases k <;> rfl

theorem answer_transferred (pkt : Packet) (n : Nat) :
    (c.answer pkt n).transferred = c.transferred := by
  cases n with
  | zero => rfl
  | succ n => exact (List.filterMap_append ..).trans (List.append_nil _)

/-- The bus carries what the log says, in its order. -/
theorem exec_transferred (h : exec op c = .ok c') :
    c'.transferred = c.transferred ++ (transfers (busEvents op c c')).map BusTransfer.kind := by
  have hadd : ∀ (k : QueueKind) (pkt : Packet) (o : AddOutcome),
      (addEvents c.mc k pkt o).filterMap ControllerEvent.transferred? = [] := by
    intro k pkt o
    cases o <;> unfold addEvents <;> dsimp only
    all_goals first | rfl | (split <;> rfl)
  cases op with
  | tick clk =>
      cases h
      exact (List.append_nil _).symm
  | operate =>
      obtain ⟨r, hmc, -, -, hlog⟩ := operate_mc h
      obtain ⟨v, evs, hs, hm⟩ := MemoryController.operate_passes hmc
      have hkind := MemoryController.busTransfer_kind c.clock c.mc
      have hswitch : transfers (if c'.mc.writeMode = c.mc.writeMode then [] else [.switched]) = [] := by
        split <;> rfl
      rw [hlog, writeEvents_transferred, ← hkind]
      unfold busEvents
      rw [transfers_append, hswitch, List.nil_append]
      cases ht : c.mc.busTransfer c.clock with
      | none =>
          rw [ht] at hm
          cases hm
          rfl
      | some t =>
          rw [ht] at hm
          cases hm with
          | moves hm hr =>
            obtain ⟨k, cycle⟩ := t
            rw [hr]
            cases k <;> rfl
  | addRq pkt =>
      cases h
      change (c.addRq pkt).transferred = c.transferred ++ []
      rw [List.append_nil]
      unfold addRq
      dsimp only
      have hlog : ∀ c₁ : Standalone, c₁.log = c.log ++ addEvents c.mc .rq pkt (c.mc.addRq pkt).2 →
          c₁.transferred = c.transferred := by
        intro c₁ hc₁
        unfold transferred
        rw [hc₁, List.filterMap_append, hadd, List.append_nil]
      split
      · rw [answer_transferred]
        exact hlog _ rfl
      · exact hlog _ rfl
  | addWq pkt =>
      cases h
      exact (List.filterMap_append ..).trans (congrArg _ (hadd ..))
  | returnCallback =>
      change c.returnCallback = .ok c' at h
      change _ = _ ++ []
      rw [List.append_nil]
      unfold returnCallback at h
      split at h
      · cases h
        exact answer_transferred (c := { c with answering := _ }) ..
      · split at h
        · cases h
        · cases h
          exact (List.filterMap_append ..).trans (List.append_nil _)
      · cases h
        rfl

/-! ## Transfers exclude one another -/

/-- The second transfer finds the bus returned, and turned around if it goes
the other way. -/
def Clear (dbusReturnTime : Nat) (a b : BusTransfer) : Prop :=
  a.cycle + dbusReturnTime + (if a.kind = b.kind then 0 else dramDbusTurnAroundTime) ≤ b.cycle

/-- The invariant: each switch since the last transfer has moved the cycle at
which the bus is free, and without one the direction is still the same. -/
structure Spaced (dbusReturnTime : Nat) (v : MemoryController.BusView) (bus : List BusEvent) :
    Prop where
  returnTime : v.returnTime = dbusReturnTime
  clear : (transfers bus).IsChain (Clear dbusReturnTime)
  available : ∀ t ∈ (transfers bus).getLast?,
    t.cycle + dbusReturnTime + dramDbusTurnAroundTime * switchesSince bus ≤ v.available
  kind : ∀ t ∈ (transfers bus).getLast?, switchesSince bus = 0 → t.kind = v.kind

variable {dbusReturnTime : Nat} {v v' : MemoryController.BusView} {bus evs : List BusEvent}

theorem Spaced.switches (h : Spaced dbusReturnTime v bus) (hs : MemoryController.Switches v v' evs) :
    Spaced dbusReturnTime v' (bus ++ evs) := by
  have hturn : ∀ b, Spaced dbusReturnTime
      { v with writeMode := b, available := v.available + dramDbusTurnAroundTime }
      (bus ++ [.switched]) := by
    intro b
    have htransfers : transfers (bus ++ [.switched]) = transfers bus := by
      rw [transfers_append]
      exact List.append_nil _
    refine ⟨h.returnTime, ?_, fun t ht => ?_, fun t ht hn => ?_⟩
    · rw [htransfers]
      exact h.clear
    · rw [htransfers] at ht
      have hfree := h.available t ht
      rw [switchesSince_switched, Nat.mul_succ, ← Nat.add_assoc]
      exact Nat.add_le_add_right hfree _
    · rw [switchesSince_switched] at hn
      cases hn
  cases hs with
  | stays =>
      rw [List.append_nil]
      exact h
  | toWrites => exact hturn true
  | toReads => exact hturn false

/-- What lets a transfer pass keeps the next one clear of it. -/
theorem Spaced.clears (h : Spaced dbusReturnTime v bus) {a t : BusTransfer}
    (ha : a ∈ (transfers bus).getLast?) (hm : MemoryController.Moves v v' t) :
    Clear dbusReturnTime a t := by
  have hfree := h.available a ha
  have hat := hm.free
  unfold Clear
  split
  · exact le_trans (Nat.add_le_add_left (Nat.zero_le _) _) (hfree.trans hat)
  · rename_i hne
    have hsome : switchesSince bus ≠ 0 := fun h0 => hne ((h.kind a ha h0).trans hm.kind.symm)
    have hmul : dramDbusTurnAroundTime * 1 ≤ dramDbusTurnAroundTime * switchesSince bus :=
      Nat.mul_le_mul_left _ (Nat.one_le_iff_ne_zero.mpr hsome)
    omega

theorem Spaced.moved (h : Spaced dbusReturnTime v bus) {t : BusTransfer}
    (hm : MemoryController.Moves v v' t) : Spaced dbusReturnTime v' (bus ++ [.moved t]) := by
  have htransfers : transfers (bus ++ [.moved t]) = transfers bus ++ [t] := transfers_append ..
  refine ⟨hm.returnTime.trans h.returnTime, ?_, fun a ha => ?_, fun a ha _ => ?_⟩
  · rw [htransfers, List.isChain_append]
    refine ⟨h.clear, List.isChain_singleton t, fun a ha b hb => ?_⟩
    obtain rfl : t = b := by simpa using hb
    exact h.clears ha hm
  · rw [htransfers, List.getLast?_concat] at ha
    cases ha
    rw [switchesSince_moved, hm.taken, h.returnTime]
    exact le_rfl
  · rw [htransfers, List.getLast?_concat] at ha
    cases ha
    rw [hm.kind]
    unfold MemoryController.BusView.kind
    rw [hm.mode]

theorem Spaced.onBus {bus' : List BusEvent} (h : Spaced dbusReturnTime c.mc.busView bus)
    (hb : OnBus op c bus c' bus') : Spaced dbusReturnTime c'.mc.busView bus' := by
  cases hb with
  | moved hop ht hs hm => exact (h.switches hs).moved hm
  | cycled hop hs hp => exact h.switches hs
  | waits hop hw =>
      refine ⟨hw.returnTime.trans h.returnTime, h.clear, fun t ht => ?_, fun t ht hn => ?_⟩
      · exact (h.available t ht).trans hw.available.ge
      · rw [h.kind t ht hn]
        unfold MemoryController.BusView.kind
        change (if c.mc.writeMode then _ else _) = if c'.mc.writeMode then _ else _
        rw [hw.mode]

/-- A step of the machine is a step on the bus. -/
theorem exec_step {bus' : List BusEvent} {ks : List ControllerOp}
    (he : Standalone.onBus.exec op (c, bus) = .ok ((c', bus'), ks)) :
    OnBus op c bus c' bus' ∧ exec op c = .ok c' ∧ bus' = bus ++ busEvents op c c' ∧ ks = [] := by
  obtain ⟨hstep, hbus⟩ := Worklist.watched_exec he
  obtain rfl : bus' = bus ++ busEvents op c c' := hbus
  obtain ⟨c₁, hexec, heq⟩ := ok_of_map hstep
  obtain ⟨rfl, rfl⟩ := Prod.mk.inj heq
  exact ⟨exec_onBus hexec, hexec, rfl, rfl⟩

end Standalone

/-- **Transfers exclude one another** on the data bus, whatever the upper
level does and whatever the clocks show: one ends before the next starts,
with the turn-around in between if it goes the other way. The record of the
bus is what the controller has handed over and written, in that order, and
one cycle adds at most one transfer. -/
theorem bus_exclusive {tRP tRCD tCAS dbusReturnTime : Nat} {clk : Clock}
    {x : Worklist.Config (Standalone × List BusEvent) ControllerOp}
    (h : Reaches Standalone.onBus (fun _ => True)
      (.new tRP tRCD tCAS dbusReturnTime clk, []) x) :
    (transfers x.2.2).IsChain (Standalone.Clear dbusReturnTime) ∧
      (transfers x.2.2).map BusTransfer.kind = x.2.1.transferred ∧
      ∀ c', x.2.1.operate = .ok c' → c'.transferred.length ≤ x.2.1.transferred.length + 1 := by
  have hinv : Standalone.Spaced dbusReturnTime x.2.1.mc.busView x.2.2 ∧
      (transfers x.2.2).map BusTransfer.kind = x.2.1.transferred := by
    refine h.invariant (P := fun x => Standalone.Spaced dbusReturnTime x.2.1.mc.busView x.2.2 ∧
      (transfers x.2.2).map BusTransfer.kind = x.2.1.transferred) ⟨?_, rfl⟩ ?_ ?_
    · exact ⟨rfl, .nil, by simp [transfers], by simp [transfers]⟩
    · rintro op ⟨c, bus⟩ - - - hinv
      change Standalone.Spaced dbusReturnTime c.mc.busView (bus ++ []) ∧
        (transfers (bus ++ [])).map BusTransfer.kind = c.transferred
      rw [List.append_nil]
      exact hinv
    · rintro op K ⟨c, bus⟩ ⟨c', bus'⟩ ks - - ⟨hs, hk⟩ he
      obtain ⟨hon, hexec, rfl, -⟩ := Standalone.exec_step he
      refine ⟨hs.onBus hon, ?_⟩
      change (transfers (bus ++ Standalone.busEvents op c c')).map _ = c'.transferred
      rw [Standalone.exec_transferred hexec, transfers_append, List.map_append]
      exact congrArg (· ++ _) hk
  refine ⟨hinv.1.clear, hinv.2, fun c' hc' => ?_⟩
  have hexec : Standalone.exec .operate x.2.1 = .ok c' := hc'
  rw [Standalone.exec_transferred hexec, List.length_append, List.length_map]
  refine Nat.add_le_add_left ?_ _
  unfold Standalone.busEvents
  rw [transfers_append, List.length_append, transfers_switched (by split <;> simp)]
  cases x.2.1.mc.busTransfer x.2.1.clock
  · exact Nat.zero_le _
  · exact le_rfl

/-- A read, and a write that has to wait until the bus has turned around. -/
theorem bus_exclusive_turn_around :
    ∃ x, Worklist.drive Standalone.onBus 2
        [.addRq (.stamped 5), .operate, .returnCallback, .addWq (.stamped 13), .operate,
          .tick (.at 34 (by decide)), .operate, .tick (.at 35 (by decide)), .operate]
        (.new 0 0 0 5 .zero, []) = some x ∧
      transfers x.2 = [⟨.rq, 0⟩, ⟨.wq, 35⟩] ∧ (transfers x.2).IsChain (Standalone.Clear 5) := by
  obtain ⟨x, hx, hbus⟩ := Option.map_eq_some_iff.mp (show (Worklist.drive Standalone.onBus 2
    [.addRq (.stamped 5), .operate, .returnCallback, .addWq (.stamped 13), .operate,
      .tick (.at 34 (by decide)), .operate, .tick (.at 35 (by decide)), .operate]
    (.new 0 0 0 5 .zero, [])).map (fun x => transfers x.2) = some [⟨.rq, 0⟩, ⟨.wq, 35⟩] from by
      decide +kernel)
  exact ⟨x, hx, hbus,
    (bus_exclusive (Worklist.drive_reaches (fun _ _ => trivial) .refl hx)).1⟩

/-! ## Switches between transfers -/

/-- All cores show one cycle. -/
def OneClock (clk : Clock) : Prop := ∀ cpu, clk.cycle cpu = clk.cycle 0

/-- The clock is set for all cores at once. -/
def ControllerOp.Timed : ControllerOp → Prop
  | .tick clk => OneClock clk
  | _ => True

namespace MemoryController

theorem busTransfer_cycle {clk : Clock} (hclk : OneClock clk) {mc : MemoryController}
    {t : BusTransfer} (h : mc.busTransfer clk = some t) : t.cycle = clk.cycle 0 := by
  have hproc : ∀ (k : QueueKind) (mc : MemoryController),
      processTransfer clk k mc = some t → t.cycle = clk.cycle 0 := by
    intro k mc h
    unfold processTransfer at h
    split at h
    · cases h
      exact hclk _
    · cases h
  unfold busTransfer at h
  split at h
  · cases h
  · exact hproc _ _ h

/-- How often the mode can still change before the next transfer: requests
may come in, none leaves. -/
def BusView.slack (v : BusView) : Nat :=
  if v.writeMode then
    if dramWriteLowWM ≤ v.writes then 0
    else if v.writes = 0 ∧ v.reads = 0 then 4
    else 2
  else if v.reads = 0 ∧ v.writes < dramWriteLowWM then 3
  else 1

variable {v v' : BusView} {evs : List BusEvent}

theorem BusView.slack_le (v : BusView) : v.slack ≤ 4 := by
  unfold slack
  split_ifs <;> decide

theorem BusView.slack_mono (hmode : v'.writeMode = v.writeMode) (hreads : v.reads ≤ v'.reads)
    (hwrites : v.writes ≤ v'.writes) : v'.slack ≤ v.slack := by
  unfold slack
  rw [hmode]
  split_ifs <;> omega

/-- A switch uses up slack: towards the writes there are some, and coming
back takes a read. -/
theorem Switches.slack (h : Switches v v' evs) : evs.length + v'.slack ≤ v.slack := by
  have hwm : dramWriteLowWM ≤ dramWriteHighWM := by decide
  have hpos : 0 < dramWriteLowWM := by decide
  cases h with
  | stays => exact (Nat.zero_add _).le
  | toWrites hmode h =>
      unfold BusView.slack
      simp only [hmode, if_true, Bool.false_eq_true, if_false, List.length_singleton]
      split_ifs <;> omega
  | toReads hmode h =>
      unfold BusView.slack
      simp only [hmode, if_true, Bool.false_eq_true, if_false, List.length_singleton]
      split_ifs <;> omega

theorem Switches.switched (h : Switches v v' evs) : ∀ ev ∈ evs, ev = .switched := by
  cases h <;> simp

theorem Switches.available (h : Switches v v' evs) :
    v'.available = v.available + dramDbusTurnAroundTime * evs.length ∧
      v'.returnTime = v.returnTime := by
  cases h <;> exact ⟨rfl, rfl⟩

end MemoryController

/-- The switches allowed since the last transfer, or since the start. -/
def allowance (bus : List BusEvent) : Nat := if transfers bus = [] then 3 else 4

/-- At no time were there more. -/
def Calm (bus : List BusEvent) : Prop := ∀ l, l <+: bus → switchesSince l ≤ allowance l

theorem Calm.concat {bus : List BusEvent} {ev : BusEvent} (h : Calm bus)
    (hev : switchesSince (bus ++ [ev]) ≤ allowance (bus ++ [ev])) : Calm (bus ++ [ev]) := by
  intro l hl
  rcases List.prefix_concat_iff.mp hl with rfl | hl
  · exact hev
  · exact h l hl

/-- The switches in a row. -/
theorem Calm.row {l₁ l₂ l₃ : List BusEvent} (h : Calm (l₁ ++ l₂ ++ l₃))
    (hl₂ : ∀ ev ∈ l₂, ev = .switched) : l₂.length ≤ allowance l₁ := by
  have hpre := h (l₁ ++ l₂) (List.prefix_append _ _)
  rw [switchesSince_append hl₂] at hpre
  have hsame : allowance (l₁ ++ l₂) = allowance l₁ := by
    unfold allowance
    rw [transfers_append, transfers_switched hl₂, List.append_nil]
  rw [hsame] at hpre
  exact le_trans (Nat.le_add_left _ _) hpre

section

variable {v v' : MemoryController.BusView} {bus evs : List BusEvent}

theorem allowance_switches (hs : MemoryController.Switches v v' evs) (bus : List BusEvent) :
    allowance (bus ++ evs) = allowance bus := by
  unfold allowance
  rw [transfers_append, transfers_switched hs.switched, List.append_nil]

theorem Calm.switches (h : Calm bus) (hs : MemoryController.Switches v v' evs)
    (hslack : switchesSince bus + v.slack ≤ allowance bus) :
    Calm (bus ++ evs) ∧ switchesSince (bus ++ evs) + v'.slack ≤ allowance (bus ++ evs) := by
  have hafter : switchesSince (bus ++ evs) + v'.slack ≤ allowance (bus ++ evs) := by
    rw [allowance_switches hs, switchesSince_append hs.switched]
    have huse := hs.slack
    omega
  refine ⟨?_, hafter⟩
  cases hs with
  | stays =>
      rw [List.append_nil]
      exact h
  | toWrites => exact h.concat (le_trans (Nat.le_add_right _ _) hafter)
  | toReads => exact h.concat (le_trans (Nat.le_add_right _ _) hafter)

end

namespace Standalone

/-- Time does not go back, and `operate` is not called from inside a
callback. -/
def paced (op : ControllerOp) (c : Standalone) : Bool :=
  match op with
  | .tick clk => decide (c.clock.cycle 0 ≤ clk.cycle 0)
  | .operate => c.answering.isEmpty && c.processing.isNone
  | _ => true

/-- The invariant: the switches so far and those still possible. -/
structure Unhurried (dbusReturnTime : Nat) (c : Standalone) (bus : List BusEvent) : Prop where
  calm : Calm bus
  slack : switchesSince bus + c.mc.busView.slack ≤ allowance bus
  handed : c.processing ≠ none → switchesSince bus = 0 ∧ transfers bus ≠ []
  returnTime : c.mc.dbusReturnTime = dbusReturnTime
  available : c.mc.dbusCycleAvailable
    ≤ c.clock.cycle 0 + dbusReturnTime + dramDbusTurnAroundTime * switchesSince bus
  clock : OneClock c.clock

variable {op : ControllerOp} {c c' : Standalone} {bus bus' evs : List BusEvent}
  {dbusReturnTime : Nat}

theorem Unhurried.operate (h : Unhurried dbusReturnTime c bus) (hp : c.processing = none)
    (hon : OnBus .operate c bus c' bus') (he : c.operate = .ok c') :
    Unhurried dbusReturnTime c' bus' := by
  obtain ⟨r, hmc, hclock, hproc, -⟩ := operate_mc he
  cases hon with
  | @moved v evs t hop ht hs hm =>
      obtain ⟨hcalm, hslack⟩ := h.calm.switches hs h.slack
      have hmoved : transfers (bus ++ evs ++ [.moved t]) ≠ [] := by
        rw [transfers_append]
        exact List.append_ne_nil_of_right_ne_nil _ (by simp [transfers, BusEvent.transfer?])
      have hallow : allowance (bus ++ evs ++ [.moved t]) = 4 := if_neg hmoved
      refine ⟨hcalm.concat ?_, ?_, fun _ => ⟨switchesSince_moved .., hmoved⟩, ?_, ?_, ?_⟩
      · rw [switchesSince_moved]
        exact Nat.zero_le _
      · rw [switchesSince_moved, hallow, Nat.zero_add]
        exact MemoryController.BusView.slack_le _
      · exact hm.returnTime.trans (hs.available.2.trans h.returnTime)
      · have hnow : t.cycle = c.clock.cycle 0 := MemoryController.busTransfer_cycle h.clock ht
        have hret : v.returnTime = dbusReturnTime := hs.available.2.trans h.returnTime
        have htaken := hm.taken
        rw [switchesSince_moved, hclock, ← hnow, ← hret]
        exact htaken.le
      · rw [hclock]
        exact h.clock
  | @cycled evs hop hs hp' =>
      obtain ⟨hcalm, hslack⟩ := h.calm.switches hs h.slack
      refine ⟨hcalm, hslack, fun hne => absurd (hp'.trans hp) hne,
        hs.available.2.trans h.returnTime, ?_, ?_⟩
      · have havail : c'.mc.dbusCycleAvailable = _ := hs.available.1
        have hfree := h.available
        rw [havail, hclock, switchesSince_append hs.switched, Nat.mul_add, ← Nat.add_assoc]
        exact Nat.add_le_add_right hfree _
      · rw [hclock]
        exact h.clock
  | waits hop => exact absurd rfl hop

theorem Unhurried.waits (h : Unhurried dbusReturnTime c bus) (hw : Waits op c c')
    (hclock : OneClock c'.clock) (honward : c.clock.cycle 0 ≤ c'.clock.cycle 0) :
    Unhurried dbusReturnTime c' bus where
  calm := h.calm
  slack := by
    cases hp : c.processing with
    | none =>
        have hless : c'.mc.busView.slack ≤ c.mc.busView.slack :=
          MemoryController.BusView.slack_mono hw.mode (hw.reads hp) hw.writes
        exact (Nat.add_le_add_left hless _).trans h.slack
    | some ib =>
        obtain ⟨h0, hne⟩ := h.handed (by simp [hp])
        rw [h0, Nat.zero_add, allowance, if_neg hne]
        exact MemoryController.BusView.slack_le _
  handed hp' := h.handed fun hp => hp' (hw.processing hp)
  returnTime := hw.returnTime.trans h.returnTime
  available := by
    rw [hw.available]
    have hfree := h.available
    omega
  clock := hclock

/-- Only `tick` moves the clock. -/
theorem exec_clock (hop : ∀ clk, op ≠ .tick clk) (h : exec op c = .ok c') : c'.clock = c.clock := by
  cases op with
  | tick clk => exact absurd rfl (hop clk)
  | operate => exact (operate_mc h).choose_spec.2.1
  | addRq pkt =>
      cases h
      unfold addRq
      dsimp only
      split
      · exact (answer_waits pkt _).2.2
      · rfl
  | addWq pkt =>
      cases h
      rfl
  | returnCallback =>
      change c.returnCallback = .ok c' at h
      unfold returnCallback at h
      split at h
      · cases h
        exact (answer_waits _ _).2.2
      · split at h
        · cases h
        · cases h
          rfl
      · cases h
        rfl

theorem Unhurried.exec (h : Unhurried dbusReturnTime c bus) (hallow : op.Timed)
    (hp : paced op c = true) (hon : OnBus op c bus c' bus') (he : Standalone.exec op c = .ok c') :
    Unhurried dbusReturnTime c' bus' := by
  by_cases hop : op = .operate
  · subst hop
    simp only [paced, Bool.and_eq_true, Option.isNone_iff_eq_none] at hp
    exact h.operate hp.2 hon he
  · cases hon with
    | moved hop' => exact absurd hop' hop
    | cycled hop' => exact absurd hop' hop
    | waits _ hw =>
      cases op with
      | tick clk =>
          cases he
          exact h.waits hw hallow (by simpa [paced] using hp)
      | _ =>
          have hclock := exec_clock (by simp) he
          exact h.waits hw (hclock ▸ h.clock) (congrArg (·.cycle 0) hclock).ge

end Standalone

/-- **Switching cannot keep the bus from its transfers.** Between two
transfers, and after the last, there are at most four mode switches, before
the first at most three, whatever comes in and whenever; so the bus is never
taken for longer than one transfer and four turn-arounds. -/
theorem switches_bounded {tRP tRCD tCAS dbusReturnTime : Nat} {clk : Clock} (hclk : OneClock clk)
    {x : Worklist.Config (Standalone × List BusEvent) ControllerOp}
    (h : Reaches (Standalone.onBus.gated fun op x => Standalone.paced op x.1) ControllerOp.Timed
      (.new tRP tRCD tCAS dbusReturnTime clk, []) x) :
    (∀ l₁ l₂ l₃, x.2.2 = l₁ ++ l₂ ++ l₃ → (∀ ev ∈ l₂, ev = .switched) →
      l₂.length ≤ 4 ∧ (transfers l₁ = [] → l₂.length ≤ 3)) ∧
      x.2.1.mc.dbusCycleAvailable
        ≤ x.2.1.clock.cycle 0 + dbusReturnTime + 4 * dramDbusTurnAroundTime := by
  have hinv : Standalone.Unhurried dbusReturnTime x.2.1 x.2.2 ∧ ∀ op K, x.1 = op :: K →
      op.Timed ∧ Standalone.paced op x.2.1 = true ∧ K = [] := by
    refine (ReachesIf.gated_invariant (M := Standalone.onBus)
      (P := fun x => Standalone.Unhurried dbusReturnTime x.2.1 x.2.2 ∧ ∀ op K, x.1 = op :: K →
        op.Timed ∧ Standalone.paced op x.2.1 = true ∧ K = []) ⟨⟨?_, ?_, ?_, ?_, ?_, ?_⟩, ?_⟩ ?_ ?_ h).2
    · intro l hl
      rw [List.prefix_nil.mp hl]
      exact Nat.zero_le _
    · exact Nat.le_refl 3
    · exact fun hne => absurd rfl hne
    · rfl
    · exact Nat.zero_le _
    · exact hclk
    · simp
    · rintro op ⟨c, bus⟩ ha hg - ⟨hu, -⟩
      refine ⟨?_, ?_⟩
      · change Standalone.Unhurried dbusReturnTime c (bus ++ [])
        rw [List.append_nil]
        exact hu
      · rintro op' K ⟨⟩
        exact ⟨ha, hg, rfl⟩
    · rintro op K ⟨c, bus⟩ ⟨c', bus'⟩ ks - - ⟨hu, hK⟩ he
      obtain ⟨ha, hg, rfl⟩ := hK op K rfl
      obtain ⟨hon, hexec, -, rfl⟩ := Standalone.exec_step he
      exact ⟨hu.exec ha hg hon hexec, by simp⟩
  have hall : ∀ bus, allowance bus ≤ 4 := fun bus => by
    unfold allowance
    split <;> decide
  refine ⟨fun l₁ l₂ l₃ hl hl₂ => ?_, ?_⟩
  · have hcalm := hinv.1.calm
    rw [hl] at hcalm
    have hrow := hcalm.row hl₂
    exact ⟨hrow.trans (hall _), fun h0 => hrow.trans (if_pos h0).le⟩
  · have hfree := hinv.1.available
    have hfew := (Nat.le_add_right _ _).trans (hinv.1.slack.trans (hall _))
    have hmul := Nat.mul_le_mul_left dramDbusTurnAroundTime hfew
    omega

/-- A write and a read that come in turn: two switches before the first
transfer. -/
theorem switches_bounded_alternating :
    ∃ x, Worklist.drive (Standalone.onBus.gated fun op x => Standalone.paced op x.1) 2
        [.addWq (.stamped 13), .operate, .addRq (.stamped 5), .operate, .operate]
        (.new 0 0 0 5 .zero, []) = some x ∧
      x.2 = [.switched, .switched] ∧ x.1.mc.dbusCycleAvailable = 60 ∧
      x.1.mc.dbusCycleAvailable ≤ x.1.clock.cycle 0 + 5 + 4 * dramDbusTurnAroundTime := by
  obtain ⟨x, hx, hbus⟩ := Option.map_eq_some_iff.mp (show (Worklist.drive
    (Standalone.onBus.gated fun op x => Standalone.paced op x.1) 2
    [.addWq (.stamped 13), .operate, .addRq (.stamped 5), .operate, .operate]
    (.new 0 0 0 5 .zero, [])).map (fun x => (x.2, x.1.mc.dbusCycleAvailable))
      = some ([.switched, .switched], 60) from by decide +kernel)
  have hclk : OneClock .zero := fun _ => rfl
  refine ⟨x, hx, (Prod.mk.inj hbus).1, (Prod.mk.inj hbus).2,
    (switches_bounded hclk (Worklist.drive_reaches ?_ .refl hx)).2⟩
  simp [ControllerOp.Timed]

end DramCache
