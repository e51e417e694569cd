import DramCache.Banks
import DramCache.Worklist

/-!
# A controller and its upper level

One `MEMORY_CONTROLLER` whose upper level is free: it calls `operate`,
`add_rq` and `add_wq` as it likes, the last two also from inside the
`return_data` it is being called with, and returns from that when it likes.
`ControllerOp` is one such action, and a run is a run of `standalone` with the upper
level held to the rules of `Standalone.permits` (`Standalone.Run`): packets have an
address, a queue is added to when it has room, and `operate` is not called
from inside a callback. The main result is `controller_consistent`.
-/

namespace DramCache

open Worklist (ReachesIf Reaches)

/-! ## The machine -/

/-- What the controller has done, in order. -/
inductive ControllerEvent where
  /-- `add_rq` or `add_wq` has put a packet into a slot. -/
  | stored (k : QueueKind) (index : Nat) (pkt : Packet)
  /-- ... has found its address in the same queue. -/
  | merged (k : QueueKind) (pkt : Packet)
  /-- `add_rq` has found its address in the write queue. -/
  | forwarded (pkt : Packet)
  /-- `add_rq` calls `return_data` for a read it has found there. -/
  | answered (pkt : Packet)
  /-- `process` calls `return_data` for the read in a slot. -/
  | returned (index : Nat) (pkt : Packet)
  /-- `process` frees the slot of a read. -/
  | freed (index : Nat) (pkt : Packet)
  /-- `process` transfers the write in a slot and frees it. -/
  | transferred (index : Nat) (pkt : Packet)

/-- A controller with the callbacks that are under way. `operate` is not
called from inside one, so the callback of `process` is the outermost. -/
structure Standalone where
  mc : MemoryController
  clock : Clock
  /-- The slot and the bank of the read `process` has handed over. -/
  processing : Option (Nat × Nat) := none
  /-- The reads `add_rq` is answering, innermost first, each with the calls
  of `return_data` that are still to be made for it. -/
  answering : List (Packet × Nat) := []
  log : List ControllerEvent := []

/-- What the upper level may do. -/
inductive ControllerOp where
  | tick (clk : Clock)
  | operate
  | addRq (pkt : Packet)
  | addWq (pkt : Packet)
  /-- Return from the innermost `return_data`. -/
  | returnCallback

namespace Standalone

/-- How often `return_data` is called for a read found in the write queue. -/
def callbackCount (pkt : Packet) : Nat := pkt.instruction.toNat + pkt.isData.toNat

/-- The rest of a forward: the next call of `return_data`, or the end. -/
def answer (c : Standalone) (pkt : Packet) : Nat → Standalone
  | 0 => { c with mc := c.mc.forwardDone }
  | n + 1 => { c with answering := (pkt, n) :: c.answering, log := c.log ++ [.answered pkt] }

/-- What `add_rq` or `add_wq` has done with a packet. -/
def addEvents (mc : MemoryController) (k : QueueKind) (pkt : Packet) :
    AddOutcome → List ControllerEvent
  | .inserted => match (mc.queue k).emptyIndex with
      | some i => [.stored k i pkt]
      | none => []
  | .merged _ => [.merged k pkt]
  | .forwarded _ => [.forwarded pkt]
  | _ => []

/-- `add_rq`. -/
def addRq (c : Standalone) (pkt : Packet) : Standalone :=
  match c.mc.addRq pkt with
  | (mc, o) =>
      let c : Standalone := { c with mc := mc, log := c.log ++ addEvents c.mc .rq pkt o }
      match o with
      | .forwarded _ => c.answer pkt (callbackCount pkt)
      | _ => c

/-- `add_wq`. -/
def addWq (c : Standalone) (pkt : Packet) : Standalone :=
  match c.mc.addWq pkt with
  | (mc, o) => { c with mc := mc, log := c.log ++ addEvents c.mc .wq pkt o }

/-- The write transferred in a cycle. -/
def writeEvents (clk : Clock) (mc : MemoryController) : List ControllerEvent :=
  match mc.transfer clk with
  | some (.wq, i) => [.transferred i (mc.wq.slotAt i).pkt]
  | _ => []

/-- `operate`, up to the callback of a finished read. -/
def operate (c : Standalone) : Except Assertion Standalone :=
  match c.mc.operate c.clock with
  | .error a => .error a
  | .ok (mc, none) => .ok { c with mc := mc, log := c.log ++ writeEvents c.clock c.mc }
  | .ok (mc, some i) =>
      let pkt := (mc.rq.slotAt i).pkt
      .ok { c with
        mc := mc, processing := some (i, dramGetBank pkt.address),
        log := c.log ++ [.returned i pkt] }

/-- The innermost `return_data` returns. -/
def returnCallback (c : Standalone) : Except Assertion Standalone :=
  match c.answering, c.processing with
  | (pkt, n) :: rest, _ => .ok (({ c with answering := rest } : Standalone).answer pkt n)
  | [], some (i, b) =>
      match c.mc.processReadDone i b with
      | .error a => .error a
      | .ok mc => .ok { c with
          mc := mc, processing := none, log := c.log ++ [.freed i (c.mc.rq.slotAt i).pkt] }
  | [], none => .ok c

def exec (op : ControllerOp) (c : Standalone) : Except Assertion Standalone :=
  match op with
  | .tick clk => .ok { c with clock := clk }
  | .operate => c.operate
  | .addRq pkt => .ok (c.addRq pkt)
  | .addWq pkt => .ok (c.addWq pkt)
  | .returnCallback => c.returnCallback

/-- The rules the upper level keeps to. -/
def permits (op : ControllerOp) (c : Standalone) : Bool :=
  match op with
  | .tick _ => true
  | .operate => c.answering.isEmpty && c.processing.isNone
  | .addRq pkt => decide (pkt.address ≠ 0) && decide (c.mc.rq.occupancy < c.mc.rq.size)
  | .addWq pkt => decide (pkt.address ≠ 0) && decide (c.mc.wq.occupancy < c.mc.wq.size)
  | .returnCallback => true

/-- A constructed controller at some time. -/
def new (tRP tRCD tCAS dbusReturnTime : Nat) (clk : Clock) : Standalone :=
  { mc := .new tRP tRCD tCAS dbusReturnTime, clock := clk }

end Standalone

/-- Each action of the upper level is one call. -/
def standalone : Worklist.Machine ControllerOp Standalone ControllerOp Assertion where
  enter op c := (c, [op])
  exec op c := (Standalone.exec op c).map fun c => (c, [])

/-! ## One action -/

namespace Standalone

/-- The invariant: the read in the middle of `process` still has its slot
and its bank. -/
structure Sound (c : Standalone) : Prop where
  ok : c.mc.Ok
  inStep : c.mc.InStep
  processing : ∀ i b, c.processing = some (i, b) → (c.mc.rq.slotAt i).scheduled = true ∧
    dramGetBank (c.mc.rq.slotAt i).pkt.address = b

/-- What an action does to the slots, and which events say so. -/
inductive Effect (c c' : Standalone) : List ControllerEvent → Prop
  /-- No slot changes. -/
  | aside {evs : List ControllerEvent} (h : c'.mc.content = c.mc.content)
      (hp : c'.processing = c.processing)
      (hevs : ∀ ev ∈ evs, (∃ k pkt, ev = .merged k pkt) ∨ (∃ pkt, ev = .forwarded pkt) ∨
        ∃ pkt, ev = .answered pkt) : Effect c c' evs
  | stored {k : QueueKind} {i : Nat} {pkt : Packet} (h0 : (c.mc.content (k, i)).address = 0)
      (h : c'.mc.content = Function.update c.mc.content (k, i) pkt.payload)
      (hpkt : pkt.address ≠ 0) (hp : c'.processing = c.processing) : Effect c c' [.stored k i pkt]
  | returned {i b : Nat} {pkt : Packet} (h : c'.mc.content = c.mc.content)
      (hi : (c.mc.content (.rq, i)).address ≠ 0) (hpkt : pkt.payload = c.mc.content (.rq, i))
      (hp : c.processing = none) (hp' : c'.processing = some (i, b)) : Effect c c' [.returned i pkt]
  | freed {i b : Nat} {pkt : Packet}
      (h : c'.mc.content = Function.update c.mc.content (.rq, i) Slot.empty.pkt.payload)
      (hpkt : pkt.payload = c.mc.content (.rq, i)) (hp : c.processing = some (i, b))
      (hp' : c'.processing = none) : Effect c c' [.freed i pkt]
  | transferred {i : Nat} {pkt : Packet}
      (h : c'.mc.content = Function.update c.mc.content (.wq, i) Slot.empty.pkt.payload)
      (hi : (c.mc.content (.wq, i)).address ≠ 0) (hpkt : pkt.payload = c.mc.content (.wq, i))
      (hp : c'.processing = c.processing) : Effect c c' [.transferred i pkt]

/-- A slot that is being answered is not the one a packet is stored in. -/
theorem Sound.of_content {c c' : Standalone} (h : c.Sound) (hok : c'.mc.Ok)
    (hstep : c'.mc.InStep) (hp : c'.processing = c.processing)
    (hslot : ∀ i b, c.processing = some (i, b) → c'.mc.rq.slotAt i = c.mc.rq.slotAt i) :
    c'.Sound := by
  refine ⟨hok, hstep, fun i b hib => ?_⟩
  rw [hp] at hib
  rw [hslot i b hib]
  exact h.processing i b hib

theorem answer_spec {c : Standalone} (h : c.Sound) (pkt : Packet) (n : Nat) :
    ∃ evs, (c.answer pkt n).log = c.log ++ evs ∧ (c.answer pkt n).Sound ∧
      (c.answer pkt n).mc.content = c.mc.content ∧
      (c.answer pkt n).processing = c.processing ∧ ∀ ev ∈ evs, ev = .answered pkt := by
  cases n with
  | zero =>
      obtain ⟨hstep, hcontent⟩ := MemoryController.forwardDone_books h.inStep
      exact ⟨[], (List.append_nil _).symm,
        ⟨MemoryController.forwardDone_ok h.ok, hstep, h.processing⟩, hcontent, rfl, by simp⟩
  | succ n =>
      exact ⟨[.answered pkt], rfl, ⟨h.ok, h.inStep, h.processing⟩, rfl, rfl, by simp⟩

/-- Storing a packet leaves the slot alone that is being answered. -/
theorem stored_spec {c c' : Standalone} (h : c.Sound) (k : QueueKind) {pkt : Packet}
    (hpkt : pkt.address ≠ 0) (hroom : (c.mc.queue k).occupancy < (c.mc.queue k).size)
    (hnone : (c.mc.queue k).checkDramQueue pkt = none)
    (hmc : c'.mc = c.mc.setQueue k ((c.mc.queue k).insert pkt))
    (hlog : c'.log = c.log ++ addEvents c.mc k pkt
      (if (c.mc.queue k).emptyIndex.isSome then .inserted else .dropped))
    (hp : c'.processing = c.processing) :
    ∃ evs, c'.log = c.log ++ evs ∧ c'.Sound ∧ Effect c c' evs := by
  obtain ⟨i, hi, h0, hok, hstep, hset, hcontent⟩ :=
    MemoryController.store_books h.inStep h.ok k hroom hnone
  rw [← hmc] at hok hstep hset hcontent
  refine ⟨[.stored k i pkt], ?_, ?_, .stored h0 hcontent hpkt hp⟩
  · simpa [addEvents, hi] using hlog
  · refine h.of_content hok hstep hp fun j b hj => ?_
    have hne : (.rq, j) ≠ (k, i) := by
      rintro heq
      obtain ⟨rfl, rfl⟩ := Prod.mk.inj heq
      exact h.ok.rq.toSane.used_of_scheduled (h.processing j b hj).1 h0
    exact hset.other hne

theorem addRq_spec {c : Standalone} (h : c.Sound) {pkt : Packet} (hpkt : pkt.address ≠ 0)
    (hroom : c.mc.rq.occupancy < c.mc.rq.size) : ∃ evs, (c.addRq pkt).log = c.log ++ evs ∧
      (c.addRq pkt).Sound ∧ Effect c (c.addRq pkt) evs := by
  unfold addRq MemoryController.addRq
  cases hwq : c.mc.wq.checkDramQueue pkt with
  | some i =>
      have hlogged : ({ c with log := c.log ++ [.forwarded pkt] } : Standalone).Sound :=
        ⟨h.ok, h.inStep, h.processing⟩
      obtain ⟨evs, hlog, hs, hcontent, hp, hevs⟩ := answer_spec hlogged pkt (callbackCount pkt)
      refine ⟨.forwarded pkt :: evs, ?_, hs, .aside hcontent hp fun ev hev => ?_⟩
      · rw [List.append_cons]
        exact hlog
      · rcases List.mem_cons.mp hev with rfl | hev
        · exact .inr (.inl ⟨pkt, rfl⟩)
        · exact .inr (.inr ⟨pkt, hevs ev hev⟩)
  | none =>
      cases hrq : c.mc.rq.checkDramQueue pkt with
      | some i => exact ⟨[.merged .rq pkt], rfl, ⟨h.ok, h.inStep, h.processing⟩, .aside rfl rfl (by simp)⟩
      | none =>
          dsimp only
          split
          · rename_i heq
            split at heq <;> cases heq
          · exact stored_spec h .rq hpkt hroom hrq rfl rfl rfl

theorem addWq_spec {c : Standalone} (h : c.Sound) {pkt : Packet} (hpkt : pkt.address ≠ 0)
    (hroom : c.mc.wq.occupancy < c.mc.wq.size) : ∃ evs, (c.addWq pkt).log = c.log ++ evs ∧
      (c.addWq pkt).Sound ∧ Effect c (c.addWq pkt) evs := by
  unfold addWq MemoryController.addWq
  cases hwq : c.mc.wq.checkDramQueue pkt with
  | some i => exact ⟨[.merged .wq pkt], rfl, ⟨h.ok, h.inStep, h.processing⟩, .aside rfl rfl (by simp)⟩
  | none => exact stored_spec h .wq hpkt hroom hwq rfl rfl rfl

theorem operate_spec {c : Standalone} (h : c.Sound) (hp : c.processing = none) :
    ∃ c' evs, c.operate = .ok c' ∧ c'.log = c.log ++ evs ∧ c'.Sound ∧ Effect c c' evs := by
  obtain ⟨⟨mc, r⟩, ho, hstep, htr⟩ := MemoryController.operate_books h.inStep h.ok c.clock
  have hok := (MemoryController.operate_spec h.ok ho).1
  unfold operate
  rw [ho]
  have hnone : ∀ evs, ({ c with mc := mc, log := c.log ++ evs } : Standalone).Sound := fun evs =>
    ⟨hok, hstep, fun i b hib => by rw [show c.processing = some (i, b) from hib] at hp; cases hp⟩
  cases htr' : c.mc.transfer c.clock with
  | none =>
      rw [htr'] at htr
      cases htr with
      | none hcontent =>
        refine ⟨_, [], rfl, ?_, hnone _, .aside hcontent rfl (by simp)⟩
        simp [writeEvents, htr']
  | some t =>
      rw [htr'] at htr
      cases htr with
      | written hi hcontent =>
          refine ⟨_, _, rfl, rfl, hnone _, ?_⟩
          simp only [writeEvents, htr']
          exact .transferred hcontent hi rfl rfl
      | handed hi hs hcontent =>
          refine ⟨_, _, rfl, rfl, ⟨hok, hstep, ?_⟩, .returned hcontent hi ?_ hp rfl⟩
          · rintro i b ⟨⟩
            exact ⟨hs, rfl⟩
          · rename_i i
            exact congrFun hcontent (.rq, i)

theorem returnCallback_spec {c : Standalone} (h : c.Sound) :
    ∃ c' evs, c.returnCallback = .ok c' ∧ c'.log = c.log ++ evs ∧ c'.Sound ∧ Effect c c' evs := by
  unfold returnCallback
  cases ha : c.answering with
  | cons front rest =>
      obtain ⟨pkt, n⟩ := front
      have hpop : ({ c with answering := rest } : Standalone).Sound :=
        ⟨h.ok, h.inStep, h.processing⟩
      obtain ⟨evs, hlog, hs, hcontent, hp, hevs⟩ := answer_spec hpop pkt n
      exact ⟨_, evs, rfl, hlog, hs, .aside hcontent hp fun ev hev => .inr (.inr ⟨pkt, hevs ev hev⟩)⟩
  | nil =>
      cases hp : c.processing with
      | none => exact ⟨c, [], rfl, (List.append_nil _).symm, h, .aside rfl rfl (by simp)⟩
      | some ib =>
          obtain ⟨i, b⟩ := ib
          obtain ⟨hs, hb⟩ := h.processing i b hp
          obtain ⟨mc, hdone, hstep, hcontent⟩ :=
            MemoryController.processReadDone_books h.inStep h.ok hs hb
          have hok := (MemoryController.processReadDone_spec h.ok
            (h.ok.rq.toSane.used_of_scheduled hs) hdone).1
          simp only [hdone]
          exact ⟨_, _, rfl, rfl, ⟨hok, hstep, by simp⟩, .freed hcontent rfl hp rfl⟩

/-- **One action**: no assertion fails, and the slots change as the events
say. -/
theorem exec_spec {c : Standalone} (h : c.Sound) {op : ControllerOp} (hp : permits op c = true) :
    ∃ c' evs, exec op c = .ok c' ∧ c'.log = c.log ++ evs ∧ c'.Sound ∧ Effect c c' evs := by
  cases op with
  | tick clk =>
      exact ⟨_, [], rfl, (List.append_nil _).symm, ⟨h.ok, h.inStep, h.processing⟩,
        .aside rfl rfl (by simp)⟩
  | operate =>
      refine operate_spec h ?_
      simp only [permits, Bool.and_eq_true, Option.isNone_iff_eq_none] at hp
      exact hp.2
  | addRq pkt =>
      simp only [permits, Bool.and_eq_true, decide_eq_true_eq] at hp
      obtain ⟨evs, hlog, hs, heff⟩ := addRq_spec h hp.1 hp.2
      exact ⟨_, evs, rfl, hlog, hs, heff⟩
  | addWq pkt =>
      simp only [permits, Bool.and_eq_true, decide_eq_true_eq] at hp
      obtain ⟨evs, hlog, hs, heff⟩ := addWq_spec h hp.1 hp.2
      exact ⟨_, evs, rfl, hlog, hs, heff⟩
  | returnCallback => exact returnCallback_spec h

/-! ## Runs -/

/-- Configurations of the runs: a controller as constructed, and an upper
level that keeps to the rules. -/
def Run (tRP tRCD tCAS dbusReturnTime : Nat) (clk : Clock)
    (x : Worklist.Config Standalone ControllerOp) : Prop :=
  Reaches (standalone.gated permits) (fun _ => True) (new tRP tRCD tCAS dbusReturnTime clk) x

/-- The invariant rule for the runs: an action keeps what its effect keeps,
and the action waiting is a permitted one. -/
theorem Run.invariant {tRP tRCD tCAS dbusReturnTime : Nat} {clk : Clock}
    {P : Standalone → Prop} (h0 : P (new tRP tRCD tCAS dbusReturnTime clk))
    (hstep : ∀ op c c' evs, c.Sound → P c → exec op c = .ok c' → c'.log = c.log ++ evs →
      Effect c c' evs → P c')
    {x : Worklist.Config Standalone ControllerOp} (h : Run tRP tRCD tCAS dbusReturnTime clk x) :
    x.2.Sound ∧ P x.2 ∧ ∀ op K, x.1 = op :: K → permits op x.2 = true ∧ K = [] := by
  have hnew : (new tRP tRCD tCAS dbusReturnTime clk).Sound :=
    ⟨MemoryController.new_ok .., MemoryController.new_inStep .., fun i b hib => by cases hib⟩
  refine (ReachesIf.gated_invariant (M := standalone) (P := fun x => x.2.Sound ∧ P x.2 ∧
    ∀ op K, x.1 = op :: K → permits op x.2 = true ∧ K = []) ⟨hnew, h0, by simp⟩ ?_ ?_ h).2
  · rintro op c - hp - ⟨hs, hc, -⟩
    refine ⟨hs, hc, ?_⟩
    rintro op' K ⟨⟩
    exact ⟨hp, rfl⟩
  · rintro op K c c' ks - - ⟨hs, hc, hK⟩ he
    obtain ⟨hp, rfl⟩ := hK op K rfl
    obtain ⟨c₁, evs, hexec, hlog, hs', heff⟩ := exec_spec hs hp
    obtain ⟨c₂, he, heq⟩ := ok_of_map he
    rw [hexec] at he
    cases he
    cases heq
    exact ⟨hs', hstep op _ _ _ hs hc hexec hlog heff, by simp⟩

end Standalone

namespace MemoryController

/-- What the scheduler keeps true. -/
structure Consistent (mc : MemoryController) : Prop where
  occupancy : ∀ k, (mc.queue k).occupancy
    = (mc.queue k).entry.countP fun sl => decide (sl.pkt.address ≠ 0)
  room : ∀ k, (mc.queue k).occupancy ≤ (mc.queue k).size
  distinct : ∀ k i j, ((mc.queue k).slotAt i).pkt.address ≠ 0 →
    ((mc.queue k).slotAt i).pkt.address = ((mc.queue k).slotAt j).pkt.address → i = j
  used : ∀ k i, ((mc.queue k).slotAt i).scheduled = true →
    ((mc.queue k).slotAt i).pkt.address ≠ 0
  /-- Scheduled slots and working banks are in bijection. -/
  banks : Set.BijOn
    (fun x : QueueKind × Nat => dramGetBank ((mc.queue x.1).slotAt x.2).pkt.address)
    {x | ((mc.queue x.1).slotAt x.2).scheduled = true} {b | (mc.bankRequest b).working = true}
  named : ∀ k i, ((mc.queue k).slotAt i).scheduled = true →
    (mc.bankOf ((mc.queue k).slotAt i)).requestIndex = some i ∧
      (mc.bankOf ((mc.queue k).slotAt i)).isWrite = decide (k = .wq) ∧
      (mc.bankOf ((mc.queue k).slotAt i)).isRead = decide (k = .rq)
  counted : ∀ k, mc.scheduledIn k = (mc.queue k).entry.countP (·.scheduled)
  mode : ∀ k i, ((mc.queue k).slotAt i).scheduled = true →
    k = if mc.writeMode then .wq else .rq
  /-- `cycle_available - tCAS` does not wrap. -/
  unwrapped : ∀ k i, ((mc.queue k).slotAt i).scheduled = true →
    mc.tCAS ≤ (mc.bankOf ((mc.queue k).slotAt i)).cycleAvailable

theorem InStep.consistent {mc : MemoryController} (h : mc.InStep) (hok : mc.Ok) :
    mc.Consistent where
  occupancy k := by
    rw [(hok.queue k).occupancy, PacketQueue.held, Slots.card_used, PacketQueue.lines,
      List.countP_map]
    rfl
  room k := by
    rw [(hok.queue k).occupancy, PacketQueue.held, Slots.card_used, ← (hok.queue k).length,
      ← PacketQueue.lines_length]
    exact List.countP_le_length
  distinct k i j hi hij := by
    refine Slots.used_inj (hok.queue k).nodup hi (PacketQueue.slotAt_line hi) ?_
    rw [hij] at hi ⊢
    exact PacketQueue.slotAt_line hi
  used k i hs := (hok.queue k).toSane.used_of_scheduled hs
  banks := by
    have hplaced : ∀ x, (mc.placed x).isSome = true ↔ ((mc.queue x.1).slotAt x.2).scheduled = true := by
      intro x
      unfold placed
      split
      · rename_i hs
        simpa using hs
      · rename_i hs
        simpa using hs
    have hworking : ∀ b, (mc.bankRequest b).serving.isSome = (mc.bankRequest b).working :=
      fun b => (h.coherent b).serving_isSome
    let bank (x : QueueKind × Nat) : Nat := dramGetBank ((mc.queue x.1).slotAt x.2).pkt.address
    have hbank : ∀ x b, mc.placed x = some b → bank x = b := by
      intro x b hx
      unfold placed at hx
      split at hx
      · exact Option.some.inj hx
      · cases hx
    have hbij := h.matched.bijOn hbank
    simpa only [hplaced, hworking] using hbij
  named k i hs := by
    obtain ⟨-, hidx, hw, hr, -⟩ := h.bank hs rfl
    exact ⟨hidx, hw, hr⟩
  counted := h.counts
  mode k i hs := by
    have hk := h.served hs
    unfold offQueue at hk
    cases hm : mc.writeMode
    · cases k
      · rfl
      · exact absurd (by rw [hm]; rfl) hk
    · cases k
      · exact absurd (by rw [hm]; rfl) hk
      · rfl
  unwrapped k i hs := (h.bank hs rfl).2.2.2.2

end MemoryController

/-- **The scheduler invariant.** Whatever the upper level does within the
rules, inside callbacks and outside, the queues, the banks and the counters
agree, and no assertion of the controller fails. -/
theorem controller_consistent {tRP tRCD tCAS dbusReturnTime : Nat} {clk : Clock}
    {x : Worklist.Config Standalone ControllerOp}
    (h : Standalone.Run tRP tRCD tCAS dbusReturnTime clk x) :
    x.2.mc.Consistent ∧ ∀ op K, x.1 = op :: K → ∃ c, Standalone.exec op x.2 = .ok c := by
  obtain ⟨hs, -, hK⟩ := h.invariant (P := fun _ => True) trivial fun _ _ _ _ _ _ _ _ _ => trivial
  refine ⟨hs.inStep.consistent hs.ok, fun op K hop => ?_⟩
  obtain ⟨c, -, hc, -⟩ := Standalone.exec_spec hs (hK op K hop).1
  exact ⟨c, hc⟩

/-- A read of a line, stamped with cycle 0. -/
def Packet.stamped (address : Nat) : Packet := { Packet.readOf address with eventCycle := 0 }

/-- A read whose callback adds a write is still in its slot. -/
theorem controller_consistent_callback :
    ∃ c, Worklist.drive (standalone.gated Standalone.permits) 2
        [.addRq (.stamped 5), .operate, .addWq (.stamped 13)] (.new 0 0 0 0 .zero) = some c ∧
      c.processing = some (0, 5) ∧ c.mc.scheduledReads = 1 ∧ c.mc.Consistent ∧
      ∃ c', Standalone.exec .returnCallback c = .ok c' := by
  obtain ⟨c, hc, hconf⟩ := Option.map_eq_some_iff.mp (show (Worklist.drive
    (standalone.gated Standalone.permits) 2
    [.addRq (.stamped 5), .operate, .addWq (.stamped 13)] (.new 0 0 0 0 .zero)).map
      (fun c => (c.processing, c.mc.scheduledReads)) = some (some (0, 5), 1) from by
        decide +kernel)
  have hrun : Standalone.Run 0 0 0 0 .zero ([], c) :=
    Worklist.drive_reaches (fun _ _ => trivial) .refl hc
  have hreturn : Standalone.Run 0 0 0 0 .zero
      (((standalone.gated Standalone.permits).enter .returnCallback c).2,
        ((standalone.gated Standalone.permits).enter .returnCallback c).1) :=
    ReachesIf.enter hrun trivial trivial
  obtain ⟨hconsistent, hexec⟩ := controller_consistent hreturn
  exact ⟨c, hc, (Prod.mk.inj hconf).1, (Prod.mk.inj hconf).2, hconsistent,
    hexec .returnCallback [] rfl⟩

end DramCache
