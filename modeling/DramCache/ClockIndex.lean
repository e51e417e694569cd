import DramCache.NextSlots
import DramCache.Bus

/-!
# Indexing the clocks

Before it schedules or processes anything, `operate` reads the clock of the
CPU that the entry in a cached slot belongs to. An empty slot carries
`NUM_CPUS`, one past the last clock, and a constructed queue caches slot 0:
a controller that is operated before anything has been stored in it reads
beyond the array, in every cycle, until the first packet is stored. From then
on every clock it reads is one of a packet (`clock_index_in_bounds`).
-/

namespace DramCache

open Worklist (ReachesIf Reaches)

namespace MemoryController

/-! ## The clocks a cycle reads -/

/-- `current_core_cycle[]` is indexed by the `cpu` of these slots in
`reset_remain_requests`; the loop body leaves the slots it has still to visit
alone. -/
def resetLookups (q : PacketQueue) : List Slot := q.entry.filter (·.scheduled)

/-- ... in `operate` by way of the mode switch: the queue served so far is
reset. -/
def switchLookups (clk : Clock) (mc : MemoryController) : List Slot :=
  match mc.switchMode clk with
  | .error _ => resetLookups (mc.queue mc.servedQueue)
  | .ok mc' =>
      if mc'.writeMode = mc.writeMode then [] else resetLookups (mc.queue mc.servedQueue)

/-- ... in `schedule`, for the entry it schedules. -/
def scheduleLookups (mc : MemoryController) (q : PacketQueue) : List Slot :=
  if mc.scheduleSlot q < q.size then [q.slotAt (mc.scheduleSlot q)] else []

/-- ... in `process`, for the entry next to be processed. -/
def processLookups (q : PacketQueue) : List Slot :=
  if q.nextProcessIndex = q.size then [] else [q.slotAt q.nextProcessIndex]

/-- ... in `operate` and what it calls on the queue it serves. -/
def serveLookups (clk : Clock) (k : QueueKind) (mc : MemoryController) : List Slot :=
  let q := mc.queue k
  let q' := (mc.scheduleNew clk k).queue k
  (if q.nextScheduleIndex < q.size then [q.slotAt q.nextScheduleIndex] else [])
    ++ (if scheduleReady clk q then mc.scheduleLookups q else [])
    ++ (if q'.nextProcessIndex < q'.size then [q'.slotAt q'.nextProcessIndex] else [])
    ++ (if processReady clk q' then processLookups q' else [])

/-- ... in one call of `operate`. A slot is listed once where the source
evaluates its clock several times. -/
def operateLookups (clk : Clock) (mc : MemoryController) : List Slot :=
  mc.switchLookups clk ++
    match mc.switchMode clk with
    | .error _ => []
    | .ok mc => mc.serveLookups clk mc.servedQueue

/-! ## Slots in use -/

open PacketQueue (Unread ScheduleFresh ProcessFresh)

variable {mc mc' : MemoryController} {clk : Clock} {k : QueueKind}

/-- The packets held belong to CPUs there are. -/
def CpusInRange (mc : MemoryController) : Prop :=
  ∀ x, (mc.content x).address ≠ 0 → (mc.content x).cpu < numCpus

/-- A slot in use, of a CPU there is. -/
def Indexable (sl : Slot) : Prop := sl.pkt.address ≠ 0 ∧ sl.pkt.cpu < numCpus

theorem CpusInRange.slot (h : mc.CpusInRange) {i : Nat}
    (hi : ((mc.queue k).slotAt i).pkt.address ≠ 0) : Indexable ((mc.queue k).slotAt i) :=
  ⟨hi, h (k, i) hi⟩

theorem CpusInRange.resetLookups (h : mc.CpusInRange) (hs : mc.Sane) (k : QueueKind) :
    ∀ sl ∈ resetLookups (mc.queue k), Indexable sl := by
  intro sl hsl
  obtain ⟨hmem, hsched⟩ := List.mem_filter.mp hsl
  obtain ⟨i, hi⟩ := List.getElem?_of_mem hmem
  obtain rfl := PacketQueue.slotAt_eq hi
  exact h.slot ((hs.queue k).used_of_scheduled hsched)

/-- The cached slots name entries. -/
structure Live (q : PacketQueue) : Prop where
  schedule : q.nextScheduleIndex < q.size → (q.slotAt q.nextScheduleIndex).pkt.address ≠ 0
  process : q.nextProcessIndex < q.size → (q.slotAt q.nextProcessIndex).pkt.address ≠ 0

/-- A queue that is as constructed and yet refreshed has no slots. -/
theorem size_eq_zero_of_unread {q : PacketQueue} (hu : q.Unread) (hs : q.ScheduleFresh) :
    q.size = 0 := by
  rcases q.minSlot_cases PacketQueue.waits with ⟨hmin, -⟩ | ⟨i, hold, -⟩
  · exact (Prod.mk.inj (hmin.symm.trans hs)).2.trans hu.schedule.1
  · have hw := hold.selected
    rw [hu.empty] at hw
    cases hw

theorem live_of_fresh {q : PacketQueue} (hq : q.Sane) (hs : q.ScheduleFresh)
    (hp : q.ProcessFresh ∨ q.Unprocessed) : Live q := by
  constructor
  · intro hlt
    rcases q.minSlot_cases PacketQueue.waits with ⟨hmin, -⟩ | ⟨i, hold, hmin⟩
    · have heq := Prod.mk.inj (hmin.symm.trans hs)
      omega
    · rw [← (Prod.mk.inj (hmin.symm.trans hs)).2]
      exact (PacketQueue.waits_iff.mp hold.selected).1
  · intro hlt
    rcases hp with hp | hp
    · rcases q.minSlot_cases (·.scheduled) with ⟨hmin, -⟩ | ⟨i, hold, hmin⟩
      · have heq := Prod.mk.inj (hmin.symm.trans hp)
        omega
      · rw [← (Prod.mk.inj (hmin.symm.trans hp)).2]
        exact hq.used_of_scheduled hold.selected
    · -- slot 0 is in use, or the queue would not have been refreshed
      rcases hp.first with h0 | hu
      · rw [hp.process.1]
        exact h0
      · rw [size_eq_zero_of_unread hu hs] at hlt
        omega

theorem CpusInRange.of_content (h : mc.CpusInRange) (heq : mc'.content = mc.content) :
    mc'.CpusInRange := by
  unfold CpusInRange
  rw [heq]
  exact h

theorem scheduleNew_books (h : mc.InStep) (clk : Clock) (hk : mc.offQueue ≠ k) :
    (mc.scheduleNew clk k).InStep ∧ (mc.scheduleNew clk k).content = mc.content := by
  unfold scheduleNew
  split
  · obtain ⟨hstep, hcontent, -⟩ := schedule_books h clk hk
    exact ⟨hstep, hcontent⟩
  · exact ⟨h, rfl⟩

theorem offQueue_ne_servedQueue (mc : MemoryController) : mc.offQueue ≠ mc.servedQueue := by
  unfold offQueue servedQueue
  split <;> decide

/-- On live slots, before the scheduling and after it, every clock read is
one of a packet. -/
theorem serveLookups_indexable (h : mc.InStep) (hin : mc.CpusInRange) (hlive : Live (mc.queue k))
    (hlive' : Live ((mc.scheduleNew clk k).queue k)) (hk : mc.offQueue ≠ k) :
    ∀ sl ∈ mc.serveLookups clk k, Indexable sl := by
  have hin' := hin.of_content (scheduleNew_books h clk hk).2
  intro sl hsl
  unfold serveLookups at hsl
  dsimp only at hsl
  rcases List.mem_append.mp hsl with hsl | hsl
  · rcases List.mem_append.mp hsl with hsl | hsl
    · rcases List.mem_append.mp hsl with hsl | hsl
      · split at hsl
        · rename_i hlt
          obtain rfl := List.mem_singleton.mp hsl
          exact hin.slot (hlive.schedule hlt)
        · cases hsl
      · split at hsl
        · unfold scheduleLookups at hsl
          split at hsl
          · rename_i hlt
            obtain rfl := List.mem_singleton.mp hsl
            exact hin.slot (schedulable_iff.mp (scheduleSlot_schedulable hlt)).2.1
          · cases hsl
        · cases hsl
    · split at hsl
      · rename_i hlt
        obtain rfl := List.mem_singleton.mp hsl
        exact hin'.slot (hlive'.process hlt)
      · cases hsl
  · split at hsl
    · rename_i hready
      unfold processLookups at hsl
      split at hsl
      · cases hsl
      · obtain rfl := List.mem_singleton.mp hsl
        refine hin'.slot (hlive'.process ?_)
        simp only [processReady, Bool.and_eq_true, decide_eq_true_eq] at hready
        exact hready.1
    · cases hsl

end MemoryController

namespace Standalone

open MemoryController (CachedIn CpusInRange Indexable Live)

variable {c c' : Standalone} {op : ControllerOp}

/-! ## Before and after the first packet -/

/-- A queue is refreshed before it is served: the write queue when the write
mode is entered, the read queue by its first packet or by a mode switch, which
the first write brings about. -/
structure Started (c : Standalone) : Prop where
  cached : c.Minimal (fun k => k = .wq ∧ c.mc.writeMode = true)
    (fun k => k = .wq ∧ c.mc.writeMode = true)
  waiting : ¬ c.mc.rq.ScheduleFresh → c.mc.writeMode = false ∧
    (c.mc.wq.occupancy = 0 → ¬ c.Stored .wq)
  cpus : c.mc.CpusInRange
  logged : ∀ k i pkt, .stored k i pkt ∈ c.log → pkt.cpu < numCpus

/-- The packets the upper level sends belong to CPUs there are. -/
def InRange : ControllerOp → Prop
  | .addRq pkt => pkt.cpu < numCpus
  | .addWq pkt => pkt.cpu < numCpus
  | _ => True

theorem addEvents_stored {mc : MemoryController} {k k' : QueueKind} {pkt pkt' : Packet}
    {o : AddOutcome} {i : Nat} (h : .stored k' i pkt' ∈ addEvents mc k pkt o) : pkt' = pkt := by
  cases o <;> simp only [addEvents, List.mem_singleton, List.not_mem_nil, reduceCtorEq] at h
  split at h
  · cases List.mem_singleton.mp h
    rfl
  · cases h

theorem answer_stored {pkt pkt' : Packet} {n i : Nat} {k : QueueKind}
    (h : .stored k i pkt' ∈ (c.answer pkt n).log) : .stored k i pkt' ∈ c.log := by
  cases n with
  | zero => exact h
  | succ n => simpa [answer] using h

/-- What is stored is what the action adds. -/
theorem exec_stored (he : exec op c = .ok c') {k : QueueKind} {i : Nat} {pkt : Packet}
    (hmem : .stored k i pkt ∈ c'.log) :
    .stored k i pkt ∈ c.log ∨ op = .addRq pkt ∨ op = .addWq pkt := by
  have hadd : ∀ {mc : MemoryController} {k' : QueueKind} {pkt' : Packet} {o : AddOutcome},
      .stored k i pkt ∈ c.log ++ addEvents mc k' pkt' o → .stored k i pkt ∈ c.log ∨ pkt = pkt' :=
    fun hmem => (List.mem_append.mp hmem).imp_right addEvents_stored
  cases op with
  | tick clk =>
      cases he
      exact .inl hmem
  | operate =>
      unfold exec operate at he
      dsimp only at he
      split at he
      · cases he
      · cases he
        refine .inl ((List.mem_append.mp hmem).resolve_right ?_)
        unfold writeEvents
        split <;> simp
      · cases he
        exact .inl (by simpa using hmem)
  | addRq pkt' =>
      cases he
      unfold addRq at hmem
      dsimp only at hmem
      split at hmem
      · exact (hadd (answer_stored hmem)).imp_right fun h => .inl (by rw [h])
      · exact (hadd hmem).imp_right fun h => .inl (by rw [h])
  | addWq pkt' =>
      cases he
      exact (hadd hmem).imp_right fun h => .inr (by rw [h])
  | returnCallback =>
      unfold exec returnCallback at he
      dsimp only at he
      split at he
      · cases he
        have hpop := answer_stored hmem
        exact .inl hpop
      · split at he
        · cases he
        · cases he
          exact .inl (by simpa using hmem)
      · cases he
        exact .inl hmem

theorem exec_stored_of_ne (he : exec op c = .ok c') (hop : ∀ pkt, op ≠ .addRq pkt ∧ op ≠ .addWq pkt)
    {k : QueueKind} (hst : c'.Stored k) : c.Stored k := by
  obtain ⟨i, pkt, hmem⟩ := hst
  exact ⟨i, pkt, (exec_stored he hmem).resolve_right fun h =>
    h.elim (hop pkt).1 (hop pkt).2⟩

/-- A cycle is a mode switch and a queue's turn. -/
theorem operate_step (hp : c.processing = none) (ho : c.operate = .ok c') :
    ∃ mc₁, c.mc.switchMode c.clock = .ok mc₁ ∧
      mc₁.serve c.clock mc₁.servedQueue = .ok (c'.mc, c'.handing) := by
  have hmc : ∃ r, c.mc.operate c.clock = .ok (c'.mc, r) ∧ c'.handing = r := by
    unfold operate at ho
    split at ho
    · cases ho
    · rename_i mc heq
      cases ho
      exact ⟨none, heq, by rw [handing, hp]; rfl⟩
    · rename_i mc i heq
      cases ho
      exact ⟨some i, heq, rfl⟩
  obtain ⟨r, hmc, rfl⟩ := hmc
  cases hsw : c.mc.switchMode c.clock with
  | error a =>
      rw [MemoryController.operate, hsw] at hmc
      cases hmc
  | ok mc₁ =>
      rw [MemoryController.operate_eq hsw] at hmc
      exact ⟨mc₁, rfl, hmc⟩

/-- The queue a cycle serves has been refreshed, when something is stored. -/
theorem Started.switch (h : c.Started) (hs : c.Sound) (hp : c.processing = none)
    (hst : ∃ k, c.Stored k) {mc₁ : MemoryController} (hsw : c.mc.switchMode c.clock = .ok mc₁) :
    mc₁.CachedIn (fun k => k = mc₁.servedQueue) (fun _ => False) none := by
  have hhanding : c.handing = none := by rw [handing, hp]; rfl
  have hnone : ∀ k, (if k = QueueKind.rq then (none : Option Nat) else none) = none :=
    fun k => by split <;> rfl
  have hcached := h.cached
  unfold Minimal at hcached
  rw [hhanding] at hcached
  rcases MemoryController.switchMode_cases hsw with ⟨rfl, hread⟩ | hfresh
  swap
  · intro k
    rw [hnone]
    exact .refreshed (hfresh k).1 (hfresh k).2
  unfold MemoryController.servedQueue
  split
  · rename_i hmode
    exact fun k => (hcached k).mono (fun hk => .inl ⟨hk, hmode⟩) False.elim
  · rename_i hmode
    rw [Bool.not_eq_true] at hmode
    suffices hrq : c.mc.rq.ScheduleFresh from
      fun k => (CachedIn.fresh (k := .rq) hcached hrq k).mono .inl False.elim
    -- otherwise only writes have been stored, and the mode would have been switched
    by_contra hstale
    obtain ⟨hnot, hu⟩ := (hcached .rq).schedule.resolve_left hstale
    have hempty : c.mc.rq.occupancy = 0 := by
      refine ((hs.inStep.consistent hs.ok).occupancy .rq).trans (List.countP_eq_zero.mpr ?_)
      intro sl hsl
      obtain ⟨i, hi⟩ := List.getElem?_of_mem hsl
      rw [← PacketQueue.slotAt_eq hi]
      rw [hu.empty i]
      decide
    obtain ⟨k, hk⟩ := hst
    cases k with
    | rq => exact hnot (.inr hk)
    | wq => exact (h.waiting hstale).2 ((hread hmode).2 hempty) hk

/-- **Once something is stored**, a cycle reads the clocks of packets. -/
theorem Started.lookups (h : c.Started) (hs : c.Sound) (hp : c.processing = none)
    (hst : ∃ k, c.Stored k) : ∀ sl ∈ c.mc.operateLookups c.clock, Indexable sl := by
  obtain ⟨mc₁, hsw, hstep, hcontent⟩ :=
    MemoryController.switchMode_books hs.inStep hs.ok.sane c.clock
  have hok₁ := (MemoryController.switchMode_spec hs.ok hsw).1
  have hcached := h.switch hs hp hst hsw
  have hlive : ∀ {mc : MemoryController} {scheduled : QueueKind → Prop}, mc.Ok →
      mc.CachedIn (fun k => k = mc₁.servedQueue) scheduled none →
      Live (mc.queue mc₁.servedQueue) := by
    intro mc scheduled hok hcached
    refine MemoryController.live_of_fresh (hok.queue _).toSane
      ((hcached _).schedule.resolve_right fun hu => hu.1 rfl) ?_
    rcases (hcached mc₁.servedQueue).process with ⟨i, hi, -⟩ | ⟨-, hproc⟩
    · split at hi <;> cases hi
    · exact hproc.imp_right And.right
  intro sl hsl
  unfold MemoryController.operateLookups MemoryController.switchLookups at hsl
  rw [hsw] at hsl
  rcases List.mem_append.mp hsl with hsl | hsl
  · dsimp only at hsl
    split at hsl
    · cases hsl
    · exact h.cpus.resetLookups hs.ok.sane _ sl hsl
  · exact MemoryController.serveLookups_indexable hstep (h.cpus.of_content hcontent)
      (hlive hok₁ hcached)
      (hlive (MemoryController.scheduleNew_ok hok₁ c.clock _) (hcached.scheduleNew c.clock _))
      mc₁.offQueue_ne_servedQueue sl hsl

/-! ## What an action keeps -/

theorem serve_mode {mc mc' : MemoryController} {clk : Clock} {r : Option Nat}
    (hs : mc.serve clk mc.servedQueue = .ok (mc', r)) : mc'.writeMode = mc.writeMode := by
  have hmode : ∀ {v v' t}, MemoryController.Passes v v' t r → v'.writeMode = v.writeMode := by
    intro v v' t hp
    cases hp with
    | idles => rfl
    | moves hm => exact hm.mode
  exact hmode (MemoryController.serve_passes rfl hs)

/-- A read queue as constructed has nothing to serve. -/
theorem serve_unread {mc : MemoryController} (hu : mc.rq.Unread) (clk : Clock) :
    mc.serve clk .rq = .ok (mc, none) := by
  have hsched : MemoryController.scheduleReady clk (mc.queue .rq) = false := by
    refine Bool.and_eq_false_iff.mpr (.inr (decide_eq_false (not_le.mpr ?_)))
    exact (clk.cycle_lt _).trans_eq hu.schedule.2.symm
  have hproc : MemoryController.processReady clk (mc.queue .rq) = false := by
    refine Bool.and_eq_false_iff.mpr (.inr (decide_eq_false (not_le.mpr ?_)))
    exact (clk.cycle_lt _).trans_eq hu.process.2.symm
  have hnew : mc.scheduleNew clk .rq = mc := by
    rw [MemoryController.scheduleNew, hsched]
    rfl
  rw [MemoryController.serve_eq, hnew, hproc]
  rfl

theorem Started.operate (h : c.Started) (hs : c.Sound) (hp : c.processing = none)
    (ho : c.operate = .ok c') :
    c'.Minimal (fun k => k = .wq ∧ c'.mc.writeMode = true)
      (fun k => k = .wq ∧ c'.mc.writeMode = true) ∧
    (¬ c'.mc.rq.ScheduleFresh → c'.mc.writeMode = false ∧
      (c'.mc.wq.occupancy = 0 → ¬ c'.Stored .wq)) := by
  obtain ⟨mc₁, hsw, hserve⟩ := operate_step hp ho
  have hok₁ := (MemoryController.switchMode_spec hs.ok hsw).1
  have hstored : ∀ k, c'.Stored k → c.Stored k := fun k =>
    exec_stored_of_ne (show exec .operate c = .ok c' from ho) (by simp)
  have hhanding : c.handing = none := by rw [handing, hp]; rfl
  have hcached := h.cached
  unfold Minimal at hcached
  rw [hhanding] at hcached
  have hmode := serve_mode hserve
  have hcached₁ : mc₁.CachedIn (fun k => (k = .wq ∧ mc₁.writeMode = true) ∨ c.Stored k)
      (fun k => k = .wq ∧ mc₁.writeMode = true) none := by
    rcases MemoryController.switchMode_cases hsw with ⟨rfl, -⟩ | hfresh
    · exact hcached
    · intro k
      have hnone : (if k = .rq then none else none : Option Nat) = none := by split <;> rfl
      rw [hnone]
      exact .refreshed (hfresh k).1 (hfresh k).2
  constructor
  · rw [hmode]
    exact fun k => (hcached₁.serve hok₁ hserve k).mono (Or.imp_right (hstored k)) .inl
  · intro hstale
    -- what has been refreshed stays so
    have hstale₁ : ¬ mc₁.rq.ScheduleFresh := fun hfresh =>
      have hbase := CachedIn.fresh (k := .rq) hcached₁ hfresh
      hstale ((hbase.serve hok₁ hserve .rq).schedule.resolve_right fun hu => hu.1 (.inl rfl))
    rcases MemoryController.switchMode_cases hsw with ⟨rfl, -⟩ | hfresh
    swap
    · exact absurd (hfresh .rq).1 hstale₁
    obtain ⟨hread, hwaiting⟩ := h.waiting hstale₁
    have hu := ((hcached .rq).schedule.resolve_left hstale₁).2
    have hserved : c.mc.servedQueue = .rq := by
      rw [MemoryController.servedQueue, hread]
      rfl
    rw [hserved, serve_unread hu] at hserve
    obtain ⟨hmc, -⟩ := Prod.mk.inj (Except.ok.inj hserve)
    rw [← hmc]
    exact ⟨hread, fun h0 hst => hwaiting h0 (hstored .wq hst)⟩

/-- An action that stores a packet leaves its slot in use. -/
theorem stored_occupancy (hs' : c'.Sound) {evs : List ControllerEvent} (heff : Effect c c' evs)
    {k : QueueKind} {i : Nat} {pkt : Packet} (hmem : .stored k i pkt ∈ evs) :
    (c'.mc.queue k).occupancy ≠ 0 := by
  have hused : ((c'.mc.queue k).slotAt i).pkt.address ≠ 0 := by
    cases heff with
    | aside _ _ hevs => rcases hevs _ hmem with ⟨_, _, h⟩ | ⟨_, h⟩ | ⟨_, h⟩ <;> cases h
    | stored h0 h hpkt =>
        cases List.mem_singleton.mp hmem
        have hcontent := congrFun h (k, i)
        rw [Function.update_self] at hcontent
        exact fun h0 => hpkt ((congrArg Packet.address hcontent).symm.trans h0)
    | returned => simp at hmem
    | freed => simp at hmem
    | transferred => simp at hmem
  rw [(hs'.inStep.consistent hs'.ok).occupancy k]
  exact (List.countP_pos_iff.mpr ⟨_, PacketQueue.slotAt_mem (PacketQueue.lt_of_used hused),
    decide_eq_true hused⟩).ne'

theorem Started.other (h : c.Started) (hs : c.Sound) (hop : op ≠ .operate)
    (hp : permits op c = true) (he : exec op c = .ok c') :
    c'.Minimal (fun k => k = .wq ∧ c'.mc.writeMode = true)
      (fun k => k = .wq ∧ c'.mc.writeMode = true) ∧
    (¬ c'.mc.rq.ScheduleFresh → c'.mc.writeMode = false ∧
      (c'.mc.wq.occupancy = 0 → ¬ c'.Stored .wq)) := by
  obtain ⟨c₁, evs, he₁, hlog, hs', heff⟩ := exec_spec hs hp
  rw [he] at he₁
  cases he₁
  have hwaits : Waits op c c' := by
    have hon : ∀ {bus'}, OnBus op c [] c' bus' → Waits op c c' := by
      intro bus' hon
      cases hon with
      | moved hop' => exact absurd hop' hop
      | cycled hop' => exact absurd hop' hop
      | waits _ hw => exact hw
    exact hon (exec_onBus he)
  have hmin : ∀ {base scheduled}, c.Minimal base scheduled → c'.Minimal base scheduled :=
    fun hm k => (hm.exec hs hp he k).mono id .inl
  constructor
  · rw [hwaits.mode]
    exact hmin h.cached
  · intro hstale
    have hstale₀ : ¬ c.mc.rq.ScheduleFresh := fun hfresh =>
      have hbase : c.Minimal (fun k => k = .rq) (fun k => k = .wq ∧ c.mc.writeMode = true) :=
        fun k => (CachedIn.fresh (k := .rq) h.cached hfresh k).mono (Or.imp_right .inr) id
      hstale ((hmin hbase .rq).schedule.resolve_right fun hu => hu.1 (.inl rfl))
    obtain ⟨hread, hwaiting⟩ := h.waiting hstale₀
    refine ⟨hwaits.mode.trans hread, fun h0 ⟨i, pkt, hmem⟩ => ?_⟩
    rw [hlog] at hmem
    rcases List.mem_append.mp hmem with hmem | hmem
    · exact hwaiting (Nat.le_zero.mp (h0 ▸ hwaits.writes)) ⟨i, pkt, hmem⟩
    · exact stored_occupancy hs' heff hmem h0

theorem Started.exec (h : c.Started) (hs : c.Sound) (hr : InRange op) (hp : permits op c = true)
    (he : exec op c = .ok c') : c'.Started := by
  obtain ⟨c₁, evs, he₁, hlog, hs', heff⟩ := exec_spec hs hp
  rw [he] at he₁
  cases he₁
  have hlogged : ∀ k i pkt, .stored k i pkt ∈ c'.log → pkt.cpu < numCpus := by
    intro k i pkt hmem
    rcases exec_stored he hmem with hmem | rfl | rfl
    · exact h.logged k i pkt hmem
    · exact hr
    · exact hr
  have hcpus : c'.mc.CpusInRange := by
    have hempty : ∀ {y}, c'.mc.content = Function.update c.mc.content y Slot.empty.pkt.payload →
        c'.mc.CpusInRange := by
      intro y hcontent x hx
      rw [hcontent] at hx ⊢
      by_cases hxy : x = y
      · subst hxy
        rw [Function.update_self] at hx
        exact absurd rfl hx
      · rw [Function.update_of_ne hxy] at hx ⊢
        exact h.cpus x hx
    cases heff with
    | aside hcontent => exact h.cpus.of_content hcontent
    | stored h0 hcontent =>
        rename_i k i pkt _ _
        intro x hx
        rw [hcontent] at hx ⊢
        by_cases hxy : x = (k, i)
        · subst hxy
          rw [Function.update_self]
          exact hlogged k i pkt (by rw [hlog]; simp)
        · rw [Function.update_of_ne hxy] at hx ⊢
          exact h.cpus x hx
    | returned hcontent => exact h.cpus.of_content hcontent
    | freed hcontent => exact hempty hcontent
    | transferred hcontent => exact hempty hcontent
  by_cases hop : op = .operate
  · subst hop
    simp only [permits, Bool.and_eq_true, Option.isNone_iff_eq_none] at hp
    obtain ⟨hcached, hwaiting⟩ := h.operate hs hp.2 he
    exact ⟨hcached, hwaiting, hcpus, hlogged⟩
  · obtain ⟨hcached, hwaiting⟩ := h.other hs hop hp he
    exact ⟨hcached, hwaiting, hcpus, hlogged⟩

/-! ## Until something is stored -/

/-- A controller that has only ever idled. -/
structure Untouched (mc : MemoryController) : Prop where
  unread : mc.rq.Unread
  size : mc.rq.size = dramRqSize
  mode : mc.writeMode = false
  writes : mc.wq.occupancy = 0

theorem Untouched.switchMode {mc : MemoryController} (h : Untouched mc) (clk : Clock) :
    mc.switchMode clk = .ok mc := by
  simp [MemoryController.switchMode, h.mode, h.writes, dramWriteHighWM, dramWqSize]

/-- It reads the clock of an empty slot. -/
theorem Untouched.lookups {mc : MemoryController} (h : Untouched mc) (clk : Clock) :
    Slot.empty ∈ mc.operateLookups clk := by
  have hserved : mc.servedQueue = .rq := by
    rw [MemoryController.servedQueue, h.mode]
    rfl
  unfold MemoryController.operateLookups
  rw [h.switchMode]
  refine List.mem_append_right _ ?_
  dsimp only
  rw [hserved]
  unfold MemoryController.serveLookups
  dsimp only
  refine List.mem_append_left _ (List.mem_append_left _ (List.mem_append_left _ ?_))
  have hfirst : mc.rq.nextScheduleIndex < mc.rq.size := by
    rw [h.unread.schedule.1, h.size]
    decide
  change Slot.empty ∈ if mc.rq.nextScheduleIndex < mc.rq.size then
    [mc.rq.slotAt mc.rq.nextScheduleIndex] else []
  rw [if_pos hfirst, h.unread.empty]
  exact List.mem_singleton_self _

theorem Untouched.answer (h : Untouched c.mc) (pkt : Packet) (n : Nat) :
    Untouched (c.answer pkt n).mc := by
  cases n with
  | zero =>
      exact ⟨⟨h.unread.schedule, h.unread.process, h.unread.empty⟩, h.size, h.mode, h.writes⟩
  | succ n => exact h

/-- It stays so until something is stored. -/
theorem Untouched.exec (h : Untouched c.mc) (hs : c.Sound) (hp : permits op c = true)
    (he : exec op c = .ok c') : (∃ k, c'.Stored k) ∨ Untouched c'.mc := by
  -- a packet that is not merged is stored
  have hstore : ∀ {k : QueueKind} {pkt : Packet} {c' : Standalone},
      (c.mc.queue k).occupancy < (c.mc.queue k).size →
      c'.log = c.log ++ addEvents c.mc k pkt
        (if (c.mc.queue k).emptyIndex.isSome then .inserted else .dropped) → c'.Stored k := by
    intro k pkt c' hroom hlog
    obtain ⟨i, hi, -⟩ := (hs.ok.queue k).toSane.emptyIndex hroom
    refine ⟨i, pkt, ?_⟩
    rw [hlog]
    simp [addEvents, hi]
  cases op with
  | tick clk =>
      cases he
      exact .inr h
  | operate =>
      simp only [permits, Bool.and_eq_true, Option.isNone_iff_eq_none] at hp
      obtain ⟨mc₁, hsw, hserve⟩ := operate_step hp.2 he
      rw [h.switchMode] at hsw
      obtain rfl := Except.ok.inj hsw
      have hserved : c.mc.servedQueue = .rq := by
        rw [MemoryController.servedQueue, h.mode]
        rfl
      rw [hserved, serve_unread h.unread] at hserve
      exact .inr ((Prod.mk.inj (Except.ok.inj hserve)).1 ▸ h)
  | addRq pkt =>
      simp only [permits, Bool.and_eq_true, decide_eq_true_eq] at hp
      cases he
      unfold addRq MemoryController.addRq
      cases c.mc.wq.checkDramQueue pkt with
      | some i =>
          refine .inr (Untouched.answer ?_ pkt _)
          exact h
      | none =>
          cases c.mc.rq.checkDramQueue pkt with
          | some i => exact .inr h
          | none =>
              dsimp only
              split
              · rename_i heq
                split at heq <;> cases heq
              · exact .inl ⟨.rq, hstore hp.2 rfl⟩
  | addWq pkt =>
      simp only [permits, Bool.and_eq_true, decide_eq_true_eq] at hp
      cases he
      unfold addWq MemoryController.addWq
      cases c.mc.wq.checkDramQueue pkt with
      | some i => exact .inr h
      | none => exact .inl ⟨.wq, hstore hp.2 rfl⟩
  | returnCallback =>
      unfold exec returnCallback at he
      dsimp only at he
      split at he
      · cases he
        refine .inr (Untouched.answer ?_ _ _)
        exact h
      · rename_i i b _ hproc
        have hsched := (hs.processing _ _ hproc).1
        rw [h.unread.empty] at hsched
        cases hsched
      · cases he
        exact .inr h

/-! ## Runs -/

/-- The invariant of a run. -/
theorem run_started {tRP tRCD tCAS dbusReturnTime : Nat} {clk : Clock}
    {x : Worklist.Config Standalone ControllerOp}
    (h : Reaches (standalone.gated permits) InRange (new tRP tRCD tCAS dbusReturnTime clk) x) :
    x.2.Sound ∧ x.2.Started ∧ ((∃ k, x.2.Stored k) ∨ Untouched x.2.mc) := by
  have hempty : ∀ (size i : Nat), (PacketQueue.new size).slotAt i = Slot.empty := fun size i => by
    rw [PacketQueue.slotAt, PacketQueue.new, List.getElem?_replicate]
    split <;> rfl
  have hnew : (new tRP tRCD tCAS dbusReturnTime clk).Sound :=
    ⟨MemoryController.new_ok .., MemoryController.new_inStep .., fun i b hib => by cases hib⟩
  have hstarted : (new tRP tRCD tCAS dbusReturnTime clk).Started := by
    have hstored : ∀ k, ¬ (new tRP tRCD tCAS dbusReturnTime clk).Stored k := by
      rintro k ⟨i, pkt, hmem⟩
      cases hmem
    refine ⟨fun k => ?_, fun _ => ⟨rfl, fun _ => hstored .wq⟩, fun x hx => ?_, fun k i pkt hmem => ?_⟩
    · have hmode : ¬ (k = .wq ∧ (new tRP tRCD tCAS dbusReturnTime clk).mc.writeMode = true) :=
        fun hk => Bool.false_ne_true hk.2
      cases k <;> exact .new _ (not_or.mpr ⟨hmode, hstored _⟩) hmode
    · obtain ⟨k, i⟩ := x
      cases k <;> exact absurd (congrArg (fun sl => sl.pkt.address) (hempty _ i)) hx
    · cases hmem
  have huntouched : Untouched (new tRP tRCD tCAS dbusReturnTime clk).mc :=
    ⟨⟨⟨rfl, rfl⟩, ⟨rfl, rfl⟩, hempty dramRqSize⟩, rfl, rfl, rfl⟩
  have hinv := (ReachesIf.gated_invariant (M := standalone)
    (P := fun x => (x.2.Sound ∧ x.2.Started ∧ ((∃ k, x.2.Stored k) ∨ Untouched x.2.mc)) ∧
      ∀ op K, x.1 = op :: K → InRange op ∧ permits op x.2 = true ∧ K = [])
    ⟨⟨hnew, hstarted, .inr huntouched⟩, by simp⟩ ?_ ?_ h).2
  · exact hinv.1
  · rintro op c ha hg - ⟨hc, -⟩
    refine ⟨hc, ?_⟩
    rintro op' K ⟨⟩
    exact ⟨ha, hg, rfl⟩
  · rintro op K c c' ks - - ⟨⟨hs, hst, hu⟩, hK⟩ he
    obtain ⟨ha, hg, rfl⟩ := hK op K rfl
    obtain ⟨c₁, evs, hexec, hlog, hs', -⟩ := exec_spec hs hg
    obtain ⟨c₂, he, heq⟩ := ok_of_map he
    rw [hexec] at he
    cases he
    cases heq
    refine ⟨⟨hs', hst.exec hs ha hg hexec, ?_⟩, by simp⟩
    rcases hu with ⟨k, i, pkt, hmem⟩ | hu
    · exact .inl ⟨k, i, pkt, by rw [hlog]; exact List.mem_append_left _ hmem⟩
    · exact hu.exec hs hg hexec

end Standalone

/-- **Indexing the clocks.** Every clock `operate` and what it calls read is
one of a packet held, of a CPU there is, if and only if a packet has been
stored before. -/
theorem clock_index_in_bounds {tRP tRCD tCAS dbusReturnTime : Nat} {clk : Clock}
    {x : Worklist.Config Standalone ControllerOp}
    (h : Reaches (standalone.gated Standalone.permits) Standalone.InRange
      (.new tRP tRCD tCAS dbusReturnTime clk) x) (hp : Standalone.permits .operate x.2 = true) :
    (∀ sl ∈ x.2.mc.operateLookups x.2.clock, sl.pkt.address ≠ 0 ∧ sl.pkt.cpu < numCpus) ↔
      ∃ k, x.2.Stored k := by
  obtain ⟨hs, hstarted, huntouched⟩ := Standalone.run_started h
  simp only [Standalone.permits, Bool.and_eq_true, Option.isNone_iff_eq_none] at hp
  constructor
  · intro hall
    refine huntouched.resolve_right fun hu => ?_
    exact (hall _ (hu.lookups x.2.clock)).1 rfl
  · exact fun hst => hstarted.lookups hs hp.2 hst

/-- The first cycle of a constructed controller reads one clock too far. -/
theorem clock_index_constructed : ∃ x : Worklist.Config Standalone ControllerOp,
    Reaches (standalone.gated Standalone.permits) Standalone.InRange (.new 22 22 22 10 .zero) x ∧
      Standalone.permits .operate x.2 = true ∧
      ∃ sl ∈ x.2.mc.operateLookups x.2.clock, sl.pkt.cpu = numCpus :=
  ⟨([], .new 22 22 22 10 .zero), .refl, rfl, Slot.empty, by decide +kernel, rfl⟩

/-- With a read in it, it reads the clock of its CPU. -/
theorem clock_index_in_bounds_read : ∃ c,
    Worklist.drive (standalone.gated Standalone.permits) 1 [.addRq (.stamped 5)]
      (.new 22 22 22 10 .zero) = some c ∧ Standalone.permits .operate c = true ∧
      c.mc.operateLookups c.clock ≠ [] ∧
      ∀ sl ∈ c.mc.operateLookups c.clock, sl.pkt.address ≠ 0 ∧ sl.pkt.cpu < numCpus := by
  obtain ⟨c, hc, hconf⟩ := Option.map_eq_some_iff.mp (show (Worklist.drive
    (standalone.gated Standalone.permits) 1 [.addRq (.stamped 5)]
      (.new 22 22 22 10 .zero)).map (fun c => decide (Standalone.permits .operate c = true ∧
        c.mc.operateLookups c.clock ≠ [] ∧ c.log.head? = some (.stored .rq 0 (.stamped 5))))
      = some true from by decide +kernel)
  obtain ⟨hp, hne, hlog⟩ := of_decide_eq_true hconf
  refine ⟨c, hc, hp, hne, (clock_index_in_bounds (Worklist.drive_reaches ?_ .refl hc) hp).mpr
    ⟨.rq, 0, _, List.mem_of_head? hlog⟩⟩
  simp [Standalone.InRange, Packet.stamped, Packet.readOf, numCpus]

end DramCache
