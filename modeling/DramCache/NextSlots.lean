import DramCache.Selection
import DramCache.Standalone
import DramCache.Watched

/-!
# The cached minima

A controller does not search its queues every cycle: each queue carries the
slot to be scheduled next and the slot to be processed next, and `operate`
trusts them. Scheduling and a mode switch refresh both, an insertion only the
first, the end of a transfer only the second. That is enough: `Cached` says
that refreshing what an operation has left alone would change nothing, except
in a queue that has never been refreshed, and `next_slots` reads the two
minima off it. Inside the callback of a transfer the second index still names
the slot under transfer, whose event cycle has already been moved.
-/

namespace DramCache

open Worklist (ReachesIf Reaches)

namespace PacketQueue

/-- What `update_schedule_cycle` looks for. -/
def waits (sl : Slot) : Bool := decide (sl.pkt.address ≠ 0) && !sl.scheduled

theorem waits_iff {sl : Slot} :
    waits sl = true ↔ sl.pkt.address ≠ 0 ∧ sl.scheduled = false := by
  simp [waits]

/-- Refreshing the slot to be scheduled next would change nothing. -/
def ScheduleFresh (q : PacketQueue) : Prop :=
  q.minSlot waits = (q.nextScheduleCycle, q.nextScheduleIndex)

/-- Refreshing the slot to be processed next would change nothing. -/
def ProcessFresh (q : PacketQueue) : Prop :=
  q.minSlot (·.scheduled) = (q.nextProcessCycle, q.nextProcessIndex)

/-- The queue is as constructed: nothing has been refreshed, nothing stored. -/
structure Unread (q : PacketQueue) : Prop where
  schedule : q.nextScheduleIndex = 0 ∧ q.nextScheduleCycle = uint64Max
  process : q.nextProcessIndex = 0 ∧ q.nextProcessCycle = uint64Max
  empty : ∀ i, q.slotAt i = Slot.empty

/-- Nothing has been scheduled, and slot 0, the first one to be filled, is
still in use. -/
structure Unprocessed (q : PacketQueue) : Prop where
  process : q.nextProcessIndex = 0 ∧ q.nextProcessCycle = uint64Max
  unscheduled : ∀ i, (q.slotAt i).scheduled = false
  first : (q.slotAt 0).pkt.address ≠ 0 ∨ q.Unread

/-- What holds of the cached slots of a queue that has stored packets or not,
has had packets scheduled or not, and is handing over a slot or none. -/
structure Cached (q : PacketQueue) (stored scheduled : Prop) (handing : Option Nat) : Prop where
  schedule : q.ScheduleFresh ∨ ¬ stored ∧ q.Unread
  process : (∃ i, handing = some i ∧ q.nextProcessIndex = i) ∨
    handing = none ∧ (q.ProcessFresh ∨ ¬ scheduled ∧ q.Unprocessed)

/-! ## Scans that find the same -/

theorem scanMin_set (sel : Slot → Bool) {l : List Slot} {i : Nat} {sl : Slot}
    (hnew : sel sl = false) (hold : ∀ sl', l[i]? = some sl' → sel sl' = false) :
    ∀ (n : Nat) (best : Nat × Nat), scanMin sel (l.set i sl) n best = scanMin sel l n best := by
  induction l generalizing i with
  | nil => exact fun n best => rfl
  | cons sl' l ih =>
      intro n best
      cases i with
      | zero => simp [scanMin, hnew, hold sl' rfl]
      | succ i =>
          rw [List.set_cons_succ, scanMin, scanMin, ih fun sl'' h => hold sl'' (by simpa using h)]

/-- A slot that is not looked for is replaced by another one. -/
theorem minSlot_set {q q' : PacketQueue} {sel : Slot → Bool} {i : Nat} {sl : Slot}
    (hentry : q'.entry = q.entry.set i sl) (hsize : q'.size = q.size) (hnew : sel sl = false)
    (hold : sel (q.slotAt i) = false) : q'.minSlot sel = q.minSlot sel := by
  rw [minSlot, hentry, hsize, minSlot]
  refine scanMin_set sel hnew (fun sl' h => ?_) 0 _
  rw [← slotAt_eq h]
  exact hold

theorem minSlot_congr {q q' : PacketQueue} (hentry : q'.entry = q.entry) (hsize : q'.size = q.size)
    (sel : Slot → Bool) : q'.minSlot sel = q.minSlot sel := by
  rw [minSlot, hentry, hsize, minSlot]

theorem updateScheduleCycle_fresh (q : PacketQueue) : q.updateScheduleCycle.ScheduleFresh := rfl

/-! ## What an operation does to a queue -/

/-- The fields the cached slots depend on, besides the entries. -/
structure SameCache (q q' : PacketQueue) : Prop where
  size : q'.size = q.size
  schedule : (q'.nextScheduleCycle, q'.nextScheduleIndex) = (q.nextScheduleCycle, q.nextScheduleIndex)
  process : (q'.nextProcessCycle, q'.nextProcessIndex) = (q.nextProcessCycle, q.nextProcessIndex)

namespace Cached

variable {q q' : PacketQueue} {stored stored' scheduled scheduled' : Prop} {handing : Option Nat}

/-- A constructed queue. -/
theorem new (size : Nat) (hs : ¬ stored) (hp : ¬ scheduled) :
    (PacketQueue.new size).Cached stored scheduled none := by
  have hempty : ∀ i, (PacketQueue.new size).slotAt i = Slot.empty := fun i => by
    rw [slotAt, PacketQueue.new, List.getElem?_replicate]
    split <;> rfl
  have hunread : (PacketQueue.new size).Unread := ⟨⟨rfl, rfl⟩, ⟨rfl, rfl⟩, hempty⟩
  refine ⟨.inr ⟨hs, hunread⟩, .inr ⟨rfl, .inr ⟨hp, ⟨rfl, rfl⟩, fun i => ?_, .inr hunread⟩⟩⟩
  rw [hempty]
  rfl

/-- Only counters change. -/
theorem kept (h : q.Cached stored scheduled handing) (hentry : q'.entry = q.entry)
    (hsame : SameCache q q') : q'.Cached stored scheduled handing := by
  have hslot := slotAt_congr hentry
  have hsched := Prod.mk.inj hsame.schedule
  have hproc := Prod.mk.inj hsame.process
  have hunread : q.Unread → q'.Unread := fun hu =>
    ⟨⟨hsched.2.trans hu.schedule.1, hsched.1.trans hu.schedule.2⟩,
      ⟨hproc.2.trans hu.process.1, hproc.1.trans hu.process.2⟩,
      fun i => (hslot i).trans (hu.empty i)⟩
  refine ⟨h.schedule.imp (fun hf => ?_) (And.imp_right hunread), h.process.imp ?_ ?_⟩
  · rw [ScheduleFresh, minSlot_congr hentry hsame.size, hsame.schedule]
    exact hf
  · rintro ⟨i, hi, hidx⟩
    exact ⟨i, hi, hproc.2.trans hidx⟩
  · refine And.imp_right (Or.imp (fun hf => ?_) (And.imp_right fun hu => ?_))
    · rw [ProcessFresh, minSlot_congr hentry hsame.size, hsame.process]
      exact hf
    · refine ⟨⟨hproc.2.trans hu.process.1, hproc.1.trans hu.process.2⟩, fun i => ?_,
        hu.first.imp (fun h0 => ?_) hunread⟩
      · rw [hslot]
        exact hu.unscheduled i
      · rw [hslot]
        exact h0

/-- Both slots are refreshed. -/
theorem refreshed (hs : q'.ScheduleFresh) (hp : q'.ProcessFresh) :
    q'.Cached stored scheduled none := ⟨.inl hs, .inr ⟨rfl, .inl hp⟩⟩

/-- A packet takes the first empty slot, and the slot to be scheduled next is
refreshed. -/
theorem insert (h : q.Cached stored scheduled handing) {pkt : Packet} {i : Nat}
    (hi : q.emptyIndex = some i) (hfree : (q.slotAt i).scheduled = false)
    (hpkt : pkt.address ≠ 0) : (q.insert pkt).Cached stored' scheduled handing := by
  have heq : q.insert pkt = PacketQueue.updateScheduleCycle
      { q with entry := q.entry.set i { pkt := pkt }, occupancy := q.occupancy + 1 } := by
    simp [PacketQueue.insert, hi]
  obtain ⟨hlt, h0, hlow⟩ := List.findIdx?_eq_some_iff_getElem.mp hi
  have hentry : (q.insert pkt).entry = q.entry.set i { pkt := pkt } := by rw [heq]; rfl
  refine ⟨.inl (by rw [heq]; exact updateScheduleCycle_fresh _), ?_⟩
  refine h.process.imp ?_ (And.imp_right (Or.imp (fun hf => ?_) (And.imp_right fun hu => ?_)))
  · rw [heq]
    exact id
  · rw [ProcessFresh, minSlot_set hentry (by rw [heq]; rfl) rfl hfree]
    exact hf.trans (by rw [heq]; rfl)
  · refine ⟨?_, fun j => ?_, .inl ?_⟩
    · rw [heq]
      exact hu.process
    · by_cases hj : i = j
      · subst hj
        rw [slotAt_set_self hentry hlt]
      · rw [slotAt_set_ne hentry hj]
        exact hu.unscheduled j
    · by_cases hj : i = 0
      · subst hj
        rw [slotAt_set_self hentry hlt]
        exact hpkt
      · -- slot 0 precedes the first empty slot
        have hlt0 : 0 < q.entry.length := by omega
        have hused := hlow 0 (by omega)
        rw [slotAt_set_ne hentry hj, slotAt, List.getElem?_eq_getElem hlt0]
        simpa using hused

/-- A scheduled slot is handed over and stays scheduled. -/
theorem hand (h : q.Cached stored scheduled handing) {i : Nat} {sl : Slot}
    (hentry : q'.entry = q.entry.set i sl) (hsame : SameCache q q') (hi : i = q.nextProcessIndex)
    (hs : (q.slotAt i).scheduled = true) (hsl : sl.scheduled = true) :
    q'.Cached stored scheduled (some i) := by
  refine ⟨.inl ?_, .inl ⟨i, rfl, ?_⟩⟩
  · rcases h.schedule with hf | ⟨-, hu⟩
    · rw [ScheduleFresh, minSlot_set hentry hsame.size (by simp [waits, hsl]) (by simp [waits, hs]),
        hsame.schedule]
      exact hf
    · rw [hu.empty] at hs
      cases hs
  · rw [hi]
    exact (Prod.mk.inj hsame.process).2

/-- A scheduled slot is emptied, and the slot to be processed next is
refreshed. -/
theorem remove (h : q.Cached stored scheduled handing) {i : Nat}
    (hentry : q'.entry = q.entry.set i Slot.empty) (hsize : q'.size = q.size)
    (hsched : (q'.nextScheduleCycle, q'.nextScheduleIndex)
      = (q.nextScheduleCycle, q.nextScheduleIndex))
    (hs : (q.slotAt i).scheduled = true) (hp : q'.ProcessFresh) :
    q'.Cached stored scheduled none := by
  refine ⟨.inl ?_, .inr ⟨rfl, .inl hp⟩⟩
  rcases h.schedule with hf | ⟨-, hu⟩
  · rw [ScheduleFresh, minSlot_set hentry hsize rfl (by simp [waits, hs]), hsched]
    exact hf
  · rw [hu.empty] at hs
    cases hs

/-- What is known of the past may be forgotten. -/
theorem mono (h : q.Cached stored scheduled handing) (hst : stored' → stored)
    (hsc : scheduled' → scheduled) : q.Cached stored' scheduled' handing :=
  ⟨h.schedule.imp_right (And.imp_left (mt hst)),
    h.process.imp_right (And.imp_right (Or.imp_right (And.imp_left (mt hsc))))⟩

end Cached

end PacketQueue

namespace MemoryController

open PacketQueue (Cached SameCache)

variable {mc mc' : MemoryController} {clk : Clock} {k : QueueKind}
  {stored scheduled : QueueKind → Prop} {handing : Option Nat}

/-- The cached slots of both queues; only the read queue hands one over. -/
def CachedIn (mc : MemoryController) (stored scheduled : QueueKind → Prop)
    (handing : Option Nat) : Prop :=
  ∀ k, (mc.queue k).Cached (stored k) (scheduled k) (if k = .rq then handing else none)

theorem CachedIn.setQueue (h : mc.CachedIn stored scheduled handing) {q : PacketQueue}
    {stored' scheduled' : QueueKind → Prop} {handing' : Option Nat}
    (hq : q.Cached (stored' k) (scheduled' k) (if k = .rq then handing' else none))
    (hst : ∀ k', k' ≠ k → stored' k' → stored k')
    (hsc : ∀ k', k' ≠ k → scheduled' k' → scheduled k')
    (hh : k ≠ .rq → handing' = handing) (hrq : mc'.rq = mc.rq) (hwq : mc'.wq = mc.wq) :
    (mc'.setQueue k q).CachedIn stored' scheduled' handing' := by
  intro k'
  by_cases hk : k' = k
  · subst hk
    cases k' <;> exact hq
  · have hother : (mc'.setQueue k q).queue k' = mc.queue k' := by
      cases k <;> cases k' <;> first | exact absurd rfl hk | assumption
    have hsame : (if k' = .rq then handing' else none) = if k' = .rq then handing else none := by
      split
      · rename_i hr
        subst hr
        exact hh (Ne.symm hk)
      · rfl
    rw [hother, hsame]
    exact (h k').mono (hst k' hk) (hsc k' hk)

/-- A queue known to be fresh counts as stored in. -/
theorem CachedIn.fresh (h : mc.CachedIn stored scheduled handing)
    (hk : (mc.queue k).ScheduleFresh) :
    mc.CachedIn (fun k' => k' = k ∨ stored k') scheduled handing := by
  intro k'
  refine ⟨?_, (h k').process⟩
  by_cases hk' : k' = k
  · subst hk'
    exact .inl hk
  · exact (h k').schedule.imp_right fun hu => ⟨fun hst => hu.1 (hst.resolve_left hk'), hu.2⟩

/-! ## What a cycle does to them -/

theorem resetRemainRequests_refreshes (h : mc.resetRemainRequests clk k = .ok mc')
    (k' : QueueKind) : (mc'.queue k').ScheduleFresh ∧ (mc'.queue k').ProcessFresh := by
  unfold resetRemainRequests at h
  cases k <;> dsimp only at h <;> split at h <;> cases h <;> cases k' <;> exact ⟨rfl, rfl⟩

/-- A mode switch refreshes both queues; without one there was no reason for
leaving the read mode. -/
theorem switchMode_cases (h : mc.switchMode clk = .ok mc') :
    (mc' = mc ∧ (mc.writeMode = false → mc.wq.occupancy < dramWriteHighWM ∧
      (mc.rq.occupancy = 0 → mc.wq.occupancy = 0))) ∨
    ∀ k, (mc'.queue k).ScheduleFresh ∧ (mc'.queue k).ProcessFresh := by
  have hmap : ∀ {k : QueueKind} {mc₀ : MemoryController} {f : MemoryController → MemoryController},
      (∀ mc k, (f mc).queue k = queue mc k) → (mc₀.resetRemainRequests clk k).map f = .ok mc' →
      ∀ k, (mc'.queue k).ScheduleFresh ∧ (mc'.queue k).ProcessFresh := by
    intro k mc₀ f hf h k'
    obtain ⟨mc₁, hreset, rfl⟩ := ok_of_map h
    rw [hf]
    exact resetRemainRequests_refreshes hreset k'
  unfold switchMode at h
  dsimp only at h
  split at h
  · exact .inr (hmap (fun mc k => by cases k <;> rfl) h)
  · rename_i hc
    split at h
    · exact .inr (hmap (fun mc k => by cases k <;> rfl) h)
    · cases h
      refine .inl ⟨rfl, fun hmode => ?_⟩
      simp only [hmode, Bool.not_false, Bool.true_and, Bool.or_eq_true, Bool.and_eq_true,
        decide_eq_true_eq, not_or, not_and] at hc
      omega

/-- Scheduling refreshes the queue it schedules in. -/
theorem schedule_cases (clk : Clock) (k : QueueKind) (mc : MemoryController) :
    (¬ mc.scheduleSlot (mc.queue k) < (mc.queue k).size ∧ mc.schedule clk k = mc) ∨
    mc.scheduleSlot (mc.queue k) < (mc.queue k).size ∧
      ((mc.schedule clk k).queue k).ScheduleFresh ∧ ((mc.schedule clk k).queue k).ProcessFresh ∧
      ∀ k', k' ≠ k → (mc.schedule clk k).queue k' = mc.queue k' := by
  unfold schedule
  dsimp only
  split
  · rename_i hlt
    refine .inr ⟨hlt, ?_, ?_, fun k' hk => ?_⟩
    · cases k <;> rfl
    · cases k <;> rfl
    · cases k <;> cases k' <;> first | exact absurd rfl hk | rfl
  · rename_i hlt
    exact .inl ⟨hlt, rfl⟩

/-- The "schedule new entry" half of `serve`. -/
def scheduleNew (clk : Clock) (k : QueueKind) (mc : MemoryController) : MemoryController :=
  if scheduleReady clk (mc.queue k) then mc.schedule clk k else mc

/-- The queue in which it schedules an entry. -/
def schedulesIn (clk : Clock) (k : QueueKind) (mc : MemoryController) : List QueueKind :=
  if scheduleReady clk (mc.queue k) && decide (mc.scheduleSlot (mc.queue k) < (mc.queue k).size)
  then [k] else []

theorem serve_eq (clk : Clock) (k : QueueKind) (mc : MemoryController) : mc.serve clk k =
    if processReady clk ((mc.scheduleNew clk k).queue k) then (mc.scheduleNew clk k).process clk k
    else .ok (mc.scheduleNew clk k, none) := rfl

theorem CachedIn.scheduleNew (h : mc.CachedIn stored scheduled none) (clk : Clock) (k : QueueKind) :
    (mc.scheduleNew clk k).CachedIn stored
      (fun k' => scheduled k' ∨ k' ∈ mc.schedulesIn clk k) none := by
  have hnone : ∀ k', (if k' = QueueKind.rq then (none : Option Nat) else none) = none :=
    fun k' => by split <;> rfl
  unfold MemoryController.scheduleNew schedulesIn
  by_cases hready : scheduleReady clk (mc.queue k) = true
  swap
  · rw [if_neg hready]
    simp only [Bool.not_eq_true] at hready
    simp only [hready, Bool.false_and, Bool.false_eq_true, if_false, List.not_mem_nil, or_false]
    exact h
  rw [if_pos hready]
  rcases schedule_cases clk k mc with ⟨hlt, heq⟩ | ⟨hlt, hs, hp, hother⟩
  · simp only [hready, hlt, decide_false, Bool.and_false, Bool.false_eq_true, if_false,
      List.not_mem_nil, or_false, heq]
    exact h
  · simp only [hready, hlt, decide_true, Bool.and_self, if_true, List.mem_singleton]
    intro k'
    by_cases hk : k' = k
    · subst hk
      rw [hnone]
      exact .refreshed hs hp
    · rw [hother k' hk]
      exact (h k').mono id fun hsc => hsc.resolve_right hk

/-- The end of a transfer. -/
theorem CachedIn.finishTransfer (h : mc.CachedIn stored scheduled handing) {i b : Nat}
    (hi : ((mc.queue k).slotAt i).scheduled = true) (hh : k = .wq → handing = none)
    (hf : mc.finishTransfer k i b = .ok mc') : mc'.CachedIn stored scheduled none := by
  have hremove : ∀ {q q' : PacketQueue}, q.entry = (mc.queue k).entry →
      SameCache (mc.queue k) q → q.removeQueue i = some q' →
      q'.updateProcessCycle.Cached (stored k) (scheduled k) none := by
    intro q q' hentry hsame hr
    unfold PacketQueue.removeQueue at hr
    split at hr
    · cases hr
    · cases hr
      exact (h k).remove (congrArg (·.set i Slot.empty) hentry) hsame.size hsame.schedule hi rfl
  unfold MemoryController.finishTransfer at hf
  dsimp only at hf
  split at hf
  · cases hf
  · rename_i q' hr
    cases hf
    have hq : q'.updateProcessCycle.Cached (stored k) (scheduled k)
        (if k = .rq then none else none) := by
      have hnone : (if k = .rq then none else none : Option Nat) = none := by split <;> rfl
      rw [hnone]
      split at hr
      · exact hremove (q := { mc.queue k with rowBufferHit := (mc.queue k).rowBufferHit + 1 })
          rfl ⟨rfl, rfl, rfl⟩ hr
      · exact hremove (q := { mc.queue k with rowBufferMiss := (mc.queue k).rowBufferMiss + 1 })
          rfl ⟨rfl, rfl, rfl⟩ hr
    refine h.setQueue hq (fun _ _ => id) (fun _ _ => id) (fun hk => ?_) ?_ ?_
    · cases k
      · exact absurd rfl hk
      · exact (hh rfl).symm
    · cases k <;> rfl
    · cases k <;> rfl

theorem CachedIn.process (h : mc.CachedIn stored scheduled none) (hok : mc.Ok)
    (hready : processReady clk (mc.queue k) = true) {r : Option Nat}
    (hp : mc.process clk k = .ok (mc', r)) : mc'.CachedIn stored scheduled r := by
  obtain ⟨-, hs⟩ := processReady_scheduled hok hready
  unfold MemoryController.process at hp
  dsimp only at hp
  split at hp
  · cases hp
  · split at hp
    · cases hp
    · split at hp
      · split at hp
        · cases k with
          | wq =>
              obtain ⟨mc₁, hf, heq⟩ := ok_of_map hp
              cases heq
              have hbusy : ({ mc with
                  dbusCycleAvailable := clk.cycle (mc.wq.slotAt mc.wq.nextProcessIndex).pkt.cpu
                    + mc.dbusReturnTime } : MemoryController).CachedIn stored scheduled none := h
              exact CachedIn.finishTransfer (k := .wq) hbusy hs (fun _ => rfl) hf
          | rq =>
              cases hp
              exact h.setQueue (k := .rq) ((h .rq).hand rfl ⟨rfl, rfl, rfl⟩ rfl hs hs)
                (fun _ _ => id) (fun _ _ => id) (fun hk => absurd rfl hk) rfl rfl
        · cases hp
          exact h
      · cases hp
        exact h

/-- A packet is stored. -/
theorem CachedIn.insert (h : mc.CachedIn stored scheduled handing) (hs : mc.Sane) {pkt : Packet}
    {i : Nat} (hi : (mc.queue k).emptyIndex = some i) (hpkt : pkt.address ≠ 0) :
    (mc.setQueue k ((mc.queue k).insert pkt)).CachedIn (fun k' => stored k' ∨ k' = k) scheduled
      handing := by
  have hfree : ((mc.queue k).slotAt i).scheduled = false := by
    by_contra hc
    rw [Bool.not_eq_false] at hc
    obtain ⟨hlt, h0, -⟩ := List.findIdx?_eq_some_iff_getElem.mp hi
    refine (hs.queue k).used_of_scheduled hc ?_
    rw [PacketQueue.slotAt, List.getElem?_eq_getElem hlt]
    simpa using h0
  exact h.setQueue ((h k).insert hi hfree hpkt) (fun k' hk hst => hst.resolve_right hk)
    (fun _ _ => id) (fun _ => rfl) rfl rfl

theorem CachedIn.forwardDone (h : mc.CachedIn stored scheduled handing) :
    mc.forwardDone.CachedIn stored scheduled handing := by
  intro k
  cases k <;> exact (h _).kept rfl ⟨rfl, rfl, rfl⟩

/-! ## A whole cycle -/

/-- The queue a cycle serves. -/
def servedQueue (mc : MemoryController) : QueueKind := if mc.writeMode then .wq else .rq

/-- The controllers `operate` passes through on its way to `process`, after
the mode switch and after the scheduling, each with the queue in which it has
scheduled an entry so far. -/
def phases (clk : Clock) (mc : MemoryController) : List (MemoryController × List QueueKind) :=
  match mc.switchMode clk with
  | .error _ => []
  | .ok mc =>
      [(mc, []), (mc.scheduleNew clk mc.servedQueue, mc.schedulesIn clk mc.servedQueue)]

/-- The queue in which `operate` schedules an entry. -/
def operateSchedules (clk : Clock) (mc : MemoryController) : List QueueKind :=
  match mc.switchMode clk with
  | .error _ => []
  | .ok mc => mc.schedulesIn clk mc.servedQueue

theorem operate_eq {mc₁ : MemoryController} (hsw : mc.switchMode clk = .ok mc₁) :
    mc.operate clk = mc₁.serve clk mc₁.servedQueue := by
  rw [operate, hsw, servedQueue]
  change (if mc₁.writeMode then mc₁.serve clk .wq else mc₁.serve clk .rq) = _
  split <;> rfl

theorem CachedIn.switchMode (h : mc.CachedIn stored scheduled none)
    (hsw : mc.switchMode clk = .ok mc') : mc'.CachedIn stored scheduled none := by
  rcases switchMode_cases hsw with ⟨rfl, -⟩ | hfresh
  · exact h
  · intro k
    have hnone : (if k = .rq then none else none : Option Nat) = none := by split <;> rfl
    rw [hnone]
    exact .refreshed (hfresh k).1 (hfresh k).2

theorem scheduleNew_ok (hok : mc.Ok) (clk : Clock) (k : QueueKind) : (mc.scheduleNew clk k).Ok := by
  unfold scheduleNew
  split
  · exact (schedule_spec hok clk k).1
  · exact hok

theorem CachedIn.serve (h : mc.CachedIn stored scheduled none) (hok : mc.Ok) {r : Option Nat}
    (hs : mc.serve clk k = .ok (mc', r)) :
    mc'.CachedIn stored (fun k' => scheduled k' ∨ k' ∈ mc.schedulesIn clk k) r := by
  rw [serve_eq] at hs
  split at hs
  · rename_i hready
    exact (h.scheduleNew clk k).process (scheduleNew_ok hok clk k) hready hs
  · cases hs
    exact h.scheduleNew clk k

/-- A cycle. -/
theorem CachedIn.operate (h : mc.CachedIn stored scheduled none) (hok : mc.Ok) {r : Option Nat}
    (ho : mc.operate clk = .ok (mc', r)) :
    mc'.CachedIn stored (fun k => scheduled k ∨ k ∈ mc.operateSchedules clk) r := by
  unfold operateSchedules
  cases hsw : mc.switchMode clk with
  | error a =>
      rw [MemoryController.operate, hsw] at ho
      cases ho
  | ok mc₁ =>
      rw [operate_eq hsw] at ho
      exact (h.switchMode hsw).serve (switchMode_spec hok hsw).1 ho

theorem phases_ok (hok : mc.Ok) {ks : List QueueKind} (hmem : (mc', ks) ∈ mc.phases clk) :
    mc'.Ok := by
  unfold phases at hmem
  split at hmem
  · cases hmem
  · rename_i mc₁ hsw
    have hok₁ := (switchMode_spec hok hsw).1
    rcases List.mem_pair.mp hmem with heq | heq
    · cases heq
      exact hok₁
    · cases heq
      exact scheduleNew_ok hok₁ clk _

theorem CachedIn.phases (h : mc.CachedIn stored scheduled none) {ks : List QueueKind}
    (hmem : (mc', ks) ∈ mc.phases clk) :
    mc'.CachedIn stored (fun k => scheduled k ∨ k ∈ ks) none := by
  unfold MemoryController.phases at hmem
  split at hmem
  · cases hmem
  · rename_i mc₁ hsw
    rcases List.mem_pair.mp hmem with heq | heq
    · cases heq
      simpa using h.switchMode hsw
    · cases heq
      exact (h.switchMode hsw).scheduleNew clk _

end MemoryController

/-! ## Runs -/

deriving instance DecidableEq for ControllerEvent

namespace Standalone

open MemoryController (CachedIn)

variable {c c' : Standalone} {op : ControllerOp}
  {base scheduled : QueueKind → Prop}

/-- A packet has been stored in a queue. -/
def Stored (c : Standalone) (k : QueueKind) : Prop := ∃ i pkt, .stored k i pkt ∈ c.log

/-- The queue in which an action schedules an entry. -/
def schedulings : ControllerOp → Standalone → Standalone → List QueueKind
  | .operate, c, _ => c.mc.operateSchedules c.clock
  | _, _, _ => []

/-- The controller, with a record of the queues in which it has scheduled. -/
def recorded : Worklist.Machine ControllerOp (Standalone × List QueueKind) ControllerOp Assertion :=
  standalone.watched (fun _ _ _ => []) schedulings

/-- The read being handed over. -/
def handing (c : Standalone) : Option Nat := c.processing.map Prod.fst

/-- The cached slots of a controller that has scheduled in certain queues;
`base` are queues whose slot to be scheduled next is known to be fresh though
nothing has been stored in them. -/
def Minimal (c : Standalone) (base scheduled : QueueKind → Prop) : Prop :=
  c.mc.CachedIn (fun k => base k ∨ c.Stored k) scheduled c.handing

theorem Minimal.answer (h : c.Minimal base scheduled) (pkt : Packet) (n : Nat) :
    (c.answer pkt n).Minimal base scheduled := by
  cases n with
  | zero => exact h.forwardDone
  | succ n =>
      intro k
      refine (h k).mono (Or.imp_right ?_) id
      rintro ⟨i, pkt', hmem⟩
      rcases List.mem_append.mp hmem with hmem | hmem
      · exact ⟨i, pkt', hmem⟩
      · simp at hmem

/-- More has been logged, and nothing stored. -/
theorem Minimal.logged (h : c.Minimal base scheduled) (hmc : c'.mc = c.mc)
    (hp : c'.processing = c.processing) {evs : List ControllerEvent} (hlog : c'.log = c.log ++ evs)
    (hevs : ∀ k i pkt, .stored k i pkt ∉ evs) : c'.Minimal base scheduled := by
  unfold Minimal handing
  rw [hmc, hp]
  refine fun k => (h k).mono (Or.imp_right ?_) id
  rintro ⟨i, pkt, hmem⟩
  rw [hlog] at hmem
  exact ⟨i, pkt, (List.mem_append.mp hmem).resolve_right (hevs k i pkt)⟩

theorem Minimal.store (h : c.Minimal base scheduled) (hs : c.Sound) {k : QueueKind} {pkt : Packet}
    (hpkt : pkt.address ≠ 0) (hroom : (c.mc.queue k).occupancy < (c.mc.queue k).size)
    (hnone : (c.mc.queue k).checkDramQueue pkt = none)
    (hmc : c'.mc = c.mc.setQueue k ((c.mc.queue k).insert pkt))
    (hlog : c'.log = c.log ++ addEvents c.mc k pkt
      (if (c.mc.queue k).emptyIndex.isSome then .inserted else .dropped))
    (hp : c'.processing = c.processing) : c'.Minimal base scheduled := by
  obtain ⟨i, hi, -⟩ := MemoryController.store_books hs.inStep hs.ok k hroom hnone
  have hinsert := CachedIn.insert h hs.ok.sane hi hpkt
  unfold Minimal handing
  rw [hmc, hp]
  refine fun k' => (hinsert k').mono ?_ id
  rintro (hbase | ⟨j, pkt', hmem⟩)
  · exact .inl (.inl hbase)
  rw [hlog] at hmem
  rcases List.mem_append.mp hmem with hmem | hmem
  · exact .inl (.inr ⟨j, pkt', hmem⟩)
  · simp only [addEvents, hi, Option.isSome_some, if_true, List.mem_singleton,
      ControllerEvent.stored.injEq] at hmem
    exact .inr hmem.1

theorem Minimal.addRq (h : c.Minimal base scheduled) (hs : c.Sound) {pkt : Packet}
    (hpkt : pkt.address ≠ 0) (hroom : c.mc.rq.occupancy < c.mc.rq.size) :
    (c.addRq pkt).Minimal base scheduled := by
  unfold Standalone.addRq MemoryController.addRq
  cases hwq : c.mc.wq.checkDramQueue pkt with
  | some i =>
      refine Minimal.answer ?_ pkt _
      exact h.logged rfl rfl rfl (by simp [addEvents])
  | none =>
      cases hrq : c.mc.rq.checkDramQueue pkt with
      | some i => exact h.logged rfl rfl rfl (by simp [addEvents])
      | none =>
          dsimp only
          split
          · rename_i heq
            split at heq <;> cases heq
          · exact h.store hs (k := .rq) hpkt hroom hrq rfl rfl rfl

theorem Minimal.addWq (h : c.Minimal base scheduled) (hs : c.Sound) {pkt : Packet}
    (hpkt : pkt.address ≠ 0) (hroom : c.mc.wq.occupancy < c.mc.wq.size) :
    (c.addWq pkt).Minimal base scheduled := by
  unfold Standalone.addWq MemoryController.addWq
  cases hwq : c.mc.wq.checkDramQueue pkt with
  | some i => exact h.logged rfl rfl rfl (by simp [addEvents])
  | none => exact h.store hs (k := .wq) hpkt hroom hwq rfl rfl rfl

theorem Minimal.operate (h : c.Minimal base scheduled) (hs : c.Sound) (hp : c.processing = none)
    (ho : c.operate = .ok c') :
    c'.Minimal base fun k => scheduled k ∨ k ∈ c.mc.operateSchedules c.clock := by
  have hnone : c.mc.CachedIn (fun k => base k ∨ c.Stored k) scheduled none := by
    have hh : c.handing = none := by rw [handing, hp]; rfl
    rw [← hh]
    exact h
  have hlog : ∀ evs : List ControllerEvent, (∀ k i pkt, .stored k i pkt ∉ evs) →
      ∀ k, (∃ i pkt, .stored k i pkt ∈ c.log ++ evs) → c.Stored k := by
    rintro evs hevs k ⟨i, pkt, hmem⟩
    exact ⟨i, pkt, (List.mem_append.mp hmem).resolve_right (hevs k i pkt)⟩
  unfold Standalone.operate at ho
  split at ho
  · cases ho
  · rename_i mc heq
    cases ho
    have hh : ({ c with mc := mc, log := c.log ++ writeEvents c.clock c.mc } : Standalone).handing
        = none := by rw [handing, hp]; rfl
    unfold Minimal
    rw [hh]
    refine fun k => (hnone.operate hs.ok heq k).mono (Or.imp_right (hlog _ ?_ k)) id
    intro k' i pkt
    unfold writeEvents
    split <;> simp
  · rename_i mc i heq
    cases ho
    exact fun k => (hnone.operate hs.ok heq k).mono (Or.imp_right (hlog _ (by simp) k)) id

theorem Minimal.returnCallback (h : c.Minimal base scheduled) (hs : c.Sound)
    (hr : c.returnCallback = .ok c') : c'.Minimal base scheduled := by
  unfold Standalone.returnCallback at hr
  split at hr
  · cases hr
    refine Minimal.answer ?_ _ _
    exact h.logged rfl rfl (show c.log = c.log ++ [] from (List.append_nil _).symm) (by simp)
  · rename_i i b ha hp
    split at hr
    · cases hr
    · rename_i mc hdone
      cases hr
      refine fun k => (CachedIn.finishTransfer (k := .rq) h (hs.processing i b hp).1 nofun hdone
        k).mono (Or.imp_right ?_) id
      rintro ⟨j, pkt, hmem⟩
      rcases List.mem_append.mp hmem with hmem | hmem
      · exact ⟨j, pkt, hmem⟩
      · simp at hmem
  · cases hr
    exact h

theorem Minimal.exec (h : c.Minimal base scheduled) (hs : c.Sound) (hp : permits op c = true)
    (he : exec op c = .ok c') :
    c'.Minimal base fun k => scheduled k ∨ k ∈ schedulings op c c' := by
  cases op with
  | operate =>
      refine h.operate hs ?_ he
      simp only [permits, Bool.and_eq_true, Option.isNone_iff_eq_none] at hp
      exact hp.2
  | tick clk =>
      cases he
      exact fun k => (h k).mono id fun hsc => hsc.resolve_right (by simp [schedulings])
  | addRq pkt =>
      simp only [permits, Bool.and_eq_true, decide_eq_true_eq] at hp
      cases he
      exact fun k => (h.addRq hs hp.1 hp.2 k).mono id fun hsc =>
        hsc.resolve_right (by simp [schedulings])
  | addWq pkt =>
      simp only [permits, Bool.and_eq_true, decide_eq_true_eq] at hp
      cases he
      exact fun k => (h.addWq hs hp.1 hp.2 k).mono id fun hsc =>
        hsc.resolve_right (by simp [schedulings])
  | returnCallback =>
      exact fun k => (h.returnCallback hs he k).mono id fun hsc =>
        hsc.resolve_right (by simp [schedulings])

end Standalone

namespace PacketQueue

/-- A cached index and its cycle name the oldest selected slot, or `SIZE` and
`UINT64_MAX` when none is selected. -/
def Names (q : PacketQueue) (sel : Slot → Bool) (index cycle : Nat) : Prop :=
  (∃ i, q.Oldest sel i ∧ index = i ∧ cycle = (q.slotAt i).pkt.eventCycle) ∨
    (∀ i, sel (q.slotAt i) = false) ∧ index = q.size ∧ cycle = uint64Max

theorem Timely.names {q : PacketQueue} (h : q.Timely) {sel : Slot → Bool} {index cycle : Nat}
    (hused : ∀ i, sel (q.slotAt i) = true → (q.slotAt i).pkt.address ≠ 0)
    (hfresh : q.minSlot sel = (cycle, index)) : q.Names sel index cycle := by
  rcases h.minSlot sel hused with ⟨hmin, hnone⟩ | ⟨i, hold, hmin⟩
  · obtain ⟨rfl, rfl⟩ := Prod.mk.inj (hmin.symm.trans hfresh)
    refine .inr ⟨fun i => ?_, rfl, rfl⟩
    by_contra hs
    rw [Bool.not_eq_false] at hs
    exact Bool.eq_false_iff.mp (hnone i (lt_of_used (hused i hs))) hs
  · obtain ⟨rfl, rfl⟩ := Prod.mk.inj (hmin.symm.trans hfresh)
    exact .inl ⟨i, hold, rfl, rfl⟩

end PacketQueue

namespace Standalone

/-- The controllers at which the cached slots are looked at: the one between
two actions and, where the next action may be a cycle, those it passes
through; each with the queues in which that cycle has scheduled so far. -/
def moments (c : Standalone) : List (MemoryController × List QueueKind) :=
  (c.mc, []) :: if permits .operate c then c.mc.phases c.clock else []

/-- The invariant of a recorded run. -/
theorem recorded_minimal {tRP tRCD tCAS dbusReturnTime : Nat} {clk : Clock}
    {x : Worklist.Config (Standalone × List QueueKind) ControllerOp}
    (h : Reaches (recorded.gated fun op x => permits op x.1) (fun _ => True)
      (.new tRP tRCD tCAS dbusReturnTime clk, []) x) :
    x.2.1.Sound ∧ x.2.1.Minimal (fun _ => False) (· ∈ x.2.2) := by
  have hnew : (new tRP tRCD tCAS dbusReturnTime clk).Sound :=
    ⟨MemoryController.new_ok .., MemoryController.new_inStep .., fun i b hib => by cases hib⟩
  have hminimal : (new tRP tRCD tCAS dbusReturnTime clk).Minimal (fun _ => False) (· ∈ []) := by
    have hstored : ∀ k, ¬ (new tRP tRCD tCAS dbusReturnTime clk).Stored k := by
      rintro k ⟨i, pkt, hmem⟩
      cases hmem
    intro k
    cases k <;> exact .new _ (by simp [hstored]) List.not_mem_nil
  have hinv := (ReachesIf.gated_invariant (M := recorded)
    (P := fun x => x.2.1.Sound ∧ x.2.1.Minimal (fun _ => False) (· ∈ x.2.2) ∧
      ∀ op K, x.1 = op :: K → permits op x.2.1 = true ∧ K = []) ⟨hnew, hminimal, by simp⟩ ?_ ?_ h).2
  · exact ⟨hinv.1, hinv.2.1⟩
  · rintro op ⟨c, record⟩ - hg - ⟨hs, hm, -⟩
    refine ⟨hs, ?_, ?_⟩
    · change c.Minimal (fun _ => False) (· ∈ record ++ [])
      rw [List.append_nil]
      exact hm
    · rintro op' K ⟨⟩
      exact ⟨hg, rfl⟩
  · rintro op K ⟨c, record⟩ ⟨c', record'⟩ ks - - ⟨hs, hm, hK⟩ he
    obtain ⟨hg, rfl⟩ := hK op K rfl
    obtain ⟨he, hrecord⟩ := Worklist.watched_exec he
    obtain ⟨c₁, -, hexec, -, hs', -⟩ := exec_spec hs hg
    obtain ⟨c₂, he, heq⟩ := ok_of_map he
    rw [hexec] at he
    cases he
    cases heq
    refine ⟨hs', ?_, by simp⟩
    have hstep := hm.exec hs hg hexec
    change record' = record ++ schedulings op c c' at hrecord
    simpa only [hrecord, List.mem_append] using hstep

end Standalone

/-- **No entry is skipped.** Once a packet has been stored in a queue, the slot
to be scheduled next is the oldest one that waits, and once an entry of the
queue has been scheduled, the slot to be processed next is the oldest one that
is scheduled: after every action, inside callbacks and outside, and in the
middle of a cycle. A read that is being handed over is the one exception, and
it is the slot to be processed next until it has left the queue. -/
theorem next_slots {tRP tRCD tCAS dbusReturnTime : Nat} {clk : Clock}
    {x : Worklist.Config (Standalone × List QueueKind) ControllerOp}
    (h : Reaches (Standalone.recorded.gated fun op x => Standalone.permits op x.1)
      (fun _ => True) (.new tRP tRCD tCAS dbusReturnTime clk, []) x)
    {mc : MemoryController} {ks : List QueueKind} (hmc : (mc, ks) ∈ x.2.1.moments)
    (k : QueueKind) (htime : (mc.queue k).Timely) :
    (x.2.1.Stored k → (mc.queue k).Names (fun sl => decide (sl.pkt.address ≠ 0) && !sl.scheduled)
      (mc.queue k).nextScheduleIndex (mc.queue k).nextScheduleCycle) ∧
    (k ∈ x.2.2 ++ ks → (k = .rq → x.2.1.processing = none) → (mc.queue k).Names (·.scheduled)
      (mc.queue k).nextProcessIndex (mc.queue k).nextProcessCycle) ∧
    (∀ i b, x.2.1.processing = some (i, b) → mc.rq.nextProcessIndex = i) := by
  obtain ⟨hs, hm⟩ := Standalone.recorded_minimal h
  have hcached : mc.Ok ∧ mc.CachedIn (fun k => False ∨ x.2.1.Stored k) (· ∈ x.2.2 ++ ks) x.2.1.handing := by
    rcases List.mem_cons.mp hmc with heq | hphase
    · cases heq
      rw [List.append_nil]
      exact ⟨hs.ok, hm⟩
    · split at hphase
      · rename_i hp
        simp only [Standalone.permits, Bool.and_eq_true, Option.isNone_iff_eq_none] at hp
        have hnone : x.2.1.handing = none := by rw [Standalone.handing, hp.2]; rfl
        unfold Standalone.Minimal at hm
        rw [hnone] at hm ⊢
        simp only [List.mem_append]
        exact ⟨MemoryController.phases_ok hs.ok hphase, hm.phases hphase⟩
      · cases hphase
  obtain ⟨hok, hcached⟩ := hcached
  refine ⟨fun hst => htime.names (fun i hw => (PacketQueue.waits_iff.mp hw).1) ?_, fun hk hp =>
    htime.names (fun i hsc => (hok.queue k).toSane.used_of_scheduled hsc) ?_, fun i b hp => ?_⟩
  · exact (hcached k).schedule.resolve_right fun hu => hu.1 (.inr hst)
  · rcases (hcached k).process with ⟨i, hi, -⟩ | ⟨-, hfresh⟩
    · -- only the read queue hands a slot over
      split at hi
      · rename_i hr
        rw [Standalone.handing, hp hr] at hi
        cases hi
      · cases hi
    · exact hfresh.resolve_right fun hu => hu.1 hk
  · rcases (hcached .rq).process with ⟨j, hj, hidx⟩ | ⟨hnone, -⟩
    · rw [if_pos rfl, Standalone.handing, hp] at hj
      cases hj
      exact hidx
    · rw [if_pos rfl, Standalone.handing, hp] at hnone
      cases hnone

/-- Two reads, and a cycle that schedules the first of them. -/
theorem next_slots_two_reads : ∃ x, Worklist.drive
      (Standalone.recorded.gated fun op x => Standalone.permits op x.1) 2
      [.addRq (.stamped 5), .addRq (.stamped 6), .operate] (.new 22 22 22 10 .zero, []) = some x ∧
    x.1.mc.rq.nextScheduleIndex = 1 ∧ x.1.mc.rq.nextProcessIndex = 0 ∧
    x.1.mc.rq.Names (fun sl => decide (sl.pkt.address ≠ 0) && !sl.scheduled)
      x.1.mc.rq.nextScheduleIndex x.1.mc.rq.nextScheduleCycle ∧
    x.1.mc.rq.Names (·.scheduled) x.1.mc.rq.nextProcessIndex x.1.mc.rq.nextProcessCycle := by
  obtain ⟨x, hx, hconf⟩ := Option.map_eq_some_iff.mp (show (Worklist.drive
    (Standalone.recorded.gated fun op x => Standalone.permits op x.1) 2
    [.addRq (.stamped 5), .addRq (.stamped 6), .operate] (.new 22 22 22 10 .zero, [])).map
      (fun x => decide (x.2 = [.rq] ∧ x.1.log.head? = some (.stored .rq 0 (.stamped 5)) ∧
        x.1.processing = none ∧ x.1.mc.rq.nextScheduleIndex = 1 ∧
        x.1.mc.rq.nextProcessIndex = 0 ∧
        ∀ sl ∈ x.1.mc.rq.entry, sl.pkt.address ≠ 0 → sl.pkt.eventCycle < uint64Max))
      = some true from by decide +kernel)
  rw [decide_eq_true_eq] at hconf
  obtain ⟨hrecord, hlog, hp, hsched, hproc, htime⟩ := hconf
  obtain ⟨hs, hq, -⟩ := next_slots (Worklist.drive_reaches (fun _ _ => trivial) .refl hx)
    (List.mem_cons_self ..) .rq (PacketQueue.timely_of_entries htime)
  refine ⟨x, hx, hsched, hproc, hs ⟨0, _, List.mem_of_head? hlog⟩, hq ?_ fun _ => hp⟩
  rw [List.append_nil, hrecord]
  exact List.mem_singleton_self _

end DramCache
