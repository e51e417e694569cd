import DramCache.Admission
import DramCache.WriteBack

/-!
# The write-back backlog

Admission is throttled by the length of WB, but a request that conflicts
with one under way waits in the CRB instead and is admitted later without
the check, and with link latency WB empties into the pending dispatches
before far memory takes anything. So there is no bound of its own on the
write-backs far memory has not taken. What holds is that every one beyond
those the ORB and the CRB can cause has been paid for by a request
accepted meanwhile.
-/

namespace DramCache

open Worklist (ReachesIf Reaches Runs)

/-- The write-backs far memory has not taken: those in WB and those among
the pending dispatches. -/
def backlog (x : Worklist.Config Sys Call) : Nat :=
  x.2.dcm.wb.length + (writes (parcels (x.2.live (hook x.1) .far))).length

theorem backlog_boundary (s : Sys) :
    backlog ([], s) = s.dcm.wb.length + s.dcm.pendingWrites.length := rfl

/-- The write-backs that need no further request: the victims recorded in
the ORB, and one for each request in the CRB. -/
def Manager.reserve (m : Manager) : Nat := Multiset.card m.recorded + m.crb.length

/-! ## What a controller has taken it keeps -/

namespace Sys

section Taken

variable {s s' : Sys} {side : Side} {pkt : Packet} {w ok : Bool} {ks : List Call}

theorem Sent.sends_grow (h : Sent s side pkt w s' ok ks) :
    ∃ l, s'.dcm.sends = s.dcm.sends ++ l := by
  cases h with
  | refused _ hsends =>
      rcases hsends with hsends | ⟨-, i, hsends⟩
      · exact ⟨[], by rw [hsends, List.append_nil]⟩
      · exact ⟨_, hsends⟩
  | wrote _ hsends _ => exact ⟨_, hsends⟩
  | inserted _ _ _ _ _ _ hsends => exact ⟨_, hsends⟩
  | forwarded _ _ hsends => exact ⟨_, hsends⟩

theorem Dispatched.sends_grow (h : Dispatched s side pkt w s' ks) :
    ∃ l, s'.dcm.sends = s.dcm.sends ++ l := by
  cases h with
  | sent hs => exact hs.sends_grow
  | queued _ _ _ hsends =>
      rcases hsends with hsends | ⟨-, i, hsends⟩
      · exact ⟨[], by rw [hsends, List.append_nil]⟩
      · exact ⟨_, hsends⟩

theorem CallStep.sends_grow {c : Call} (h : CallStep s c s' ks) :
    ∃ l, s'.dcm.sends = s.dcm.sends ++ l := by
  have hsame : s'.dcm.sends = s.dcm.sends → ∃ l, s'.dcm.sends = s.dcm.sends ++ l :=
    fun hs => ⟨[], by rw [hs, List.append_nil]⟩
  cases h with
  | core _ ht => exact hsame ht.sends
  | drive hd =>
      cases hd with
      | idle => exact hsame rfl
      | readNear _ _ _ _ hd => exact hd.sends_grow
      | readFar _ _ _ _ hd => exact hd.sends_grow
      | writeNear _ _ _ _ hd => exact hd.sends_grow
  | fill _ hd => exact hd.sends_grow
  | kept _ ht => exact hsame ht.sends
  | drained _ _ hd => exact hd.sends_grow
  | released side _ hr =>
      cases hr with
      | kept _ _ hsends =>
          rcases hsends with hsends | ⟨_, _, hsends⟩
          · exact hsame hsends
          · exact ⟨_, hsends⟩
      | sent _ _ hsent => exact hsent.sends_grow
  | popped _ _ _ _ _ hsends => exact hsame hsends
  | served _ hdcm => exact hsame (by rw [hdcm])
  | finished hdcm => exact hsame (by rw [hdcm])
  | readDone hdcm => exact hsame (by rw [hdcm])

theorem CallStep.taken_grows {c : Call} (h : CallStep s c s' ks) (x : Side) :
    ∃ l, DramCache.taken x s'.dcm.sends = DramCache.taken x s.dcm.sends ++ l := by
  obtain ⟨l, hl⟩ := h.sends_grow
  exact ⟨DramCache.taken x l, by rw [hl, taken_append]⟩

end Taken

/-- The histories of a later configuration extend those of an earlier
one. -/
structure Later (s s' : Sys) : Prop where
  log : ∃ l, s'.dcm.log = s.dcm.log ++ l
  taken : ∀ x, ∃ l, DramCache.taken x s'.dcm.sends = DramCache.taken x s.dcm.sends ++ l

theorem Later.refl (s : Sys) : Later s s :=
  ⟨⟨[], (List.append_nil _).symm⟩, fun _ => ⟨[], (List.append_nil _).symm⟩⟩

theorem Later.trans {s₁ s₂ s₃ : Sys} (h₁ : Later s₁ s₂) (h₂ : Later s₂ s₃) : Later s₁ s₃ := by
  constructor
  · obtain ⟨l₁, hl₁⟩ := h₁.log
    obtain ⟨l₂, hl₂⟩ := h₂.log
    exact ⟨l₁ ++ l₂, by rw [hl₂, hl₁, List.append_assoc]⟩
  · intro x
    obtain ⟨l₁, hl₁⟩ := h₁.taken x
    obtain ⟨l₂, hl₂⟩ := h₂.taken x
    exact ⟨l₁ ++ l₂, by rw [hl₂, hl₁, List.append_assoc]⟩

end Sys

/-! ## Accepted requests are admitted or wait -/

theorem IndexFifo.perm {m : Manager} (h : IndexFifo m) :
    (accepted m.log).Perm (admittedRequests m.log ++ m.waiting) := by
  refine List.perm_iff_count.mpr fun r => ?_
  have hself : ∀ l : List Request,
      (Keyed.restrict Request.indexDC r.indexDC l).count r = l.count r := fun l =>
    List.count_filter (by simp)
  have := congrArg (List.count r) (h r.indexDC)
  rw [List.count_append, hself, hself, hself] at this
  rw [List.count_append]
  exact this

theorem IndexFifo.length {m : Manager} (h : IndexFifo m) :
    (accepted m.log).length = (admitted m.log).length + m.crb.length := by
  have := h.perm.length_eq
  rw [List.length_append, admittedRequests, List.length_map, Manager.waiting,
    List.length_map] at this
  exact this

theorem evicted_length_le (log : List Event) : (evicted log).length ≤ (admitted log).length :=
  List.length_filterMap_le ..

section Run

variable {allow : Op → Prop} {ok : Worklist.Config Sys Call → Prop} {s₀ : Sys}
  {x y : Worklist.Config Sys Call}

theorem later_of_runs (hroi : ∀ op, allow op → op.Roi) (h₀ : s₀.Fresh)
    (hx : ReachesIf machine allow ok s₀ x) (hxy : Runs machine allow ok x y) :
    x.2.Later y.2 := by
  refine Runs.invariant (P := fun y => x.2.Later y.2) hxy (.refl _) ?_ ?_
  · intro op s ha _ hr hp
    have hstep := Sys.enter_enterStep (live_of_reaches hroi h₀.live (hx.runs hr)) (hroi op ha)
    obtain ⟨evs, hlog, -⟩ := hstep.front.log_append
    have hsends : (s.enter op).1.dcm.sends = s.dcm.sends := hstep.calm.2
    have htaken : ∀ side, taken side (s.enter op).1.dcm.sends
        = taken side s.dcm.sends ++ [] := fun side => by rw [hsends, List.append_nil]
    exact hp.trans ⟨⟨evs, hlog⟩, fun side => ⟨[], htaken side⟩⟩
  · intro c K s s' ks _ hr hp he
    have hreach := hx.runs hr
    have hstep := (poised_of_reaches hroi h₀ hreach).exec (live_of_reaches hroi h₀.live hreach) he
    obtain ⟨evs, hlog⟩ := (Sys.exec_frontStep he).log_append
    exact hp.trans ⟨⟨evs, hlog⟩, hstep.taken_grows⟩

/-- Every eviction is recorded, on its way or taken by far memory. -/
theorem evicted_of_reaches (hroi : ∀ op, allow op → op.Roi) (h₀ : s₀.Fresh)
    (hx : ReachesIf machine allow ok s₀ x) :
    (evicted x.2.dcm.log).length
      = Multiset.card x.2.dcm.recorded + backlog x + x.2.dcm.written.length := by
  have hflow : WbFlow x.2.dcm.core := (wbFlow_of_reaches hroi h₀ hx).2
  have hcard := congrArg Multiset.card hflow.recorded
  have hfifo := congrArg List.length hflow.fifo
  have hperm := (delivered_of_reaches hroi h₀ hx .far).filter fun p => p.2
  have hdrained := (hperm.map fun p => p.1).length_eq
  have hsplit : writes (x.2.inbound (hook x.1) .far)
      = x.2.dcm.written ++ writes (parcels (x.2.live (hook x.1) .far)) := writes_append ..
  change (writes (handed .far x.2.dcm.log)).length
    = (writes (x.2.inbound (hook x.1) .far)).length at hdrained
  rw [← drainedLines_eq, hsplit, List.length_append] at hdrained
  simp only [Multiset.coe_card, Multiset.card_add, List.length_map, List.length_append]
    at hcard hfifo
  have hlog : x.2.dcm.core.log = x.2.dcm.log := rfl
  have hrec : x.2.dcm.core.recorded = x.2.dcm.recorded := rfl
  have hwb : x.2.dcm.core.wb = x.2.dcm.wb := rfl
  rw [hlog, hrec] at hcard
  rw [hlog, hwb] at hfifo
  unfold backlog
  omega

theorem victim_card_le (e : OrbEntry) : Multiset.card e.victim ≤ 1 := by
  unfold OrbEntry.victim
  split <;> simp

/-- The ORB and the CRB hold the write-backs still to come. -/
theorem reserve_le (hroi : ∀ op, allow op → op.Roi) (h₀ : s₀.Fresh)
    (hx : ReachesIf machine allow ok s₀ x) :
    x.2.dcm.reserve ≤ dcmOrbMaxSize + dcmCrbMaxSize := by
  have hinv : OrbInv (Ctl.of x.1) x.2.dcm.core := (orbInv_of_reaches hroi h₀ hx).2
  have horb : x.2.dcm.orbSize ≤ dcmOrbMaxSize := le_trans (Nat.le_add_right _ _) hinv.orbSize
  have hcrb : x.2.dcm.crb.length ≤ dcmCrbMaxSize := hinv.crbSize
  have hrec : Multiset.card x.2.dcm.recorded ≤ x.2.dcm.orbSize :=
    Keyed.card_total_le OrbEntry.victim victim_card_le x.2.dcm.orb
  unfold Manager.reserve
  omega

/-- **What a run adds to the backlog it has accepted requests for**, the
reserve apart. -/
theorem backlog_growth (hroi : ∀ op, allow op → op.Roi) (h₀ : s₀.Fresh)
    (hx : ReachesIf machine allow ok s₀ x) (hxy : Runs machine allow ok x y) :
    backlog y + (accepted x.2.dcm.log).length
      ≤ backlog x + x.2.dcm.reserve + (accepted y.2.dcm.log).length := by
  obtain ⟨⟨l, hlog⟩, htaken⟩ := later_of_runs hroi h₀ hx hxy
  obtain ⟨m, hfar⟩ := htaken .far
  have hwritten : x.2.dcm.written.length ≤ y.2.dcm.written.length := by
    rw [Manager.written, Manager.written, hfar, writes_append, List.length_append]
    exact Nat.le_add_right _ _
  have hevicted : (evicted y.2.dcm.log).length
      = (evicted x.2.dcm.log).length + (evicted l).length := by
    rw [hlog, evicted_append, List.length_append]
  have hadmitted : (admitted y.2.dcm.log).length
      = (admitted x.2.dcm.log).length + (admitted l).length := by
    rw [hlog, admitted_append, List.length_append]
  have hle := evicted_length_le l
  have hex := evicted_of_reaches hroi h₀ hx
  have hey := evicted_of_reaches hroi h₀ (hx.runs hxy)
  have hax : (accepted x.2.dcm.log).length = (admitted x.2.dcm.log).length + x.2.dcm.crb.length :=
    (indexFifo_of_reaches hroi h₀ hx).length
  have hay : (accepted y.2.dcm.log).length = (admitted y.2.dcm.log).length + y.2.dcm.crb.length :=
    (indexFifo_of_reaches hroi h₀ (hx.runs hxy)).length
  unfold Manager.reserve
  omega

end Run

/-! ## Back-pressure -/

/-- The upper level makes a request only when the occupancy it is told is
not the size. -/
def Op.fits (op : Op) (s : Sys) : Bool :=
  match op.request? with
  | some (w, pkt) => decide (s.getOccupancy (Sys.gateType w) pkt.address
      ≠ s.getSize (Sys.gateType w) pkt.address)
  | none => true

/-- ... and none while the backlog is at the threshold. -/
def Op.spares (op : Op) (s : Sys) : Bool :=
  op.fits s && (op.request?.isNone || decide (backlog ([], s) < dcmWbPressureThreshold))

section Main

variable {allow : Op → Prop} {s₀ : Sys}

theorem FrontEnter.wb {m m' : Manager} {op : Op} {ks : List Call} (h : FrontEnter m op m' ks) :
    m'.wb = m.wb := by
  cases h with
  | admitted now => exact Manager.admitEntry_wb ..
  | _ => rfl

/-- Only operations accept. -/
theorem FrontStep.accepted_eq {m m' : Manager} {c : Call} {ks : List Call}
    (h : FrontStep m c m' ks) : accepted m'.log = accepted m.log := by
  obtain ⟨evs, hlog, hevs⟩ := h.emits
  have hnone : accepted evs = [] := List.filterMap_eq_nil_iff.mpr fun ev hev => by
    have := hevs ev hev
    cases ev with
    | accepted => cases c <;> cases this
    | _ => rfl
  rw [hlog, accepted_append, hnone, List.append_nil]

theorem FrontEnter.accepted_eq {m m' : Manager} {op : Op} {ks : List Call}
    (h : FrontEnter m op m' ks) (hop : op.request? = none) : accepted m'.log = accepted m.log := by
  rcases h.silent_or_request with hs | ⟨w, pkt, now, hreq, -⟩
  · exact hs.accepted
  · rw [hop] at hreq
    cases hreq

/-- Entering an operation adds nothing to the backlog. -/
theorem backlog_enter {s : Sys} {op : Op} (hs : s.Live) (hop : op.Roi) :
    backlog ((s.enter op).2, (s.enter op).1) = backlog ([], s) := by
  have hstep := Sys.enter_enterStep hs hop
  have hwb : (s.enter op).1.dcm.core.wb = s.dcm.core.wb := hstep.front.wb
  have hhook := (Sys.FrontEnter.stacked hstep.front).2
  unfold backlog
  rw [show (s.enter op).1.dcm.wb = s.dcm.wb from hwb, hhook]
  show _ + (writes (parcels ((s.enter op).1.live none .far))).length = _
  rw [Sys.live_congr none (hstep.calm.1 .far)]
  rfl

/-- In the restrained environment nothing was accepted since a
configuration below the threshold. -/
theorem last_request (hroi : ∀ op, allow op → op.Roi) (h₀ : s₀.Fresh)
    {y : Worklist.Config Sys Call} (hy : Reaches (machine.gated Op.spares) allow s₀ y) :
    ∃ x, Reaches machine allow s₀ x ∧ Runs machine allow (fun _ => True) x y ∧
      backlog x < dcmWbPressureThreshold ∧ accepted y.2.dcm.log = accepted x.2.dcm.log := by
  refine (ReachesIf.gated_invariant (M := machine) (P := fun y => ∃ x, Reaches machine allow s₀ x ∧
    Runs machine allow (fun _ => True) x y ∧ backlog x < dcmWbPressureThreshold ∧
      accepted y.2.dcm.log = accepted x.2.dcm.log) ?_ ?_ ?_ hy).2
  · refine ⟨([], s₀), .refl, Relation.ReflTransGen.refl, ?_, rfl⟩
    have hpend : s₀.dcm.pendingWrites = [] := by
      show writes (parcels (s₀.dcm.pendingFarDispatches.map _)) = []
      rw [h₀.far]
      rfl
    rw [backlog_boundary, h₀.wb, hpend]
    decide
  · rintro op s ha hg hr ⟨x, hx, hxs, hlow, hacc⟩
    have hlive := live_of_reaches hroi h₀.live hr
    have hfront := Sys.enter_frontEnter hlive (hroi op ha)
    cases hop : op.request? with
    | none =>
        refine ⟨x, hx, Relation.ReflTransGen.tail hxs (.enter ha trivial), hlow, ?_⟩
        have hsame : accepted (s.enter op).1.dcm.log = accepted s.dcm.log :=
          hfront.accepted_eq hop
        exact hsame.trans hacc
    | some r =>
        refine ⟨_, hr.enter ha trivial, Relation.ReflTransGen.refl, ?_, rfl⟩
        simp only [Op.spares, hop, Option.isNone_some, Bool.false_or, Bool.and_eq_true,
          decide_eq_true_eq] at hg
        exact lt_of_eq_of_lt (backlog_enter hlive (hroi op ha)) hg.2
  · rintro c K s s' ks - hr ⟨x, hx, hxs, hlow, hacc⟩ he
    have hsame : accepted s'.dcm.log = accepted s.dcm.log := (Sys.exec_frontStep he).accepted_eq
    exact ⟨x, hx, Relation.ReflTransGen.tail hxs (.call he trivial), hlow, hsame.trans hacc⟩

/-- **The backlog and the requests accepted.** Beyond what the threshold,
the ORB and the CRB allow there are at most as many write-backs as requests
accepted since the backlog was last below the threshold; so the bound
holds where none is made above it. -/
theorem write_backs_bounded (hroi : ∀ op, allow op → op.Roi) (h₀ : s₀.Fresh) :
    (∀ x y, Reaches machine allow s₀ x → Runs machine allow (fun _ => True) x y →
      backlog x < dcmWbPressureThreshold →
      backlog y + (accepted x.2.dcm.log).length
        ≤ (dcmWbPressureThreshold - 1) + dcmOrbMaxSize + dcmCrbMaxSize
          + (accepted y.2.dcm.log).length) ∧
    ∀ y, Reaches (machine.gated Op.spares) allow s₀ y →
      backlog y ≤ (dcmWbPressureThreshold - 1) + dcmOrbMaxSize + dcmCrbMaxSize := by
  have hgrowth : ∀ x y, Reaches machine allow s₀ x → Runs machine allow (fun _ => True) x y →
      backlog x < dcmWbPressureThreshold →
      backlog y + (accepted x.2.dcm.log).length
        ≤ (dcmWbPressureThreshold - 1) + dcmOrbMaxSize + dcmCrbMaxSize
          + (accepted y.2.dcm.log).length := by
    intro x y hx hxy hlow
    have hgrow := backlog_growth hroi h₀ hx hxy
    have hreserve := reserve_le hroi h₀ hx
    omega
  refine ⟨hgrowth, fun y hy => ?_⟩
  obtain ⟨x, hx, hxy, hlow, hacc⟩ := last_request hroi h₀ hy
  have := hgrowth x y hx hxy hlow
  rw [hacc] at this
  exact Nat.le_of_add_le_add_right this

end Main

/-- A dirty line is evicted: one write-back after two requests. -/
theorem write_backs_bounded_eviction :
    ∃ s, Worklist.drive (machine.gated Op.spares) 60
        [.addWq (.readOf 5), .operate, .addRq (.readOf (5 + dcmNumLines)), .operate]
        (.cold .baselineCascadeLake 0) = some s ∧
      backlog ([], s) = 1 ∧ (accepted s.dcm.log).length = 2 ∧
      backlog ([], s) + (accepted (Sys.cold .baselineCascadeLake 0).dcm.log).length
        ≤ (dcmWbPressureThreshold - 1) + dcmOrbMaxSize + dcmCrbMaxSize
          + (accepted s.dcm.log).length ∧
      backlog ([], s) ≤ (dcmWbPressureThreshold - 1) + dcmOrbMaxSize + dcmCrbMaxSize := by
  obtain ⟨s, hs, hconf⟩ := Option.map_eq_some_iff.mp (show (Worklist.drive
    (machine.gated Op.spares) 60
    [.addWq (.readOf 5), .operate, .addRq (.readOf (5 + dcmNumLines)), .operate]
    (.cold .baselineCascadeLake 0)).map
      (fun s => (backlog ([], s), (accepted s.dcm.log).length)) = some (1, 2) from by
        decide +kernel)
  have hroi : ∀ op : Op, op.Roi → op.Roi := fun _ h => h
  have hr : Reaches (machine.gated Op.spares) Op.Roi (.cold .baselineCascadeLake 0) ([], s) := by
    refine Worklist.drive_reaches ?_ .refl hs
    simp [Op.Roi]
  have hrun : Runs machine Op.Roi (fun _ => True) ([], .cold .baselineCascadeLake 0) ([], s) :=
    hr.ungated
  have hbound := write_backs_bounded hroi (Sys.cold_fresh .baselineCascadeLake 0)
  exact ⟨s, hs, (Prod.mk.inj hconf).1, (Prod.mk.inj hconf).2,
    hbound.1 _ _ .refl hrun (by decide), hbound.2 _ hr⟩

/-! ## A chain of conflicts

31 writes to two lines of one index wait behind a write to a third, and
behind them one to a fourth. Both lines stand in the near write queue, so
the 31 complete as soon as the first does, each evicting the one before,
and the fourth becomes the entry the next ones conflict with. No request is
ever held up by the pressure on WB, which grows by 31 lines a cycle while
far memory takes one. -/

/-- The `k`-th line of index 5. -/
def Packet.conflicting (k : Nat) : Packet := .readOf (5 + k * dcmNumLines)

/-- One cycle. -/
def cycleOps (n : Nat) : List Op :=
  [.tick (.at (n % uint64Max) (Nat.mod_lt _ (by decide))), .operate]

/-- The writes of a cycle. -/
def conflictOps (n : Nat) : List Op :=
  ((List.range 31).map fun i => .addWq (.conflicting (i % 2))) ++ [.addWq (.conflicting (n + 3))]

/-- Both lines are written, then a chain of conflicts for eight cycles. -/
def chainOps : List Op :=
  [.addWq (.conflicting 2), .addWq (.conflicting 0)] ++ cycleOps 1 ++ [.addWq (.conflicting 1)]
    ++ cycleOps 2 ++ (List.range 8).flatMap fun n => conflictOps n ++ cycleOps (n + 3)

/-- Hand a number on evaluated. -/
def settle {β : Type} (n : Nat) (k : Nat → β) : β :=
  match n with
  | 0 => k 0
  | n + 1 => k (n + 1)

theorem settle_eq {β : Type} : ∀ (n : Nat) (k : Nat → β), settle n k = k n
  | 0, _ => rfl
  | _ + 1, _ => rfl

/-- A controller with the row evaluated that bank 5 has open: it is carried
along unread while the bank is closed, transfer after transfer. -/
def MemoryController.settled (mc : MemoryController) (k : MemoryController → Option Sys) :
    Option Sys :=
  settle (mc.bankRequest 5).openRow fun row =>
    k (mc.setBank 5 { mc.bankRequest 5 with openRow := row })

theorem MemoryController.settled_eq (mc : MemoryController) (k : MemoryController → Option Sys) :
    mc.settled k = k mc := by
  rw [settled, settle_eq]
  exact congrArg k (congrArg (fun f => { mc with bankRequest := f })
    (Function.update_eq_self 5 mc.bankRequest))

def Sys.settled (s : Sys) (k : Sys → Option Sys) : Option Sys :=
  s.nearMC.settled fun near => s.farMC.settled fun far => k { s with nearMC := near, farMC := far }

theorem Sys.settled_eq (s : Sys) (k : Sys → Option Sys) : s.settled k = k s := by
  rw [settled, MemoryController.settled_eq, MemoryController.settled_eq]

/-- The requests of these runs: reads for one port, and no line 0. -/
def Op.Plain (op : Op) : Prop := op.Roi ∧ op.Nonzero ∧ op.SingleFlag

theorem chainOps_plain : ∀ op ∈ chainOps, op.Plain := by
  have hw : ∀ k, (Op.addWq (.conflicting k)).Plain := fun k =>
    ⟨trivial, by rintro w pkt ⟨⟩; simp [Packet.conflicting, Packet.readOf], by rintro pkt ⟨⟩⟩
  have hcycle : ∀ n, ∀ op ∈ cycleOps n, op.Plain := by
    intro n op hop
    simp only [cycleOps, List.mem_cons, List.not_mem_nil, or_false] at hop
    rcases hop with rfl | rfl <;> exact ⟨trivial, by rintro w pkt ⟨⟩, by rintro pkt ⟨⟩⟩
  intro op hop
  simp only [chainOps, conflictOps, List.mem_append, List.mem_cons, List.not_mem_nil, or_false,
    List.mem_flatMap, List.mem_map] at hop
  rcases hop with ((((rfl | rfl) | hop) | rfl) | hop) | ⟨n, -, (⟨i, -, rfl⟩ | rfl) | hop⟩
  · exact hw _
  · exact hw _
  · exact hcycle _ _ hop
  · exact hw _
  · exact hcycle _ _ hop
  · exact hw _
  · exact hw _
  · exact hcycle _ _ hop

/-- The bound fails without link latency and with far memory taking a
write-back in every cycle. -/
theorem backlog_exceeds_bound :
    ∃ s, Reaches (machine.gated Op.fits) Op.Plain (.cold .baselineCascadeLake 0) ([], s) ∧
      (dcmWbPressureThreshold - 1) + dcmOrbMaxSize + dcmCrbMaxSize < backlog ([], s) := by
  obtain ⟨s, hs, hlen⟩ := Option.map_eq_some_iff.mp (show (Worklist.driveVia
    (machine.gated Op.fits) Sys.settled 400 chainOps (.cold .baselineCascadeLake 0)).map
      (fun s => decide ((dcmWbPressureThreshold - 1) + dcmOrbMaxSize + dcmCrbMaxSize
        < backlog ([], s))) = some true from by decide +kernel)
  rw [Worklist.driveVia_eq Sys.settled_eq] at hs
  exact ⟨s, Worklist.drive_reaches chainOps_plain .refl hs, of_decide_eq_true hlen⟩

end DramCache
