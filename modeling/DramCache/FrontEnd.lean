import DramCache.Run

/-!
# The front end

What the manager decides does not depend on its traffic: the pending
dispatches, the retry counters, what became of a send. `Manager.core` is
the manager without them. `FrontStep` says everything one pending call can
do to the core and which calls it leaves, `FrontEnter` says the same of
an operation of the port; `exec_frontStep` and `enter_frontEnter` connect them
to the machine, and `front_invariant` is the invariant rule they give.
-/

namespace DramCache

/-- The counters without those that count retries. -/
def Stats.core (st : Stats) : Stats :=
  { st with
    wbDispatchRetries := 0, nearDispatchRetries := 0, farDispatchRetries := 0,
    dispatchMergeRetries := 0 }

/-- The manager without its traffic. -/
def Manager.core (m : Manager) : Manager :=
  { m with
    pendingFarDispatches := [], pendingNearDispatches := [], stats := m.stats.core,
    sends := [] }

/-! ## Sending leaves the core alone -/

namespace Sys

@[simp] theorem onDcm_dcm (s : Sys) (f : Manager → Manager) : (s.onDcm f).dcm = f s.dcm := rfl

@[simp] theorem setMc_dcm (s : Sys) (side : Side) (mc : MemoryController) :
    (s.setMc side mc).dcm = s.dcm := by
  cases side <;> rfl

theorem controllerAddRq_dcm (s : Sys) (side : Side) (pkt : Packet) :
    (s.controllerAddRq side pkt).1.dcm = s.dcm := by
  unfold controllerAddRq
  split
  · rfl
  · split <;> simp

theorem controllerAddWq_dcm (s : Sys) (side : Side) (pkt : Packet) :
    (s.controllerAddWq side pkt).1.dcm = s.dcm := by
  unfold controllerAddWq
  split
  · rfl
  · simp

theorem sendWrite_core (s : Sys) (side : Side) (pkt : Packet) :
    (s.sendWrite side pkt).1.dcm.core = s.dcm.core := by
  rw [← controllerAddWq_dcm s side pkt]
  rfl

theorem sendRead_core (s : Sys) (side : Side) (pkt : Packet) :
    (s.sendRead side pkt).1.dcm.core = s.dcm.core := by
  rw [← controllerAddRq_dcm s side pkt]
  dsimp only [sendRead]
  split <;> rfl

theorem trySend_core (s : Sys) (side : Side) (pkt : Packet) (isWrite : Bool) :
    (s.trySend side pkt isWrite).1.dcm.core = s.dcm.core := by
  unfold trySend
  split
  · rfl
  · cases isWrite
    · exact sendRead_core ..
    · exact sendWrite_core ..

theorem dispatchToFar_core (s : Sys) (pkt : Packet) (isWrite : Bool) :
    (s.dispatchToFar pkt isWrite).1.dcm.core = s.dcm.core := by
  unfold dispatchToFar
  split
  · exact trySend_core ..
  · rfl

theorem dispatchToFarGuaranteed_core (s : Sys) (pkt : Packet) (isWrite : Bool) :
    (s.dispatchToFarGuaranteed pkt isWrite).1.dcm.core = s.dcm.core := by
  have hd := dispatchToFar_core s pkt isWrite
  unfold dispatchToFarGuaranteed
  split
  · rename_i h
    rw [h] at hd
    exact hd
  · rename_i h
    rw [h] at hd
    exact hd

theorem dispatchToNear_core (s : Sys) (pkt : Packet) (isWrite : Bool) :
    (s.dispatchToNear pkt isWrite).1.dcm.core = s.dcm.core := by
  have ht := trySend_core s .near pkt isWrite
  unfold dispatchToNear
  split
  · split
    · rename_i h
      rw [h] at ht
      exact ht
    · rename_i h
      rw [h] at ht
      exact ht
  · rfl

end Sys

/-! ## What one call does to the core -/

/-- Calls that neither act on the core nor stand for work it owes. -/
def Call.bystander : Call → Bool
  | .driveState _ | .completeRequest .. | .promoteFromCRB _ | .flagConflict ..
  | .backgroundFill .. => false
  | _ => true

/-- The states `driveState` acts on. -/
def ReqState.drivable : ReqState → Bool
  | .locMemRead | .farMemRead | .locMemWrite => true
  | _ => false

/-- The states `return_data` acts on. -/
def ReqState.waiting : ReqState → Bool
  | .waitingLocMemReadResp | .waitingFarMemReadResp => true
  | _ => false

/-- Everything one pending call can do to the core, and the calls it
leaves. -/
inductive FrontStep (m : Manager) : Call → Manager → List Call → Prop
  | quiet {c : Call} {ks : List Call} (hc : c.bystander) (hks : ∀ k ∈ ks, k.bystander)
      (hr : ∀ side pkt, c ≠ .returnData side pkt := by simp) : FrontStep m c m ks
  | bypassed {side : Side} {pkt : Packet} (now : Nat)
      (h : pkt.address ∈ m.bypassOutstandingReads) :
      FrontStep m (.returnData side pkt) (m.bypassAnswered pkt now) []
  | untracked {side : Side} {pkt : Packet} (h : m.orb.lookup pkt.address = none) :
      FrontStep m (.returnData side pkt) (m.emit (.untracked side pkt.address)) []
  | stray {side : Side} {pkt : Packet} {e : OrbEntry}
      (h : m.orb.lookup pkt.address = some e) (hs : e.state.waiting = false) :
      FrontStep m (.returnData side pkt) (m.emit (.answered side e)) []
  | nearEnter {side : Side} {pkt : Packet} {e : OrbEntry} {st : ReqState} (now : Nat)
      (h : m.orb.lookup pkt.address = some e) (hs : e.state = .waitingLocMemReadResp)
      (hst : st = .locMemWrite ∧ e.isWriteReq = true
        ∨ st = .farMemRead ∧ e.isWriteReq = false ∧ e.isHit = false) :
      FrontStep m (.returnData side pkt)
        (((m.emit (.answered side e)).nearAnswered e now).enterState e st)
        [.driveState e.pkt.address]
  | nearHit {side : Side} {pkt : Packet} {e : OrbEntry} (lat now : Nat)
      (h : m.orb.lookup pkt.address = some e) (hs : e.state = .waitingLocMemReadResp)
      (hw : e.isWriteReq = false) (hh : e.isHit = true) :
      FrontStep m (.returnData side pkt)
        (((m.emit (.answered side e)).nearAnswered e now).retire e lat now)
        [.promoteFromCRB e.indexDC]
  | farDone {side : Side} {pkt : Packet} {e : OrbEntry} (lat now : Nat)
      (h : m.orb.lookup pkt.address = some e) (hs : e.state = .waitingFarMemReadResp) :
      FrontStep m (.returnData side pkt)
        (((m.emit (.answered side e)).farAnswered).retire e lat now)
        [.promoteFromCRB e.indexDC,
          .backgroundFill e.requestId e.indexDC (Manager.subRequest e .writeback now)]
  | driveIdle {a : Nat}
      (h : ∀ e, m.orb.lookup a = some e → e.state.drivable = false) :
      FrontStep m (.driveState a) m []
  | readNear {a : Nat} {e : OrbEntry} {ks : List Call} (now : Nat)
      (h : m.orb.lookup a = some e) (hs : e.state = .locMemRead)
      (hks : ∀ k ∈ ks, k.bystander) : FrontStep m (.driveState a) (m.readNear e now) ks
  | readFar {a : Nat} {e : OrbEntry} {ks : List Call} (now : Nat)
      (h : m.orb.lookup a = some e) (hs : e.state = .farMemRead)
      (hks : ∀ k ∈ ks, k.bystander) : FrontStep m (.driveState a) (m.readFar e now) ks
  | writeNear {a : Nat} {e : OrbEntry} (now : Nat)
      (h : m.orb.lookup a = some e) (hs : e.state = .locMemWrite) :
      FrontStep m (.driveState a) (m.writeNear e now) [.completeRequest a 0]
  | completeNone {a lat : Nat} (h : m.orb.lookup a = none) :
      FrontStep m (.completeRequest a lat) m []
  | complete {a lat : Nat} {e : OrbEntry} (now : Nat) (h : m.orb.lookup a = some e) :
      FrontStep m (.completeRequest a lat) (m.retire e lat now) [.promoteFromCRB e.indexDC]
  | promoteNone {i : Nat} (h : m.waiter? i = none) :
      FrontStep m (.promoteFromCRB i) m []
  | promote {i : Nat} {c : CrbEntry} (now : Nat) (h : m.waiter? i = some c) :
      FrontStep m (.promoteFromCRB i)
        ((m.takeWaiter i).admitEntry c.pkt c.isWriteReq (some c.arrivalCycle) now)
        [.driveState c.pkt.address, .flagConflict c.pkt.address i]
  | flag {a i : Nat} : FrontStep m (.flagConflict a i) (m.flagConflict a i) []
  | fill {rid i : Nat} {pkt : Packet} {ks : List Call} (hks : ∀ k ∈ ks, k.bystander) :
      FrontStep m (.backgroundFill rid i pkt) (m.fillNear rid i pkt) ks
  | drained {front : WbEntry} {rest : List WbEntry} (h : m.wb = front :: rest) :
      FrontStep m .drainWB (m.drained front) []
  | responses (clk : Clock) :
      FrontStep m .processPendingResponses (m.processPendingResponses clk) []
  | samples : FrontStep m .recordOccupancySamples m.recordOccupancySamples []

/-! ### Callbacks are bystanders -/

namespace Sys

theorem callbacks_bystander {side : Side} {pkt : Packet} {k : Call}
    (hk : k ∈ callbacks side pkt) : k.bystander := by
  simp only [callbacks, List.mem_append] at hk
  rcases hk with hk | hk <;> split at hk <;> simp_all [Call.bystander]

theorem controllerAddRq_bystander {s : Sys} {side : Side} {pkt : Packet} {k : Call}
    (hk : k ∈ (s.controllerAddRq side pkt).2.2) : k.bystander := by
  unfold controllerAddRq at hk
  split at hk
  · exact callbacks_bystander hk
  · split at hk
    · rcases List.mem_append.mp hk with hk | hk
      · exact callbacks_bystander hk
      · rw [List.mem_singleton.mp hk]
        rfl
    · cases hk

theorem trySend_bystander {s : Sys} {side : Side} {pkt : Packet} {w : Bool} {k : Call}
    (hk : k ∈ (s.trySend side pkt w).2.2) : k.bystander := by
  unfold trySend at hk
  split at hk
  · cases hk
  · cases w
    · dsimp only [sendRead] at hk
      split at hk
      · cases hk
      · exact controllerAddRq_bystander hk
    · cases hk

/-- A write is not called back. -/
theorem trySend_write_calls (s : Sys) (side : Side) (pkt : Packet) :
    (s.trySend side pkt true).2.2 = [] := by
  unfold trySend
  split <;> rfl

theorem dispatchToFarGuaranteed_bystander {s : Sys} {pkt : Packet} {w : Bool} {k : Call}
    (hk : k ∈ (s.dispatchToFarGuaranteed pkt w).2) : k.bystander := by
  unfold dispatchToFarGuaranteed at hk
  split at hk
  · rename_i h
    unfold dispatchToFar at h
    split at h
    · have hb : ∀ k ∈ (s.trySend .far pkt w).2.2, k.bystander := fun k => trySend_bystander
      rw [h] at hb
      exact hb k hk
    · cases h
      cases hk
  · cases hk

theorem dispatchToNear_calls {s : Sys} {pkt : Packet} {w : Bool} {k : Call}
    (hk : k ∈ (s.dispatchToNear pkt w).2) : k ∈ (s.trySend .near pkt w).2.2 := by
  unfold dispatchToNear at hk
  split at hk
  · split at hk
    · rename_i h
      rw [h]
      exact hk
    · cases hk
  · cases hk

theorem dispatchToNear_bystander {s : Sys} {pkt : Packet} {w : Bool} {k : Call}
    (hk : k ∈ (s.dispatchToNear pkt w).2) : k.bystander :=
  trySend_bystander (dispatchToNear_calls hk)

theorem dispatchToNear_write_calls (s : Sys) (pkt : Packet) :
    (s.dispatchToNear pkt true).2 = [] := by
  refine List.eq_nil_iff_forall_not_mem.mpr fun k hk => ?_
  have := dispatchToNear_calls hk
  rw [trySend_write_calls] at this
  cases this

end Sys

/-! ### The pieces act on the core -/

namespace Manager

variable (m : Manager) (pkt : Packet) (w : Bool) (arr : Option Nat) (now : Nat)

theorem core_emit (ev : Event) : (m.emit ev).core = m.core.emit ev := rfl

theorem core_callUpper (why : Upcall) (pkt : Packet) (now : Nat) :
    (m.callUpper why pkt now).core = m.core.callUpper why pkt now := by
  unfold callUpper
  cases pkt.instruction <;> cases pkt.isData <;> rfl

theorem core_bypassAnswered (pkt : Packet) (now : Nat) :
    (m.bypassAnswered pkt now).core = m.core.bypassAnswered pkt now :=
  core_callUpper _ .bypass pkt now

theorem core_nearAnswered (e : OrbEntry) (now : Nat) :
    (m.nearAnswered e now).core = m.core.nearAnswered e now := by
  unfold nearAnswered
  cases e.handleDirtyLine <;> rfl

theorem core_scheduleResponse (pkt : Packet) (delay now : Nat) :
    (m.scheduleResponse pkt delay now).core = m.core.scheduleResponse pkt delay now := by
  unfold scheduleResponse
  split
  · exact core_callUpper ..
  · rfl

theorem core_retire (e : OrbEntry) (lat now : Nat) :
    (m.retire e lat now).core = m.core.retire e lat now := by
  dsimp only [retire]
  cases e.isWriteReq
  · have := core_scheduleResponse ((m.emit (.retired e now)).count fun st =>
      { st with completedReadsToLLC := st.completedReadsToLLC + 1 }) e.pkt lat now
    exact congrArg (fun x : Manager => { x with orb := x.orb.erase e.pkt.address }) this
  · rfl

theorem core_flagConflict (a i : Nat) : (m.flagConflict a i).core = m.core.flagConflict a i := by
  have hw : m.core.waiter? i = m.waiter? i := rfl
  have hl : m.core.orb = m.orb := rfl
  simp only [flagConflict, hw, hl]
  split
  · rfl
  · split <;> rfl

theorem core_countClass (v d h w : Bool) (st : Stats) :
    (countClass v d h w st).core = countClass v d h w st.core := by
  cases v <;> cases d <;> cases h <;> cases w <;> rfl

theorem core_countOpportunity (e : OrbEntry) (st : Stats) :
    (countOpportunity e st).core = countOpportunity e st.core := by
  unfold countOpportunity
  cases isWriteHit e <;> cases isCleanMiss e <;> cases e.pol <;> rfl

theorem core_initialChoice (e : OrbEntry) (st : Stats) :
    ((initialChoice e).2 st).core = (initialChoice e).2 st.core := by
  unfold initialChoice
  split
  · rfl
  · split
    · rfl
    · split <;> rfl

theorem core_countRequest (w : Bool) (st : Stats) :
    (countRequest w st).core = countRequest w st.core := by
  cases w <;> rfl

theorem core_admitEntry (pkt : Packet) (w : Bool) (arr : Option Nat) (now : Nat) :
    (m.admitEntry pkt w arr now).core = m.core.admitEntry pkt w arr now := by
  have hst : (m.admitStats pkt w arr now).core = m.core.admitStats pkt w arr now := by
    dsimp only [admitStats]
    rw [core_initialChoice, core_countOpportunity, core_countClass, core_countRequest]
    rfl
  apply Manager.ext <;> try rfl
  change (m.admitEntry pkt w arr now).stats.core = (m.core.admitEntry pkt w arr now).stats
  rw [admitEntry_stats, admitEntry_stats, hst]

theorem core_releaseResponses (clk : Clock) (rs : List PendingResponse) :
    ∀ m : Manager, (releaseResponses clk rs m).core = releaseResponses clk rs m.core := by
  induction rs with
  | nil => intro m; rfl
  | cons r rest ih =>
      intro m
      simp only [releaseResponses]
      split
      · rw [ih, core_callUpper]
      · rfl

end Manager

namespace Sys

theorem driveState_frontStep (s : Sys) (a : Nat) :
    FrontStep s.dcm.core (.driveState a) (s.driveState a).1.dcm.core (s.driveState a).2 := by
  unfold driveState
  split
  · rename_i h
    exact .driveIdle fun e he => by simp [Manager.core, h] at he
  · rename_i e h
    split
    · rename_i hs
      rw [dispatchToNear_core]
      exact .readNear _ h hs fun k hk => dispatchToNear_bystander hk
    · rename_i hs
      rw [dispatchToFarGuaranteed_core]
      exact .readFar _ h hs fun k hk => dispatchToFarGuaranteed_bystander hk
    · rename_i hs
      have hc := dispatchToNear_core (s.onDcm (·.writeNear e (s.now e.pkt.cpu)))
        (Manager.subRequest e .writeback (s.now e.pkt.cpu)) true
      have hk := dispatchToNear_write_calls (s.onDcm (·.writeNear e (s.now e.pkt.cpu)))
        (Manager.subRequest e .writeback (s.now e.pkt.cpu))
      dsimp only
      rw [hc, hk]
      exact .writeNear _ h hs
    · rename_i h1 h2 h3
      refine .driveIdle fun e' he' => ?_
      obtain rfl : e = e' := by simpa [Manager.core, h] using he'
      cases hst : e.state <;> simp_all [ReqState.drivable]

theorem promoteFromCRB_frontStep (s : Sys) (i : Nat) :
    FrontStep s.dcm.core (.promoteFromCRB i) (s.promoteFromCRB i).1.dcm.core
      (s.promoteFromCRB i).2 := by
  unfold promoteFromCRB
  split
  · rename_i h
    exact .promoteNone h
  · rename_i c h
    have hc : ((s.dcm.takeWaiter i).admitEntry c.pkt c.isWriteReq (some c.arrivalCycle)
        (s.now c.pkt.cpu)).core
        = (s.dcm.core.takeWaiter i).admitEntry c.pkt c.isWriteReq (some c.arrivalCycle)
          (s.now c.pkt.cpu) := Manager.core_admitEntry ..
    change FrontStep _ _ (((s.dcm.takeWaiter i).admitEntry c.pkt c.isWriteReq
      (some c.arrivalCycle) (s.now c.pkt.cpu)).core) _
    rw [hc]
    exact .promote _ h

theorem completeEntry_core (s : Sys) (e : OrbEntry) (lat : Nat) :
    (s.completeEntry e lat).1.dcm.core = s.dcm.core.retire e lat (s.now e.pkt.cpu) :=
  Manager.core_retire ..

theorem nearResponse_frontStep {s : Sys} {side : Side} {pkt : Packet} {e : OrbEntry}
    (h : s.dcm.orb.lookup pkt.address = some e) (hs : e.state = .waitingLocMemReadResp) :
    FrontStep s.dcm.core (.returnData side pkt)
      ((s.onDcm (·.emit (.answered side e))).nearResponse e).1.dcm.core
      ((s.onDcm (·.emit (.answered side e))).nearResponse e).2 := by
  have hn := Manager.core_nearAnswered (s.dcm.emit (.answered side e)) e (s.now e.pkt.cpu)
  rw [Manager.core_emit] at hn
  unfold nearResponse
  split
  · rename_i hw
    have step : FrontStep s.dcm.core (.returnData side pkt) _ _ :=
      .nearEnter (s.now e.pkt.cpu) h hs (.inl ⟨rfl, hw⟩)
    rw [← hn] at step
    exact step
  · rename_i hw
    split
    · rename_i hh
      rw [completeEntry_core]
      have step : ∀ lat, FrontStep s.dcm.core (.returnData side pkt) _ _ := fun lat =>
        .nearHit lat (s.now e.pkt.cpu) h hs (by simpa using hw) hh
      rw [← hn] at step
      exact step _
    · rename_i hh
      have step : FrontStep s.dcm.core (.returnData side pkt) _ _ :=
        .nearEnter (s.now e.pkt.cpu) h hs
          (.inr ⟨rfl, by simpa using hw, by simpa using hh⟩)
      rw [← hn] at step
      exact step

theorem returnData_frontStep (s : Sys) (side : Side) (pkt : Packet) :
    FrontStep s.dcm.core (.returnData side pkt) (s.returnData side pkt).1.dcm.core
      (s.returnData side pkt).2 := by
  unfold returnData
  split
  · rename_i h
    rw [onDcm_dcm, Manager.core_bypassAnswered]
    exact .bypassed _ h
  · split
    · rename_i h
      exact .untracked h
    · rename_i e h
      dsimp only
      split
      · rename_i hs
        exact nearResponse_frontStep h hs
      · rename_i hs
        dsimp only [farResponse]
        rw [completeEntry_core]
        exact .farDone _ _ h hs
      · rename_i h1 h2
        exact .stray h (by cases hst : e.state <;> simp_all [ReqState.waiting])

/-- A far release or drain is a bystander's business. -/
theorem processPendingFarDispatches_frontStep (s : Sys) :
    FrontStep s.dcm.core .processPendingFarDispatches
      s.processPendingFarDispatches.1.dcm.core s.processPendingFarDispatches.2 := by
  unfold processPendingFarDispatches
  split
  · exact .quiet rfl (by simp)
  · rename_i d _ _
    split
    · have hc := trySend_core s .far d.pkt d.isWrite
      have hk : ∀ k ∈ (s.trySend .far d.pkt d.isWrite).2.2, k.bystander := fun k =>
        trySend_bystander
      split
      · rename_i hsend
        rw [hsend] at hc hk
        rw [← hc]
        refine .quiet rfl fun k hmem => ?_
        rcases List.mem_append.mp hmem with hmem | hmem
        · exact hk k hmem
        · rw [List.mem_singleton.mp hmem]
          rfl
      · rename_i hsend
        rw [hsend] at hc
        have hstats : ∀ x : Sys, (x.onDcm (·.count fun st =>
            if d.isWrite then { st with wbDispatchRetries := st.wbDispatchRetries + 1 }
            else { st with farDispatchRetries := st.farDispatchRetries + 1 })).dcm.core
              = x.dcm.core := by
          intro x
          cases d.isWrite <;> rfl
        rw [hstats, hc]
        exact .quiet rfl (by simp)
    · exact .quiet rfl (by simp)

theorem processPendingNearDispatches_frontStep (s : Sys) :
    FrontStep s.dcm.core .processPendingNearDispatches
      s.processPendingNearDispatches.1.dcm.core s.processPendingNearDispatches.2 := by
  unfold processPendingNearDispatches
  split
  · exact .quiet rfl (by simp)
  · rename_i d _ _
    have hc := trySend_core s .near d.pkt d.isWrite
    have hk : ∀ k ∈ (s.trySend .near d.pkt d.isWrite).2.2, k.bystander := fun k =>
      trySend_bystander
    split
    · rename_i hsend
      rw [hsend] at hc hk
      rw [← hc]
      refine .quiet rfl fun k hmem => ?_
      rcases List.mem_append.mp hmem with hmem | hmem
      · exact hk k hmem
      · rw [List.mem_singleton.mp hmem]
        rfl
    · rename_i hsend
      rw [hsend] at hc
      rw [hc]
      exact .quiet rfl (by simp)

theorem drainWB_frontStep (s : Sys) :
    FrontStep s.dcm.core .drainWB s.drainWB.dcm.core [] := by
  unfold drainWB
  split
  · exact .quiet rfl (by simp)
  · rename_i front rest hwb
    have hc := dispatchToFar_core s front.pkt true
    split
    · rename_i hsend
      rw [hsend] at hc
      change FrontStep _ _ (Sys.dcm _).core _
      rw [← hc]
      exact .quiet rfl (by simp)
    · rename_i s' _ hsend
      rw [hsend] at hc
      have hd : (s'.onDcm (·.drained front)).dcm.core = s'.dcm.core.drained front := rfl
      rw [hd, hc]
      exact .drained hwb

theorem operateController_frontStep {s s' : Sys} {side : Side} {ks : List Call}
    (h : s.operateController side = .ok (s', ks)) :
    FrontStep s.dcm.core (.operateController side) s'.dcm.core ks := by
  unfold operateController at h
  split at h
  · cases h
  · cases h
    rw [setMc_dcm]
    exact .quiet rfl (by simp)
  · cases h
    rw [setMc_dcm]
    exact .quiet rfl (by simp [Call.bystander])

theorem ok_pair {x : Sys × List Call} {s' : Sys} {ks : List Call}
    (h : (Except.ok x : Except Assertion (Sys × List Call)) = .ok (s', ks)) :
    s' = x.1 ∧ ks = x.2 := by
  obtain rfl := Except.ok.inj h
  exact ⟨rfl, rfl⟩

/-- **The front-end step.** Every call of the machine is a `FrontStep` of
the core. -/
theorem exec_frontStep {s s' : Sys} {c : Call} {ks : List Call}
    (h : s.exec c = .ok (s', ks)) : FrontStep s.dcm.core c s'.dcm.core ks := by
  cases c with
  | returnData side pkt =>
      obtain ⟨rfl, rfl⟩ := ok_pair h
      exact returnData_frontStep s side pkt
  | driveState a =>
      obtain ⟨rfl, rfl⟩ := ok_pair h
      exact driveState_frontStep s a
  | completeRequest a lat =>
      obtain ⟨rfl, rfl⟩ := ok_pair h
      unfold completeRequest
      split
      · rename_i hl
        exact .completeNone hl
      · rename_i e hl
        rw [completeEntry_core]
        exact .complete _ hl
  | promoteFromCRB i =>
      obtain ⟨rfl, rfl⟩ := ok_pair h
      exact promoteFromCRB_frontStep s i
  | flagConflict a i =>
      obtain ⟨rfl, rfl⟩ := ok_pair h
      rw [onDcm_dcm, Manager.core_flagConflict]
      exact .flag
  | backgroundFill rid i pkt =>
      obtain ⟨rfl, rfl⟩ := ok_pair h
      unfold backgroundFill
      rw [dispatchToNear_core]
      exact .fill fun k hk => dispatchToNear_bystander hk
  | forwardDone side =>
      obtain ⟨rfl, rfl⟩ := ok_pair h
      rw [setMc_dcm]
      exact .quiet rfl (by simp)
  | popFar =>
      obtain ⟨rfl, rfl⟩ := ok_pair h
      exact .quiet rfl (by simp [Call.bystander])
  | popNear =>
      obtain ⟨rfl, rfl⟩ := ok_pair h
      exact .quiet rfl (by simp [Call.bystander])
  | processReadDone side i b =>
      dsimp only [exec] at h
      split at h
      · cases h
      · obtain ⟨rfl, rfl⟩ := ok_pair h
        rw [setMc_dcm]
        exact .quiet rfl (by simp)
  | processPendingFarDispatches =>
      obtain ⟨rfl, rfl⟩ := ok_pair h
      exact processPendingFarDispatches_frontStep s
  | drainWB =>
      obtain ⟨rfl, rfl⟩ := ok_pair h
      exact drainWB_frontStep s
  | processPendingNearDispatches =>
      obtain ⟨rfl, rfl⟩ := ok_pair h
      exact processPendingNearDispatches_frontStep s
  | operateController side => exact operateController_frontStep h
  | processPendingResponses =>
      obtain ⟨rfl, rfl⟩ := ok_pair h
      rw [onDcm_dcm, Manager.processPendingResponses, Manager.core_releaseResponses]
      exact .responses s.clock
  | recordOccupancySamples =>
      obtain ⟨rfl, rfl⟩ := ok_pair h
      exact .samples

end Sys

/-! ## The environment of a call

No call touches the clocks or the warm-up flag, and in a run without
bypass mode every operation is a request, one cycle, or a change of
settings. -/

namespace Sys

/-- The globals the manager only reads. -/
def env (s : Sys) : Clock × Nat := (s.clock, s.allWarmupComplete)

@[simp] theorem onDcm_env (s : Sys) (f : Manager → Manager) : (s.onDcm f).env = s.env := rfl

@[simp] theorem setMc_env (s : Sys) (side : Side) (mc : MemoryController) :
    (s.setMc side mc).env = s.env := by
  cases side <;> rfl

theorem trySend_env (s : Sys) (side : Side) (pkt : Packet) (w : Bool) :
    (s.trySend side pkt w).1.env = s.env := by
  unfold trySend
  split
  · rfl
  · cases w
    · dsimp only [sendRead, controllerAddRq]
      split <;> split <;> (try split) <;> simp
    · dsimp only [sendWrite, controllerAddWq]
      split <;> simp

theorem dispatchToFar_env (s : Sys) (pkt : Packet) (w : Bool) :
    (s.dispatchToFar pkt w).1.env = s.env := by
  unfold dispatchToFar
  split
  · exact trySend_env ..
  · rfl

theorem dispatchToFarGuaranteed_env (s : Sys) (pkt : Packet) (w : Bool) :
    (s.dispatchToFarGuaranteed pkt w).1.env = s.env := by
  have hd := dispatchToFar_env s pkt w
  unfold dispatchToFarGuaranteed
  split <;> rename_i h <;> rw [h] at hd
  · exact hd
  · rw [onDcm_env]
    exact hd

theorem dispatchToNear_env (s : Sys) (pkt : Packet) (w : Bool) :
    (s.dispatchToNear pkt w).1.env = s.env := by
  have hd := trySend_env s .near pkt w
  unfold dispatchToNear
  split
  · split <;> rename_i h <;> rw [h] at hd <;> exact hd
  · rfl

theorem driveState_env (s : Sys) (a : Nat) : (s.driveState a).1.env = s.env := by
  unfold driveState
  split
  · rfl
  · split
    · rw [dispatchToNear_env, onDcm_env]
    · rw [dispatchToFarGuaranteed_env, onDcm_env]
    · dsimp only
      rw [dispatchToNear_env, onDcm_env]
    · rfl

theorem returnData_env (s : Sys) (side : Side) (pkt : Packet) :
    (s.returnData side pkt).1.env = s.env := by
  unfold returnData
  split
  · rfl
  · split
    · rfl
    · dsimp only
      split
      · dsimp only [nearResponse]
        split
        · simp only [onDcm_env]
        · split <;> simp only [completeEntry, onDcm_env]
      · simp only [farResponse, completeEntry, onDcm_env]
      · rfl

theorem processPendingFarDispatches_env (s : Sys) :
    s.processPendingFarDispatches.1.env = s.env := by
  unfold processPendingFarDispatches
  split
  · rfl
  · rename_i d _ _
    have hd := trySend_env s .far d.pkt d.isWrite
    split
    · split <;> rename_i h <;> rw [h] at hd <;> exact hd
    · rfl

theorem processPendingNearDispatches_env (s : Sys) :
    s.processPendingNearDispatches.1.env = s.env := by
  unfold processPendingNearDispatches
  split
  · rfl
  · rename_i d _ _
    have hd := trySend_env s .near d.pkt d.isWrite
    split <;> rename_i h <;> rw [h] at hd <;> exact hd

theorem drainWB_env (s : Sys) : s.drainWB.env = s.env := by
  unfold drainWB
  split
  · rfl
  · rename_i front _ _
    have hd := dispatchToFar_env s front.pkt true
    split <;> rename_i h <;> rw [h] at hd <;> exact hd

theorem exec_env {s s' : Sys} {c : Call} {ks : List Call} (h : s.exec c = .ok (s', ks)) :
    s'.env = s.env := by
  cases c <;> dsimp only [exec] at h
  case returnData side pkt => obtain ⟨rfl, -⟩ := ok_pair h; exact returnData_env ..
  case driveState a => obtain ⟨rfl, -⟩ := ok_pair h; exact driveState_env ..
  case completeRequest a lat =>
      obtain ⟨rfl, -⟩ := ok_pair h
      unfold completeRequest
      split <;> simp only [completeEntry, onDcm_env]
  case promoteFromCRB i =>
      obtain ⟨rfl, -⟩ := ok_pair h
      unfold promoteFromCRB
      split <;> simp only [admitRequest, onDcm_env]
  case flagConflict a i => obtain ⟨rfl, -⟩ := ok_pair h; rfl
  case backgroundFill rid i pkt =>
      obtain ⟨rfl, -⟩ := ok_pair h
      rw [backgroundFill, dispatchToNear_env, onDcm_env]
  case forwardDone side => obtain ⟨rfl, -⟩ := ok_pair h; exact setMc_env ..
  case popFar => obtain ⟨rfl, -⟩ := ok_pair h; rfl
  case popNear => obtain ⟨rfl, -⟩ := ok_pair h; rfl
  case processReadDone side i b =>
      split at h
      · cases h
      · obtain ⟨rfl, -⟩ := ok_pair h
        exact setMc_env ..
  case processPendingFarDispatches =>
      obtain ⟨rfl, -⟩ := ok_pair h
      exact processPendingFarDispatches_env s
  case drainWB => obtain ⟨rfl, -⟩ := ok_pair h; exact drainWB_env s
  case processPendingNearDispatches =>
      obtain ⟨rfl, -⟩ := ok_pair h
      exact processPendingNearDispatches_env s
  case operateController side =>
      unfold operateController at h
      split at h
      · cases h
      · obtain ⟨rfl, -⟩ := ok_pair h; exact setMc_env ..
      · obtain ⟨rfl, -⟩ := ok_pair h; exact setMc_env ..
  case processPendingResponses => obtain ⟨rfl, -⟩ := ok_pair h; rfl
  case recordOccupancySamples => obtain ⟨rfl, -⟩ := ok_pair h; rfl

end Sys

/-- Everything an operation can do to the core when it is entered. -/
inductive FrontEnter (m : Manager) : Op → Manager → List Call → Prop
  | refused {op : Op} {w : Bool} {pkt : Packet} (hop : op.request? = some (w, pkt))
      (crbFull wbFull orbFull : Nat) :
      FrontEnter m op (m.count fun st =>
        { st with crbFullRejects := crbFull, wbFullRejects := wbFull, orbFullRejects := orbFull })
        []
  | queued {op : Op} {w : Bool} {pkt : Packet} (now : Nat) (hop : op.request? = some (w, pkt))
      (hc : m.checkConflictInORB (returnIndexDC pkt.address) = true)
      (hroom : m.crb.length < dcmCrbMaxSize) : FrontEnter m op (m.waitInCRB pkt w now) []
  | admitted {op : Op} {w : Bool} {pkt : Packet} (now : Nat)
      (hop : op.request? = some (w, pkt))
      (hc : m.checkConflictInORB (returnIndexDC pkt.address) = false)
      (hwb : m.wb.length < dcmWbPressureThreshold) (horb : m.orbSize < dcmOrbMaxSize) :
      FrontEnter m op ((m.emit (.accepted w pkt)).admitEntry pkt w none now)
        [.driveState pkt.address]
  | operate : FrontEnter m .operate m Sys.operateCalls
  | configured {op : Op} (hop : op.request? = none) (pol : Policy) (link front back : Nat)
      (bypass : Bool) (hb : bypass = true → m.bypassDcache = true) :
      FrontEnter m op
        { m with
          policy := pol, linkLatencyCycles := link, frontendLatencyCycles := front,
          backendLatencyCycles := back, bypassDcache := bypass } []
  | statsReset : FrontEnter m .resetROIStats m.resetROIStats []

namespace Sys

theorem admission_frontEnter {s : Sys} {op : Op} {pkt : Packet} {w : Bool}
    (hop : op.request? = some (w, pkt)) :
    FrontEnter s.dcm.core op (s.admission pkt w).1.dcm.core (s.admission pkt w).2.2 := by
  unfold admission
  split
  · rename_i hc
    split
    · exact .refused hop (s.dcm.stats.crbFullRejects + 1) s.dcm.stats.wbFullRejects
        s.dcm.stats.orbFullRejects
    · rename_i hroom
      exact .queued _ hop hc (not_le.mp hroom)
  · rename_i hc
    split
    · exact .refused hop s.dcm.stats.crbFullRejects (s.dcm.stats.wbFullRejects + 1)
        s.dcm.stats.orbFullRejects
    · rename_i hwb
      split
      · exact .refused hop s.dcm.stats.crbFullRejects s.dcm.stats.wbFullRejects
          (s.dcm.stats.orbFullRejects + 1)
      · rename_i horb
        simp only [admitRequest, onDcm_dcm, Manager.core_admitEntry, Manager.core_emit]
        exact .admitted _ hop (Bool.eq_false_iff.mpr hc) (not_le.mp hwb) (not_le.mp horb)

/-- **The front-end entry.** Every operation of a run after warm-up and
outside bypass mode is a `FrontEnter` of the core. -/
theorem enter_frontEnter {s : Sys} {op : Op} (hs : s.Live) (hop : op.Roi) :
    FrontEnter s.dcm.core op (s.enter op).1.dcm.core (s.enter op).2 := by
  have hwarm : ¬ s.allWarmupComplete < numCpus := not_lt.mpr hs.warm
  have hbyp : ¬ s.dcm.bypassDcache = true := by simp [hs.noBypass]
  have hkeep : s.dcm.bypassDcache = true → s.dcm.core.bypassDcache = true := id
  cases op with
  | addRq pkt =>
      simp only [enter, addRq, if_neg hwarm, if_neg hbyp]
      exact admission_frontEnter rfl
  | addWq pkt =>
      simp only [enter, addWq, if_neg hwarm, if_neg hbyp]
      exact admission_frontEnter rfl
  | operate => exact .operate
  | tick clk =>
      exact .configured rfl s.dcm.policy s.dcm.linkLatencyCycles s.dcm.frontendLatencyCycles
        s.dcm.backendLatencyCycles s.dcm.bypassDcache hkeep
  | setPolicy pol =>
      exact .configured rfl pol s.dcm.linkLatencyCycles s.dcm.frontendLatencyCycles
        s.dcm.backendLatencyCycles s.dcm.bypassDcache hkeep
  | setLinkLatency n =>
      exact .configured rfl s.dcm.policy n s.dcm.frontendLatencyCycles
        s.dcm.backendLatencyCycles s.dcm.bypassDcache hkeep
  | setControllerLatency f b =>
      exact .configured rfl s.dcm.policy s.dcm.linkLatencyCycles f b s.dcm.bypassDcache hkeep
  | setBypassDcache b =>
      obtain rfl : b = false := hop
      exact .configured rfl s.dcm.policy s.dcm.linkLatencyCycles s.dcm.frontendLatencyCycles
        s.dcm.backendLatencyCycles false (by simp)
  | finishWarmup =>
      exact .configured rfl s.dcm.policy s.dcm.linkLatencyCycles s.dcm.frontendLatencyCycles
        s.dcm.backendLatencyCycles s.dcm.bypassDcache hkeep
  | resetROIStats => exact .statsReset

end Sys

/-! ## The invariant rule of the front end -/

/-- A core step neither enters bypass mode nor adds a bypass read. -/
theorem FrontStep.bypass {m m' : Manager} {c : Call} {ks : List Call}
    (h : FrontStep m c m' ks) : m'.bypassDcache = m.bypassDcache ∧
      (m.bypassOutstandingReads = 0 → m'.bypassOutstandingReads = 0) := by
  cases h with
  | bypassed now hmem => exact ⟨rfl, fun h0 => by simp [h0] at hmem⟩
  | nearEnter now => rw [Manager.nearAnswered_eq]; exact ⟨rfl, id⟩
  | nearHit lat now => rw [Manager.retire_eq, Manager.nearAnswered_eq]; exact ⟨rfl, id⟩
  | farDone lat now => rw [Manager.retire_eq]; exact ⟨rfl, id⟩
  | complete now => rw [Manager.retire_eq]; exact ⟨rfl, id⟩
  | @flag a i =>
      rcases m.flagConflict_eq a i with hf | ⟨e, -, hf⟩ <;> rw [hf] <;> exact ⟨rfl, id⟩
  | responses clk =>
      obtain ⟨due, rest, -, hr⟩ := Manager.releaseResponses_eq clk m.pendingResponses m
      rw [Manager.processPendingResponses, hr]
      exact ⟨rfl, id⟩
  | promote now =>
      rw [Manager.admitEntry_bypassDcache, Manager.admitEntry_bypassOutstandingReads]
      exact ⟨rfl, id⟩
  | _ => exact ⟨rfl, id⟩

theorem FrontEnter.bypass {m m' : Manager} {op : Op} {ks : List Call}
    (h : FrontEnter m op m' ks) : (m.bypassDcache = false → m'.bypassDcache = false) ∧
      m'.bypassOutstandingReads = m.bypassOutstandingReads := by
  cases h with
  | configured _ _ _ _ _ bypass hb =>
      refine ⟨fun h => ?_, rfl⟩
      change bypass = false
      cases bypass
      · rfl
      · rw [hb rfl] at h
        exact h
  | admitted now =>
      rw [Manager.admitEntry_bypassDcache, Manager.admitEntry_bypassOutstandingReads]
      exact ⟨id, rfl⟩
  | _ => exact ⟨id, rfl⟩

/-! ## The latencies -/

/-- The latencies of the link and of the controller. -/
def Manager.latencies (m : Manager) : Nat × Nat × Nat :=
  (m.linkLatencyCycles, m.frontendLatencyCycles, m.backendLatencyCycles)

theorem Manager.admitEntry_latencies (m : Manager) (pkt : Packet) (w : Bool) (arr : Option Nat)
    (now : Nat) : (m.admitEntry pkt w arr now).latencies = m.latencies := by
  rw [latencies, admitEntry_linkLatencyCycles, admitEntry_frontendLatencyCycles,
    admitEntry_backendLatencyCycles, latencies]

theorem FrontStep.latencies {m m' : Manager} {c : Call} {ks : List Call}
    (h : FrontStep m c m' ks) : m'.latencies = m.latencies := by
  cases h with
  | nearEnter now => rw [Manager.nearAnswered_eq]; rfl
  | nearHit lat now => rw [Manager.retire_eq, Manager.nearAnswered_eq]; rfl
  | farDone lat now => rw [Manager.retire_eq]; rfl
  | complete now => rw [Manager.retire_eq]; rfl
  | @flag a i =>
      rcases m.flagConflict_eq a i with hf | ⟨e, -, hf⟩
      · rw [hf]
      · rw [hf]
        rfl
  | responses clk =>
      obtain ⟨due, rest, -, hr⟩ := Manager.releaseResponses_eq clk m.pendingResponses m
      rw [Manager.processPendingResponses, hr]
      rfl
  | promote now => exact Manager.admitEntry_latencies ..
  | _ => rfl

theorem admission_latencies (s : Sys) (pkt : Packet) (w : Bool) :
    (s.admission pkt w).1.dcm.latencies = s.dcm.latencies := by
  unfold Sys.admission
  split
  · split <;> rfl
  · split
    · rfl
    · split
      · rfl
      · exact Manager.admitEntry_latencies ..

/-- The latencies an operation sets. -/
def Op.latencies (op : Op) (m : Manager) : Nat × Nat × Nat :=
  match op with
  | .setLinkLatency n => (n, m.frontendLatencyCycles, m.backendLatencyCycles)
  | .setControllerLatency f b => (m.linkLatencyCycles, f, b)
  | _ => m.latencies

/-- A request passed on in bypass mode leaves the latencies alone. -/
theorem dispatchToFarGuaranteed_latencies (s : Sys) (pkt : Packet) (w : Bool) :
    (s.dispatchToFarGuaranteed pkt w).1.dcm.latencies = s.dcm.latencies := by
  have hcore : ∀ m : Manager, m.core.latencies = m.latencies := fun _ => rfl
  rw [← hcore, Sys.dispatchToFarGuaranteed_core, hcore]

theorem enter_latencies (s : Sys) (op : Op) :
    (s.enter op).1.dcm.latencies = op.latencies s.dcm := by
  cases op with
  | addRq pkt =>
      simp only [Sys.enter, Sys.addRq]
      split
      · split <;> rfl
      · split
        · exact dispatchToFarGuaranteed_latencies ..
        · exact admission_latencies ..
  | addWq pkt =>
      simp only [Sys.enter, Sys.addWq]
      split
      · split <;> rfl
      · split
        · exact dispatchToFarGuaranteed_latencies ..
        · exact admission_latencies ..
  | _ => rfl

section Rule

variable {allow : Op → Prop} {ok : Worklist.Config Sys Call → Prop} {s₀ : Sys}
  {x : Worklist.Config Sys Call}

open Worklist (ReachesIf)

theorem admission_env (s : Sys) (pkt : Packet) (w : Bool) : (s.admission pkt w).1.env = s.env := by
  unfold Sys.admission
  split
  · split <;> simp only [Sys.onDcm_env]
  · split
    · simp only [Sys.onDcm_env]
    · split <;> simp only [Sys.admitRequest, Sys.onDcm_env]

theorem enter_warm {s : Sys} {op : Op} (hs : s.Live) :
    numCpus ≤ (s.enter op).1.allWarmupComplete := by
  have hwarm : ¬ s.allWarmupComplete < numCpus := not_lt.mpr hs.warm
  have hbyp : ¬ s.dcm.bypassDcache = true := by simp [hs.noBypass]
  have hadm : ∀ pkt w, (s.admission pkt w).1.allWarmupComplete = s.allWarmupComplete :=
    fun pkt w => congrArg Prod.snd (admission_env s pkt w)
  cases op with
  | addRq pkt =>
      simp only [Sys.enter, Sys.addRq, if_neg hwarm, if_neg hbyp, hadm]
      exact hs.warm
  | addWq pkt =>
      simp only [Sys.enter, Sys.addWq, if_neg hwarm, if_neg hbyp, hadm]
      exact hs.warm
  | finishWarmup => exact le_refl _
  | _ => exact hs.warm

/-- A run after warm-up and outside bypass mode stays there. -/
theorem live_of_reaches (hroi : ∀ op, allow op → op.Roi) (hlive : s₀.Live)
    (h : ReachesIf machine allow ok s₀ x) : x.2.Live := by
  refine ReachesIf.invariant (P := fun x => x.2.Live) hlive ?_ ?_ h
  · intro op s ha _ _ hs
    have hb := (Sys.enter_frontEnter hs (hroi op ha)).bypass
    exact ⟨enter_warm hs, hb.1 hs.noBypass, hb.2.trans hs.noBypassReads⟩
  · intro c K s s' ks _ _ hs he
    have hb := (Sys.exec_frontStep he).bypass
    have henv := Sys.exec_env he
    refine ⟨?_, hb.1.trans hs.noBypass, hb.2 hs.noBypassReads⟩
    have hw : s'.allWarmupComplete = s.allWarmupComplete := congrArg Prod.snd henv
    rw [hw]
    exact hs.warm

/-- **The invariant rule of the front end.** A property of the pending
calls and the core is an invariant when every `FrontEnter` and every
`FrontStep` keeps it; an invariant `I` known already may be used. -/
theorem front_invariant (hroi : ∀ op, allow op → op.Roi) (hlive : s₀.Live)
    {I P : List Call → Manager → Prop}
    (hI : ∀ x, ReachesIf machine allow ok s₀ x → I x.1 x.2.dcm.core)
    (h0 : P [] s₀.dcm.core)
    (hEnter : ∀ op m m' ks, allow op → FrontEnter m op m' ks → I [] m → P [] m → P ks m')
    (hCall : ∀ c K m m' ks, FrontStep m c m' ks → I (c :: K) m → P (c :: K) m →
      P (ks ++ K) m')
    (h : ReachesIf machine allow ok s₀ x) : P x.1 x.2.dcm.core := by
  refine ReachesIf.invariant (P := fun x => P x.1 x.2.dcm.core) h0 ?_ ?_ h
  · intro op s ha _ hr hp
    exact hEnter op _ _ _ ha (Sys.enter_frontEnter (live_of_reaches hroi hlive hr)
      (hroi op ha)) (hI _ hr) hp
  · intro c K s s' ks _ hr hp he
    exact hCall c K _ _ _ (Sys.exec_frontStep he) (hI _ hr) hp

end Rule

end DramCache
