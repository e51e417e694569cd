import DramCache.Toggling
import DramCache.Traffic

/-!
# Bypass mode

While bypass mode stays on the manager only passes requests on. `Passing`
is what its calls keep: nothing but the far path is called, the cache, the
near side and their counters stand still, and of the counters of bypass
mode the reads are those that came back and those that have not. With the
account of the reads (`Owned`, in which nothing is due) this is
`bypass_passes_through`: a request handed to `add_rq` or `add_wq` is
pending, in farMC, or done, and never two of these.
-/

namespace DramCache

open Worklist (ReachesIf Reaches)

/-! ## What stands still -/

/-- The counters apart from those of bypass mode, of retries and of
samples. -/
def Stats.untouched (st : Stats) : Stats :=
  { st.core with
    bypassReads := 0, bypassWrites := 0, bypassCompletedReads := 0, occupancySamples := 0 }

/-- The manager apart from its settings, the far path and the history. -/
def Manager.untouched (m : Manager) : Manager :=
  { m.core with
    policy := .oracle, linkLatencyCycles := 0, frontendLatencyCycles := 0,
    backendLatencyCycles := 0, bypassOutstandingReads := 0, stats := m.stats.untouched, log := [] }

theorem Manager.untouched_of_core {m m' : Manager} (h : m'.core = m.core) :
    m'.untouched = m.untouched := by
  have hst : m'.stats.untouched = m.stats.untouched :=
    congrArg (fun c : Manager => { c.stats with
      bypassReads := 0, bypassWrites := 0, bypassCompletedReads := 0, occupancySamples := 0 }) h
  unfold Manager.untouched
  rw [h, hst]

/-- A new controller has nothing to do. -/
theorem MemoryController.new_operate (tRP tRCD tCAS dbus : Nat) (clk : Clock) :
    (new tRP tRCD tCAS dbus).operate clk = .ok (new tRP tRCD tCAS dbus, none) := by
  have hnever : ∀ q : PacketQueue, ¬ uint64Max ≤ cycleAt clk q 0 := fun q =>
    not_le.mpr (clk.cycle_lt _)
  have hschedule : scheduleReady clk (new tRP tRCD tCAS dbus).rq = false :=
    Bool.and_eq_false_iff.mpr (.inr (decide_eq_false (hnever _)))
  have hprocess : processReady clk (new tRP tRCD tCAS dbus).rq = false :=
    Bool.and_eq_false_iff.mpr (.inr (decide_eq_false (hnever _)))
  have hswitch : (new tRP tRCD tCAS dbus).switchMode clk = .ok (new tRP tRCD tCAS dbus) := rfl
  have hserve : (new tRP tRCD tCAS dbus).serve clk .rq = .ok (new tRP tRCD tCAS dbus, none) := by
    simp only [serve, queue, hschedule, hprocess, Bool.false_eq_true, if_false]
  rw [operate, hswitch]
  exact hserve

/-! ## The calls of bypass mode -/

/-- Calls of the far path, and those that find nothing to do. -/
def Call.goesRound : Call → Bool
  | .returnData .far _ | .forwardDone .far | .popFar | .processReadDone .far ..
  | .processPendingFarDispatches | .drainWB | .processPendingNearDispatches
  | .operateController _ | .processPendingResponses | .recordOccupancySamples => true
  | _ => false

/-- What the history of bypass mode consists of. -/
def Event.goesRound : Event → Bool
  | .handFar none .. | .upcall .bypass .. => true
  | _ => false

/-- Operations of a run in bypass mode. -/
def Op.StaysBypassed : Op → Prop
  | .setBypassDcache b => b = true
  | _ => True

namespace Sys

variable {s s' s₀ : Sys} {op : Op} {c : Call} {K ks : List Call}

theorem callbacks_far {pkt : Packet} {k : Call} (h : k ∈ callbacks .far pkt) :
    k.goesRound = true := by
  simp only [callbacks, List.mem_append] at h
  rcases h with h | h <;> split at h <;> first | (cases h; done) | skip
  · rw [List.mem_singleton.mp h]
    rfl
  · rw [List.mem_singleton.mp h]
    rfl

theorem controllerAddRq_far (pkt : Packet) : (s.controllerAddRq .far pkt).1.nearMC = s.nearMC ∧
    ∀ k ∈ (s.controllerAddRq .far pkt).2.2, k.goesRound = true := by
  unfold controllerAddRq
  split
  · exact ⟨rfl, fun k hk => callbacks_far hk⟩
  · split
    · refine ⟨rfl, fun k hk => ?_⟩
      rcases List.mem_append.mp hk with hk | hk
      · exact callbacks_far hk
      · rw [List.mem_singleton.mp hk]
        rfl
    · exact ⟨rfl, by simp⟩

theorem trySend_far (pkt : Packet) (w : Bool) : (s.trySend .far pkt w).1.nearMC = s.nearMC ∧
    ∀ k ∈ (s.trySend .far pkt w).2.2, k.goesRound = true := by
  unfold trySend
  split
  · exact ⟨rfl, by simp⟩
  · cases w with
    | true =>
        dsimp only [sendWrite, controllerAddWq]
        split <;> exact ⟨rfl, by simp⟩
    | false =>
        have hadd := controllerAddRq_far (s := s) (s.stamp pkt)
        dsimp only [sendRead]
        split
        · exact ⟨hadd.1, by simp⟩
        · exact hadd

theorem dispatchToFarGuaranteed_far (pkt : Packet) (w : Bool) :
    (s.dispatchToFarGuaranteed pkt w).1.nearMC = s.nearMC ∧
      (s.dispatchToFarGuaranteed pkt w).1.dcm.pending .near = s.dcm.pending .near ∧
      ∀ k ∈ (s.dispatchToFarGuaranteed pkt w).2, k.goesRound = true := by
  have hsend := trySend_far (s := s) pkt w
  have hpend := trySend_pending s .far pkt w .near
  unfold dispatchToFarGuaranteed dispatchToFar
  by_cases hlink : s.dcm.linkLatencyCycles = 0
  · rw [if_pos hlink]
    generalize s.trySend .far pkt w = r at hsend hpend
    obtain ⟨s₁, ok, ks⟩ := r
    cases ok with
    | true => exact ⟨hsend.1, hpend, hsend.2⟩
    | false => exact ⟨hsend.1, hpend, by simp⟩
  · rw [if_neg hlink]
    exact ⟨rfl, rfl, by simp⟩

/-! ## What the calls keep -/

/-- What bypass mode keeps, from `s₀` on, where nothing was under way. -/
structure Passing (s₀ : Sys) (K : List Call) (s : Sys) : Prop where
  untouched : s.dcm.untouched = s₀.dcm.untouched
  near : s.dcm.pending .near = []
  nearMC : s.nearMC = s₀.nearMC
  warm : numCpus ≤ s.allWarmupComplete
  calls : ∀ k ∈ K, k.goesRound = true
  log : ∀ ev ∈ s.dcm.log, ev.isWarmup = true ∨ ev.goesRound = true
  counted : s.dcm.stats.bypassReads
    = s.dcm.stats.bypassCompletedReads + s.dcm.bypassOutstandingReads.card

/-- Where bypass mode is entered: nothing under way, the near controller
new, the counters at 0. -/
structure Idle (s₀ : Sys) : Prop where
  mode : s₀.dcm.bypassDcache = true
  nearMC : ∃ tRP tRCD tCAS dbus, s₀.nearMC = .new tRP tRCD tCAS dbus
  orb : s₀.dcm.orb = ∅
  crb : s₀.dcm.crb = []
  wb : s₀.dcm.wb = []
  near : s₀.dcm.pendingNearDispatches = []
  responses : s₀.dcm.pendingResponses = []
  zero : s₀.dcm.stats.Zero

namespace Passing

/-- What `untouched` keeps of the manager. -/
theorem idle (h : Passing s₀ K s) (h₀ : Idle s₀) : s.dcm.bypassDcache = true ∧
    s.dcm.orb = ∅ ∧ s.dcm.crb = [] ∧ s.dcm.wb = [] ∧ s.dcm.pendingResponses = [] :=
  ⟨(congrArg Manager.bypassDcache h.untouched).trans h₀.mode,
    (congrArg Manager.orb h.untouched).trans h₀.orb,
    (congrArg Manager.crb h.untouched).trans h₀.crb,
    (congrArg Manager.wb h.untouched).trans h₀.wb,
    (congrArg Manager.pendingResponses h.untouched).trans h₀.responses⟩

/-- Nothing happens to the core. -/
theorem still (h : Passing s₀ K s) (hcore : s'.dcm.core = s.dcm.core)
    (hpend : s'.dcm.pending .near = s.dcm.pending .near) (hmc : s'.nearMC = s.nearMC)
    (henv : s'.allWarmupComplete = s.allWarmupComplete) (hks : ∀ k ∈ ks, k.goesRound = true) :
    Passing s₀ ks s' where
  untouched := (Manager.untouched_of_core hcore).trans h.untouched
  near := hpend.trans h.near
  nearMC := hmc.trans h.nearMC
  warm := henv ▸ h.warm
  calls := hks
  log := by
    have hlog : s'.dcm.log = s.dcm.log := (congrArg Manager.log hcore :)
    rw [hlog]
    exact h.log
  counted := by
    have hreads : s'.dcm.stats.bypassReads = s.dcm.stats.bypassReads :=
      (congrArg (fun m : Manager => m.stats.bypassReads) hcore :)
    have hdone : s'.dcm.stats.bypassCompletedReads = s.dcm.stats.bypassCompletedReads :=
      (congrArg (fun m : Manager => m.stats.bypassCompletedReads) hcore :)
    have hout : s'.dcm.bypassOutstandingReads = s.dcm.bypassOutstandingReads :=
      (congrArg Manager.bypassOutstandingReads hcore :)
    rw [hreads, hdone, hout]
    exact h.counted

/-- A call that does nothing to the core. -/
theorem of_core (h : Passing s₀ (c :: K) s) (hcore : s'.dcm.core = s.dcm.core)
    (hpend : s'.dcm.pending .near = s.dcm.pending .near) (hmc : s'.nearMC = s.nearMC)
    (henv : s'.allWarmupComplete = s.allWarmupComplete) (hks : ∀ k ∈ ks, k.goesRound = true) :
    Passing s₀ (ks ++ K) s' :=
  h.still hcore hpend hmc henv fun k hk => (List.mem_append.mp hk).elim (hks k) fun hk =>
    h.calls k (List.mem_cons_of_mem _ hk)

theorem processPendingFar (h : Passing s₀ (.processPendingFarDispatches :: K) s) :
    Passing s₀ (s.processPendingFarDispatches.2 ++ K) s.processPendingFarDispatches.1 := by
  have henv : s.processPendingFarDispatches.1.allWarmupComplete = s.allWarmupComplete :=
    congrArg Prod.snd (processPendingFarDispatches_env s)
  revert henv
  unfold processPendingFarDispatches
  split
  · exact fun _ => h.of_core rfl rfl rfl rfl (by simp)
  · rename_i d rest hfront
    split
    · have hcore := trySend_core s .far d.pkt d.isWrite
      have hpend := trySend_pending s .far d.pkt d.isWrite .near
      have hfar := trySend_far (s := s) d.pkt d.isWrite
      generalize s.trySend .far d.pkt d.isWrite = r at hcore hpend hfar
      obtain ⟨s₁, ok, ks⟩ := r
      cases ok with
      | true =>
          refine fun henv => h.of_core hcore hpend hfar.1 henv fun k hk => ?_
          rcases List.mem_append.mp hk with hk | hk
          · exact hfar.2 k hk
          · rw [List.mem_singleton.mp hk]
            rfl
      | false =>
          refine fun henv => h.of_core ?_ hpend hfar.1 henv (by simp)
          refine Eq.trans ?_ hcore
          dsimp only [onDcm_dcm]
          split <;> rfl
    · exact fun _ => h.of_core rfl rfl rfl rfl (by simp)

/-- A bypass read's response. -/
theorem bypassed {pkt : Packet} (h : Passing s₀ (.returnData .far pkt :: K) s)
    (hmem : pkt.address ∈ s.dcm.bypassOutstandingReads) :
    Passing s₀ K (s.onDcm (·.bypassAnswered pkt (s.now pkt.cpu))) where
  untouched := h.untouched
  near := h.near
  nearMC := h.nearMC
  warm := h.warm
  calls k hk := h.calls k (List.mem_cons_of_mem _ hk)
  log ev hev := by
    rcases List.mem_append.mp hev with hev | hev
    · exact h.log ev hev
    · obtain ⟨port, rfl⟩ := Manager.mem_upcalls hev
      exact .inr rfl
  counted := by
    have hcard := Multiset.card_erase_add_one hmem
    have hcounted := h.counted
    show s.dcm.stats.bypassReads = (s.dcm.stats.bypassCompletedReads + 1)
      + (s.dcm.bypassOutstandingReads.erase pkt.address).card
    omega

/-- Samples of empty queues. -/
theorem samples (h : Passing s₀ (.recordOccupancySamples :: K) s) (h₀ : Idle s₀) :
    Passing s₀ K (s.onDcm (·.recordOccupancySamples)) := by
  obtain ⟨-, horb, hcrb, hwb, -⟩ := h.idle h₀
  have hsize : s.dcm.orbSize = 0 := by
    rw [Manager.orbSize, horb]
    rfl
  refine ⟨Eq.trans ?_ h.untouched, h.near, h.nearMC, h.warm,
    fun k hk => h.calls k (List.mem_cons_of_mem _ hk), h.log, h.counted⟩
  simp [Manager.recordOccupancySamples, hsize, hcrb, hwb, Manager.untouched, Manager.core,
    Manager.count, Stats.untouched, Stats.core]

theorem step (h : Passing s₀ (c :: K) s) (h₀ : Idle s₀)
    (hmem : ∀ side pkt, c = .returnData side pkt → pkt.address ∈ s.dcm.bypassOutstandingReads)
    (he : s.exec c = .ok (s', ks)) : Passing s₀ (ks ++ K) s' := by
  obtain ⟨-, -, -, hwb, hresp⟩ := h.idle h₀
  have hround := h.calls c (List.mem_cons_self ..)
  have henv : s'.allWarmupComplete = s.allWarmupComplete := congrArg Prod.snd (exec_env he)
  cases c with
  | returnData side pkt =>
      cases side with
      | near => cases hround
      | far =>
          have hmem := hmem _ _ rfl
          have hret : s.returnData .far pkt
              = (s.onDcm (·.bypassAnswered pkt (s.now pkt.cpu)), []) := if_pos hmem
          obtain ⟨rfl, rfl⟩ := ok_pair he
          rw [hret]
          exact h.bypassed hmem
  | forwardDone side =>
      cases side with
      | near => cases hround
      | far =>
          obtain ⟨rfl, rfl⟩ := ok_pair he
          exact h.of_core rfl rfl rfl rfl (by simp)
  | popFar =>
      obtain ⟨rfl, rfl⟩ := ok_pair he
      exact h.of_core rfl rfl rfl rfl (by simp [Call.goesRound])
  | processReadDone side i b =>
      cases side with
      | near => cases hround
      | far =>
          dsimp only [exec] at he
          split at he
          · cases he
          · obtain ⟨rfl, rfl⟩ := ok_pair he
            exact h.of_core rfl rfl rfl rfl (by simp)
  | processPendingFarDispatches =>
      obtain ⟨rfl, rfl⟩ := ok_pair he
      exact h.processPendingFar
  | drainWB =>
      have hstay : s.drainWB = s := by rw [drainWB, hwb]
      obtain ⟨rfl, rfl⟩ := ok_pair he
      exact h.of_core (by rw [hstay]) (by rw [hstay]) (by rw [hstay]) henv (by simp)
  | processPendingNearDispatches =>
      have hnear : s.dcm.pendingNearDispatches = [] := List.map_eq_nil_iff.mp h.near
      have hstay : s.processPendingNearDispatches = (s, []) := by
        rw [processPendingNearDispatches, hnear]
      obtain ⟨rfl, rfl⟩ := ok_pair he
      rw [hstay]
      exact h.of_core rfl rfl rfl rfl (by simp)
  | operateController side =>
      cases side with
      | near =>
          obtain ⟨_, _, _, _, hnew⟩ := h₀.nearMC
          have hmc : s.mc .near = s₀.nearMC := h.nearMC
          have hstay : (s.mc .near).operate s.clock = .ok (s.mc .near, none) := by
            rw [hmc, hnew]
            exact MemoryController.new_operate ..
          dsimp only [exec, operateController] at he
          rw [hstay] at he
          obtain ⟨rfl, rfl⟩ := ok_pair he
          exact h.of_core rfl rfl rfl rfl (by simp)
      | far =>
          dsimp only [exec, operateController] at he
          split at he
          · cases he
          · obtain ⟨rfl, rfl⟩ := ok_pair he
            exact h.of_core rfl rfl rfl rfl (by simp)
          · obtain ⟨rfl, rfl⟩ := ok_pair he
            exact h.of_core rfl rfl rfl rfl (by simp [Call.goesRound])
  | processPendingResponses =>
      have hstay : s.dcm.processPendingResponses s.clock = s.dcm := by
        have hnil : { s.dcm with pendingResponses := [] } = s.dcm := by rw [← hresp]
        rw [Manager.processPendingResponses, hresp]
        exact hnil
      obtain ⟨rfl, rfl⟩ := ok_pair he
      refine h.of_core ?_ ?_ rfl rfl (by simp)
      · rw [onDcm_dcm, hstay]
      · rw [onDcm_dcm, hstay]
  | recordOccupancySamples =>
      obtain ⟨rfl, rfl⟩ := ok_pair he
      exact h.samples h₀
  | _ => cases hround

/-- A request that goes round the cache. -/
theorem request {pkt : Packet} {w : Bool} (h : Passing s₀ [] s) (h₀ : Idle s₀)
    (hop : op.request? = some (w, pkt)) : Passing s₀ (s.enter op).2 (s.enter op).1 := by
  have hhand : Passing s₀ [] (s.onDcm (·.bypass (s.stamp pkt) w)) := by
    refine ⟨Eq.trans ?_ h.untouched, Eq.trans ?_ h.near, h.nearMC, h.warm, by simp, ?_, ?_⟩
    · cases w <;> rfl
    · cases w <;> rfl
    · intro ev hev
      have hlog : (s.dcm.bypass (s.stamp pkt) w).log
          = s.dcm.log ++ [.handFar none (s.stamp pkt) w] := by cases w <;> rfl
      rw [onDcm_dcm, hlog] at hev
      rcases List.mem_append.mp hev with hev | hev
      · exact h.log ev hev
      · rw [List.mem_singleton.mp hev]
        exact .inr rfl
    · have hcounted := h.counted
      cases w with
      | true => exact hcounted
      | false =>
          show s.dcm.stats.bypassReads + 1 = s.dcm.stats.bypassCompletedReads
            + ((s.stamp pkt).address ::ₘ s.dcm.bypassOutstandingReads).card
          rw [Multiset.card_cons]
          omega
  rw [enter_bypass_eq h.warm (h.idle h₀).1 hop]
  obtain ⟨hmc, hpend, hks⟩ :=
    dispatchToFarGuaranteed_far (s := s.onDcm (·.bypass (s.stamp pkt) w)) (s.stamp pkt) w
  exact hhand.still (dispatchToFarGuaranteed_core ..) hpend hmc
    (congrArg Prod.snd (dispatchToFarGuaranteed_env ..)) hks

/-- The counters are reset while no bypass read is outstanding. -/
theorem reset (h : Passing s₀ [] s) (h₀ : Idle s₀) (hnone : s.dcm.bypassOutstandingReads = 0) :
    Passing s₀ [] (s.onDcm (·.resetROIStats)) where
  untouched := by
    have hupdates : s.dcm.stats.warmupTagUpdates = s₀.dcm.stats.warmupTagUpdates :=
      (congrArg (fun m : Manager => m.stats.warmupTagUpdates) h.untouched :)
    have hzero : s₀.dcm.untouched.stats
        = { warmupTagUpdates := s₀.dcm.stats.warmupTagUpdates } := by
      show s₀.dcm.stats.untouched = _
      rw [h₀.zero]
      rfl
    calc s.dcm.resetROIStats.untouched
        = { s.dcm.untouched with stats := { warmupTagUpdates := s.dcm.stats.warmupTagUpdates } } :=
          rfl
      _ = { s₀.dcm.untouched with stats := s₀.dcm.untouched.stats } := by
          rw [hupdates, hzero, h.untouched]
      _ = s₀.dcm.untouched := rfl
  near := h.near
  nearMC := h.nearMC
  warm := h.warm
  calls := h.calls
  log := h.log
  counted := by
    show 0 = 0 + s.dcm.bypassOutstandingReads.card
    rw [hnone, Multiset.card_zero]

theorem enter (h : Passing s₀ [] s) (h₀ : Idle s₀) (hop : op.StaysBypassed)
    (hreset : op = .resetROIStats → s.dcm.bypassOutstandingReads = 0) :
    Passing s₀ (s.enter op).2 (s.enter op).1 := by
  cases op with
  | addRq | addWq => exact h.request h₀ rfl
  | operate => exact ⟨h.untouched, h.near, h.nearMC, h.warm,
      by simp [Sys.enter, operateCalls, Call.goesRound], h.log, h.counted⟩
  | setBypassDcache b =>
      refine ⟨Eq.trans ?_ h.untouched, h.near, h.nearMC, h.warm, h.calls, h.log, h.counted⟩
      have hb : b = s.dcm.bypassDcache := by
        rw [(h.idle h₀).1]
        exact hop
      rw [hb]
      rfl
  | finishWarmup => exact ⟨h.untouched, h.near, h.nearMC, le_refl _, h.calls, h.log, h.counted⟩
  | resetROIStats => exact h.reset h₀ (hreset rfl)
  | _ => exact ⟨h.untouched, h.near, h.nearMC, h.warm, h.calls, h.log, h.counted⟩

end Passing

/-! ## Packets handed over -/

/-- A packet that is handed over is taken by the controller or pends. -/
theorem HandsOverAs.perm {α : Type*} {f : Packet → α} {h h' : Option Call} {x : Side}
    (hh : HandsOverAs f h h' s s' x)
    (hperm : (handedAs f x s.dcm.log).Perm (s.inboundAs f h x)) :
    (handedAs f x s'.dcm.log).Perm (s'.inboundAs f h' x) := by
  rcases hh with ⟨hlog, hsame⟩ | ⟨p, hlog, l₁, l₂, hold, hnew, -⟩
  · rw [hlog, hsame]
    exact hperm
  · rw [hlog, hnew]
    rw [hold] at hperm
    calc (handedAs f x s.dcm.log ++ [p]).Perm (p :: handedAs f x s.dcm.log) :=
          List.perm_append_singleton ..
      List.Perm _ (p :: (l₁ ++ l₂)) := hperm.cons p
      List.Perm _ (l₁ ++ p :: l₂) := List.perm_middle.symm

end Sys

open Sys (Poised Awake Braced Owned Passing Idle)

/-- The end of warm-up, with bypass mode on. -/
def Sys.inBypass (s : Sys) : Sys := s.onDcm fun m => { m with bypassDcache := true }

section Run

variable {allow : Op → Prop} {s₀ : Sys} {x : Worklist.Config Sys Call}

theorem Sys.Fresh.idle (h : s₀.Fresh) (hz : s₀.dcm.stats.Zero) : Idle s₀.inBypass :=
  ⟨rfl, h.nearMC, h.orb, h.crb, h.wb, h.near, h.responses, hz⟩

theorem Sys.Fresh.passing (h : s₀.Fresh) (hz : s₀.dcm.stats.Zero) :
    Passing s₀.inBypass [] s₀.inBypass := by
  refine ⟨rfl, List.map_eq_nil_iff.mpr h.near, rfl, h.live.warm, by simp,
    fun ev hev => .inl (h.log ev hev), ?_⟩
  show s₀.dcm.stats.bypassReads = s₀.dcm.stats.bypassCompletedReads
    + s₀.dcm.bypassOutstandingReads.card
  rw [h.live.noBypassReads, hz]
  rfl

/-- Nothing was handed over. -/
theorem Sys.Fresh.handedAs {α : Type*} {f : Packet → α} (h : s₀.Fresh) (side : Side) :
    DramCache.handedAs f side s₀.dcm.log = [] ∧ s₀.inboundAs f none side = [] := by
  constructor
  · refine Sys.handedAs_silent fun ev hev => ?_
    have hwarm := h.log ev hev
    cases ev <;> first | rfl | cases hwarm
  · have hpend : s₀.dcm.pending side = [] := by
      cases side with
      | near => exact List.map_eq_nil_iff.mpr h.near
      | far => exact List.map_eq_nil_iff.mpr h.far
    rw [Sys.inboundAs, Sys.live, if_neg (by simp), hpend, h.sends]
    rfl

theorem Sys.Fresh.sound (h : s₀.Fresh) : s₀.Sound := by
  intro x
  cases x with
  | near =>
      obtain ⟨_, _, _, _, hnew⟩ := h.nearMC
      show s₀.nearMC.Sound
      rw [hnew]
      exact MemoryController.new_sound ..
  | far =>
      obtain ⟨_, _, _, _, hnew⟩ := h.farMC
      show s₀.farMC.Sound
      rw [hnew]
      exact MemoryController.new_sound ..

end Run

end DramCache
