import DramCache.Modes
import DramCache.Steps

/-!
# Steps of the system in every mode

`CallStep` rests on the end of warm-up: before it a controller answers a
read at once and drops a write. But until then nothing is offered to one.
`Dormant` says why (no entry, no write-back, nothing pending), so every
call of every run is a `CallStep`. `OpenEnter` adds the operations that
stay aside and those of bypass mode, and `open_system_invariant` is the
invariant rule for runs from the construction on, whatever is switched
when.
-/

namespace DramCache

open Worklist (ReachesIf)

namespace Sys

variable {s s' : Sys} {c : Call} {K ks : List Call}

/-! ## Before the end of warm-up -/

/-- There is nothing to offer to a controller. -/
structure Dormant (K : List Call) (s : Sys) : Prop where
  orb : s.dcm.orb = ∅
  wb : s.dcm.wb = []
  pending : ∀ x, s.dcm.pending x = []
  calls : ∀ k ∈ K, k.bystander

/-- Warm-up is over, or there is nothing to offer. -/
def Awake (K : List Call) (s : Sys) : Prop := numCpus ≤ s.allWarmupComplete ∨ Dormant K s

theorem Dormant.lookup (h : Dormant K s) (a : Nat) : s.dcm.orb.lookup a = none := by
  rw [h.orb]
  rfl

theorem Dormant.tail (h : Dormant (c :: K) s) : ∀ k ∈ K, k.bystander := fun k hk =>
  h.calls k (List.mem_cons_of_mem _ hk)

/-- A call that does nothing to what there is to offer. -/
theorem Dormant.keep (h : Dormant (c :: K) s) (horb : s'.dcm.orb = s.dcm.orb)
    (hwb : s'.dcm.wb = s.dcm.wb) (hpend : ∀ x, s'.dcm.pending x = s.dcm.pending x)
    (hks : ∀ k ∈ ks, k.bystander) : Dormant (ks ++ K) s' where
  orb := horb.trans h.orb
  wb := hwb.trans h.wb
  pending x := (hpend x).trans (h.pending x)
  calls k hk := (List.mem_append.mp hk).elim (hks k) (h.tail k)

/-- The core of a dormant system only logs. -/
theorem Dormant.front {m' : Manager} (h : Dormant (c :: K) s) (hf : FrontStep s.dcm.core c m' ks) :
    m'.orb = s.dcm.orb ∧ m'.wb = s.dcm.wb ∧ ∀ k ∈ ks, k.bystander := by
  have hc : c.bystander := h.calls c (List.mem_cons_self ..)
  have hnone : ∀ a e, s.dcm.core.orb.lookup a = some e → False := fun a e he => by
    cases (h.lookup a).symm.trans he
  cases hf with
  | quiet _ hks => exact ⟨rfl, rfl, hks⟩
  | bypassed | untracked => exact ⟨rfl, rfl, by simp⟩
  | stray hl | nearEnter _ hl | nearHit _ _ hl | farDone _ _ hl => exact (hnone _ _ hl).elim
  | drained hwb => cases hwb.symm.trans h.wb
  | responses clk =>
      obtain ⟨due, rest, -, hr⟩ :=
        Manager.releaseResponses_eq clk s.dcm.core.pendingResponses s.dcm.core
      rw [Manager.processPendingResponses, hr]
      exact ⟨rfl, rfl, by simp⟩
  | samples => exact ⟨rfl, rfl, by simp⟩
  | _ => cases hc

theorem Dormant.step (h : Dormant (c :: K) s) (hstep : CallStep s c s' ks) :
    Dormant (ks ++ K) s' := by
  obtain ⟨horb, hwb, hks⟩ := h.front hstep.front
  refine h.keep horb hwb (fun x => ?_) hks
  have hbystander : c.bystander := h.calls c (List.mem_cons_self ..)
  cases hstep with
  | core _ ht => exact ht.pending x
  | drive | fill => cases hbystander
  | kept _ ht => exact ht.pending x
  | drained hne => cases hne.symm.trans h.wb
  | released side _ hr =>
      cases hr with
      | kept _ hpend => exact hpend x
      | sent hfront => cases hfront.symm.trans (h.pending side)
  | popped side _ _ hpend hother =>
      by_cases hx : x = side
      · rw [hx, hpend, h.pending]
        rfl
      · exact hother x hx
  | served _ hdcm => rw [hdcm]
  | finished hdcm => rw [hdcm]
  | readDone hdcm => rw [hdcm]

/-- The loops find nothing to offer. -/
theorem Dormant.offers_nothing (h : Dormant (c :: K) s) (hc : c.offers = true)
    (he : s.exec c = .ok (s', ks)) : s' = s ∧ ks = [] := by
  have hbystander : c.bystander := h.calls c (List.mem_cons_self ..)
  cases c with
  | processPendingFarDispatches =>
      have hfar : s.dcm.pendingFarDispatches = [] := List.map_eq_nil_iff.mp (h.pending .far)
      obtain ⟨rfl, rfl⟩ := ok_pair he
      unfold processPendingFarDispatches
      rw [hfar]
      exact ⟨rfl, rfl⟩
  | processPendingNearDispatches =>
      have hnear : s.dcm.pendingNearDispatches = [] := List.map_eq_nil_iff.mp (h.pending .near)
      obtain ⟨rfl, rfl⟩ := ok_pair he
      unfold processPendingNearDispatches
      rw [hnear]
      exact ⟨rfl, rfl⟩
  | drainWB =>
      obtain ⟨rfl, rfl⟩ := ok_pair he
      unfold drainWB
      rw [h.wb]
      exact ⟨rfl, rfl⟩
  | driveState | backgroundFill => cases hbystander
  | _ => cases hc

theorem Dormant.callStep (h : Dormant (c :: K) s) (hc : c.offers = true)
    (he : s.exec c = .ok (s', ks)) : CallStep s c s' ks := by
  have hbystander : c.bystander := h.calls c (List.mem_cons_self ..)
  have hkept : ∀ side : Side, Released s side side.pop s [] := fun side =>
    .kept (fun _ => rfl) (fun _ => rfl) (.inl rfl)
  obtain ⟨rfl, rfl⟩ := h.offers_nothing hc he
  cases c with
  | processPendingFarDispatches => exact CallStep.released .far rfl (hkept .far)
  | processPendingNearDispatches => exact CallStep.released .near rfl (hkept .near)
  | drainWB => exact .kept rfl ⟨fun _ => rfl, fun _ => rfl, rfl, rfl⟩
  | driveState | backgroundFill => cases hbystander
  | _ => cases hc

/-- **The system step in every mode.** -/
theorem Poised.callStep (h : Poised (c :: K) s) (ha : Awake (c :: K) s)
    (he : s.exec c = .ok (s', ks)) : CallStep s c s' ks := by
  have hheld : ∀ side i b, c = .processReadDone side i b →
      ((s.mc side).rq.slotAt i).pkt.address ≠ 0 := by
    rintro side i b rfl
    exact h.held side i b (hook_cons_self rfl)
  rcases ha with hwarm | hd
  · exact exec_callStep h.mcOk (fun _ => hwarm) hheld he
  · by_cases hc : c.offers = true
    · exact hd.callStep hc he
    · exact exec_callStep h.mcOk (fun hc' => absurd hc' hc) hheld he

theorem Awake.step (h : Awake (c :: K) s) (hstep : CallStep s c s' ks)
    (he : s.exec c = .ok (s', ks)) : Awake (ks ++ K) s' := by
  rcases h with hwarm | hd
  · have hw : s'.allWarmupComplete = s.allWarmupComplete := congrArg Prod.snd (exec_env he)
    exact .inl (hw ▸ hwarm)
  · exact .inr (hd.step hstep)

/-! ## Operations -/

end Sys

/-- What `add_rq` and `add_wq` do in bypass mode before they dispatch. -/
def Manager.bypass (m : Manager) (pkt : Packet) (w : Bool) : Manager :=
  (if w then m.count fun st => { st with bypassWrites := st.bypassWrites + 1 }
    else { m.count fun st => { st with bypassReads := st.bypassReads + 1 } with
      bypassOutstandingReads := pkt.address ::ₘ m.bypassOutstandingReads }).emit
        (.handFar none pkt w)

theorem Manager.bypass_eq (m : Manager) (pkt : Packet) (w : Bool) :
    m.bypass pkt w =
      { m with
        bypassOutstandingReads :=
          if w then m.bypassOutstandingReads else pkt.address ::ₘ m.bypassOutstandingReads
        stats := (m.bypass pkt w).stats
        log := m.log ++ [.handFar none pkt w] } := by
  cases w <;> rfl

namespace Sys

variable {s s' : Sys} {op : Op} {c : Call} {K ks : List Call}

/-- **Entering an operation in any mode.** -/
inductive OpenEnter (s : Sys) (op : Op) : Sys → List Call → Prop
  | front {s' : Sys} {ks : List Call} (h : EnterStep s op s' ks)
      (hmode : op.request? ≠ none → s.dcm.bypassDcache = false) : OpenEnter s op s' ks
  /-- Of the warm-up, or `setBypassDcache`. -/
  | aside {s' : Sys} (h : Aside s.dcm.core s'.dcm.core) (hmc : ∀ x, s'.mc x = s.mc x)
      (hcalm : Calm s.dcm s'.dcm) (hlog : ∃ evs, s'.dcm.log = s.dcm.log ++ evs ∧
        ∀ ev ∈ evs, ev.isWarmup = true)
      (hreads : s'.dcm.bypassOutstandingReads = s.dcm.bypassOutstandingReads) :
      OpenEnter s op s' []
  | bypass {s' : Sys} {ks : List Call} {w : Bool} {pkt : Packet}
      (hop : op.request? = some (w, pkt)) (hwarm : numCpus ≤ s.allWarmupComplete)
      (hmode : s.dcm.bypassDcache = true)
      (hcore : s'.dcm.core = s.dcm.core.bypass (s.stamp pkt) w)
      (hd : Dispatched s .far (s.stamp pkt) w s' ks) : OpenEnter s op s' ks

theorem enter_bypass_eq (hwarm : numCpus ≤ s.allWarmupComplete)
    (hmode : s.dcm.bypassDcache = true) {pkt : Packet} {w : Bool}
    (hop : op.request? = some (w, pkt)) : s.enter op
      = (s.onDcm (·.bypass (s.stamp pkt) w)).dispatchToFarGuaranteed (s.stamp pkt) w := by
  have hpre : ¬ s.allWarmupComplete < numCpus := not_lt.mpr hwarm
  cases op with
  | addRq | addWq =>
      obtain ⟨rfl, rfl⟩ := Prod.mk.inj (Option.some.inj hop)
      simp only [enter, addRq, addWq, if_neg hpre, if_pos hmode]
      rfl
  | _ => cases hop

theorem enter_bypass (hmc : s.McOk) (hwarm : numCpus ≤ s.allWarmupComplete)
    (hmode : s.dcm.bypassDcache = true) {pkt : Packet} {w : Bool}
    (hop : op.request? = some (w, pkt)) : OpenEnter s op (s.enter op).1 (s.enter op).2 := by
  have hst : SameTraffic s (s.onDcm (·.bypass (s.stamp pkt) w)) := by
    cases w <;> exact .of_calm (.of_fields rfl rfl rfl)
  have hd := (dispatchToFarGuaranteed_dispatched (hst.mcOk hmc) hwarm (s.stamp pkt) w).congr hst
    (by cases w <;> rfl)
  have hcore := dispatchToFarGuaranteed_core (s.onDcm (·.bypass (s.stamp pkt) w)) (s.stamp pkt) w
  have hcore' : (s.onDcm (·.bypass (s.stamp pkt) w)).dcm.core
      = s.dcm.core.bypass (s.stamp pkt) w := by cases w <;> rfl
  rw [enter_bypass_eq hwarm hmode hop]
  exact .bypass hop hwarm hmode (hcore.trans hcore') hd

/-- An operation of the front end. -/
theorem enter_front {s' : Sys} {ks : List Call} (hf : FrontEnter s.dcm.core op s'.dcm.core ks)
    (hmc : ∀ x, s'.mc x = s.mc x) (hcalm : Calm s.dcm s'.dcm)
    (hmode : op.request? ≠ none → s.dcm.bypassDcache = false) : OpenEnter s op s' ks :=
  .front ⟨hf, hmc, hcalm⟩ hmode

theorem enter_openEnter (hmc : s.McOk) (op : Op) : OpenEnter s op (s.enter op).1 (s.enter op).2 := by
  have hadm : ∀ {pkt w}, op.request? = some (w, pkt) → s.dcm.bypassDcache = false →
      OpenEnter s op (s.admission pkt w).1 (s.admission pkt w).2.2 := fun hop hmode =>
    enter_front (admission_frontEnter hop) (admission_traffic ..).1 (admission_traffic ..).2
      fun _ => hmode
  have hset : ∀ {s' : Sys}, op.request? = none → FrontEnter s.dcm.core op s'.dcm.core [] →
      (∀ x, s'.mc x = s.mc x) → Calm s.dcm s'.dcm → OpenEnter s op s' [] := fun hop hf hmc hcalm =>
    enter_front hf hmc hcalm fun hne => absurd hop hne
  have hkeep : s.dcm.bypassDcache = true → s.dcm.core.bypassDcache = true := id
  have hmcs : ∀ s' : Sys, s'.nearMC = s.nearMC → s'.farMC = s.farMC → ∀ x, s'.mc x = s.mc x := by
    intro s' hn hf x
    cases x
    · exact hn
    · exact hf
  have hrequest : ∀ {pkt w}, op.request? = some (w, pkt) → ¬ s.allWarmupComplete < numCpus →
      ¬ s.dcm.bypassDcache = true → s.enter op = ((s.admission pkt w).1, (s.admission pkt w).2.2) := by
    intro pkt w hop hwarm hbyp
    cases op with
    | addRq | addWq =>
        obtain ⟨rfl, rfl⟩ := Prod.mk.inj (Option.some.inj hop)
        simp only [enter, addRq, addWq, if_neg hwarm, if_neg hbyp]
    | _ => cases hop
  have hwarmed : ∀ {pkt w}, op.request? = some (w, pkt) →
      OpenEnter s op (s.enter op).1 (s.enter op).2 ∨ s.allWarmupComplete < numCpus := by
    intro pkt w hop
    by_cases hwarm : s.allWarmupComplete < numCpus
    · exact .inr hwarm
    · left
      by_cases hbyp : s.dcm.bypassDcache = true
      · exact enter_bypass hmc (not_lt.mp hwarm) hbyp hop
      · rw [hrequest hop hwarm hbyp]
        exact hadm hop (Bool.not_eq_true _ ▸ hbyp)
  cases op with
  | addRq pkt =>
      have hupcalls : ∀ ev ∈ Manager.upcalls .warmup pkt (s.now pkt.cpu), ev.isWarmup = true := by
        intro ev hev
        obtain ⟨port, rfl⟩ := Manager.mem_upcalls hev
        rfl
      refine (hwarmed rfl).elim id fun hwarm => ?_
      simp only [enter, addRq, if_pos hwarm]
      split
      · exact .aside ((warmupTagUpdate_aside ..).trans (callUpper_aside ..)) (fun _ => rfl)
          (.of_fields rfl rfl rfl) ⟨.warmed false pkt :: _, (List.append_cons ..).symm,
            List.forall_mem_cons.mpr ⟨rfl, hupcalls⟩⟩ rfl
      · exact .aside (callUpper_aside ..) (fun _ => rfl) (.of_fields rfl rfl rfl)
          ⟨_, rfl, hupcalls⟩ rfl
  | addWq pkt =>
      refine (hwarmed rfl).elim id fun hwarm => ?_
      simp only [enter, addWq, if_pos hwarm]
      split
      · exact .aside (warmupTagUpdate_aside ..) (fun _ => rfl) (.of_fields rfl rfl rfl)
          ⟨_, rfl, by simp [Event.isWarmup]⟩ rfl
      · exact .aside (.refl _) (fun _ => rfl) (.of_fields rfl rfl rfl)
          ⟨[], (List.append_nil _).symm, by simp⟩ rfl
  | setBypassDcache b =>
      exact .aside ⟨rfl, rfl, rfl, rfl, rfl, ⟨_, _, _, rfl⟩, [], (List.append_nil _).symm, by simp⟩
        (fun _ => onDcm_mc ..) (.of_fields rfl rfl rfl) ⟨[], (List.append_nil _).symm, by simp⟩ rfl
  | operate => exact enter_front .operate (fun _ => rfl) (.of_fields rfl rfl rfl) (by simp [Op.request?])
  | tick clk =>
      exact hset rfl (.configured rfl s.dcm.policy s.dcm.linkLatencyCycles
        s.dcm.frontendLatencyCycles s.dcm.backendLatencyCycles s.dcm.bypassDcache hkeep)
        (hmcs _ rfl rfl) (.of_fields rfl rfl rfl)
  | setPolicy pol =>
      exact hset rfl (.configured rfl pol s.dcm.linkLatencyCycles s.dcm.frontendLatencyCycles
        s.dcm.backendLatencyCycles s.dcm.bypassDcache hkeep) (hmcs _ rfl rfl) (.of_fields rfl rfl rfl)
  | setLinkLatency n =>
      exact hset rfl (.configured rfl s.dcm.policy n s.dcm.frontendLatencyCycles
        s.dcm.backendLatencyCycles s.dcm.bypassDcache hkeep) (hmcs _ rfl rfl) (.of_fields rfl rfl rfl)
  | setControllerLatency f b =>
      exact hset rfl (.configured rfl s.dcm.policy s.dcm.linkLatencyCycles f b
        s.dcm.bypassDcache hkeep) (hmcs _ rfl rfl) (.of_fields rfl rfl rfl)
  | finishWarmup =>
      exact hset rfl (.configured rfl s.dcm.policy s.dcm.linkLatencyCycles
        s.dcm.frontendLatencyCycles s.dcm.backendLatencyCycles s.dcm.bypassDcache hkeep)
        (hmcs _ rfl rfl) (.of_fields rfl rfl rfl)
  | resetROIStats => exact hset rfl .statsReset (hmcs _ rfl rfl) (.of_fields rfl rfl rfl)

/-! ### What operations keep -/

/-- Bystanders over a call boundary. -/
theorem Grows.poised (h : Grows s s') (hks : ∀ k ∈ ks, k.rank = 1) : Poised ks s' := by
  have hhook : hook ks = none := by
    have happ := hook_append (L := ks) (K := []) fun k hk => by rw [hks k hk]; decide
    rwa [List.append_nil] at happ
  have hstacked : Stacked ks := by
    have happ := Stacked.append (L := ks) (K := []) hks List.Pairwise.nil
    rwa [List.append_nil] at happ
  refine ⟨h.mcOk, hstacked, ?_, ?_⟩ <;> rw [hhook] <;> simp

theorem OpenEnter.poised (h : OpenEnter s op s' ks) (hp : Poised [] s) : Poised ks s' := by
  cases h with
  | front h => exact hp.enter h
  | aside _ hmc hcalm =>
      refine Grows.poised (s := s) ⟨fun x => hmc x ▸ hp.mcOk x, fun x => ?_, fun x i => ?_⟩ (by simp)
      · rw [hcalm.1]
        exact id
      · rw [hmc]
        exact id
  | bypass _ _ _ _ hd => exact (hd.grows hp.mcOk).poised hd.calls_rank

theorem OpenEnter.hook_eq (h : OpenEnter s op s' ks) : hook ks = none := by
  cases h with
  | front h => exact (FrontEnter.stacked h.front).2
  | aside => rfl
  | bypass _ _ _ _ hd =>
      have happ := hook_append (L := ks) (K := []) fun k hk => by rw [hd.calls_rank k hk]; decide
      rwa [List.append_nil] at happ

/-- Warm-up does not begin again. -/
theorem enter_stays_warm (h : numCpus ≤ s.allWarmupComplete) (op : Op) :
    numCpus ≤ (s.enter op).1.allWarmupComplete := by
  have hpre : ¬ s.allWarmupComplete < numCpus := not_lt.mpr h
  have henv : ∀ s' : Sys, s'.env = s.env → numCpus ≤ s'.allWarmupComplete := fun s' he => by
    have hw : s'.allWarmupComplete = s.allWarmupComplete := congrArg Prod.snd he
    rwa [hw]
  cases op with
  | addRq pkt =>
      simp only [enter, addRq, if_neg hpre]
      split
      · exact henv _ (dispatchToFarGuaranteed_env ..)
      · exact henv _ (admission_env ..)
  | addWq pkt =>
      simp only [enter, addWq, if_neg hpre]
      split
      · exact henv _ (dispatchToFarGuaranteed_env ..)
      · exact henv _ (admission_env ..)
  | finishWarmup => exact le_refl _
  | _ => exact h

/-- Until the end of warm-up a request only warms up the tags. -/
theorem Awake.enter (h : Awake [] s) (op : Op) : Awake (s.enter op).2 (s.enter op).1 := by
  by_cases hwarm : numCpus ≤ s.allWarmupComplete
  · exact .inl (enter_stays_warm hwarm op)
  have hd : Dormant [] s := h.resolve_left hwarm
  have hpre : s.allWarmupComplete < numCpus := not_le.mp hwarm
  have hpend : ∀ {m : Manager}, m.pendingFarDispatches = s.dcm.pendingFarDispatches →
      m.pendingNearDispatches = s.dcm.pendingNearDispatches → ∀ x, m.pending x = [] := by
    intro m hf hn x
    rw [← hd.pending x]
    cases x
    · exact congrArg _ hn
    · exact congrArg _ hf
  have hrest : ∀ {s' : Sys} {ks : List Call}, s'.dcm.orb = s.dcm.orb → s'.dcm.wb = s.dcm.wb →
      s'.dcm.pendingFarDispatches = s.dcm.pendingFarDispatches →
      s'.dcm.pendingNearDispatches = s.dcm.pendingNearDispatches →
      (∀ k ∈ ks, k.bystander) → Awake ks s' := fun horb hwb hf hn hks =>
    .inr ⟨horb.trans hd.orb, hwb.trans hd.wb, hpend hf hn, hks⟩
  cases op with
  | addRq pkt =>
      simp only [Sys.enter, addRq, if_pos hpre]
      split <;> exact hrest rfl rfl rfl rfl (by simp)
  | addWq pkt =>
      simp only [Sys.enter, addWq, if_pos hpre]
      split <;> exact hrest rfl rfl rfl rfl (by simp)
  | finishWarmup => exact .inl (le_refl _)
  | operate => exact hrest rfl rfl rfl rfl (by simp [Sys.enter, operateCalls, Call.bystander])
  | _ => exact hrest rfl rfl rfl rfl (by simp [Sys.enter])

end Sys

/-! ## The rule -/

section Rule

open Sys (Poised Awake CallStep OpenEnter)

variable {allow : Op → Prop} {ok : Worklist.Config Sys Call → Prop} {s₀ : Sys}
  {x : Worklist.Config Sys Call}

/-- A system that was just constructed, over controllers in order. -/
theorem Sys.boot_poised {near far : MemoryController} (hnear : near.Ok) (hfar : far.Ok)
    (clk : Clock) (frontend backend : Nat) : Poised [] (.boot near far clk frontend backend) ∧
      Awake [] (.boot near far clk frontend backend) := by
  refine ⟨⟨fun x => ?_, List.Pairwise.nil, by simp [hook], by simp [hook]⟩,
    .inr ⟨rfl, rfl, fun x => by cases x <;> rfl, by simp⟩⟩
  cases x
  · exact hnear
  · exact hfar

/-- **The invariant rule of the system in every mode.** What holds at the
start and is kept by every `OpenEnter` and every `CallStep` of a run holds
throughout. -/
theorem open_system_invariant (h₀ : Poised [] s₀ ∧ Awake [] s₀) {P : List Call → Sys → Prop}
    (hstart : P [] s₀)
    (hEnter : ∀ op s s' ks, allow op → ReachesIf machine allow ok s₀ ([], s) → ok ([], s) →
      Poised [] s → OpenEnter s op s' ks → P [] s → P ks s')
    (hCall : ∀ c K s s' ks, ok (c :: K, s) → ReachesIf machine allow ok s₀ (c :: K, s) →
      Poised (c :: K) s → CallStep s c s' ks → P (c :: K) s → P (ks ++ K) s')
    (h : ReachesIf machine allow ok s₀ x) : (Poised x.1 x.2 ∧ Awake x.1 x.2) ∧ P x.1 x.2 := by
  refine ReachesIf.invariant (P := fun x => (Poised x.1 x.2 ∧ Awake x.1 x.2) ∧ P x.1 x.2)
    ⟨h₀, hstart⟩ ?_ ?_ h
  · rintro op s ha hok hr ⟨⟨hpoised, hawake⟩, hp⟩
    have hstep := Sys.enter_openEnter hpoised.mcOk op
    exact ⟨⟨hstep.poised hpoised, hawake.enter op⟩, hEnter op s _ _ ha hr hok hpoised hstep hp⟩
  · rintro c K s s' ks hok hr ⟨⟨hpoised, hawake⟩, hp⟩ he
    have hstep := hpoised.callStep hawake he
    exact ⟨⟨hpoised.step hstep, hawake.step hstep he⟩, hCall c K s s' ks hok hr hpoised hstep hp⟩

end Rule

end DramCache
