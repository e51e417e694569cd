import DramCache.Sending

/-!
# Steps of the whole system

`CallStep` joins what a call does to the core with what it does to the
controllers and the pending dispatches. It needs the controllers' queues in
order and, for the end of a read, the read's slot still taken; `Poised` is
the invariant that provides both. `system_invariant` is the invariant rule
this gives.
-/

namespace DramCache

/-! ## The shape of a work list -/

/-- Callbacks and what they cause come first, then the rest of the
function a controller was called from or calls back, then the steps of
`operate`. -/
def Call.rank : Call → Nat
  | .popFar | .popNear | .processReadDone .. => 2
  | .processPendingFarDispatches | .drainWB | .processPendingNearDispatches
  | .operateController _ | .processPendingResponses | .recordOccupancySamples => 3
  | _ => 1

/-- Ranks ascend and at most one call has rank 2. -/
def Stacked (K : List Call) : Prop :=
  K.Pairwise fun a b => a.rank ≤ b.rank ∧ (a.rank = 2 → b.rank ≠ 2)

/-- The call of rank 2. -/
def hook (K : List Call) : Option Call := K.find? fun c => c.rank == 2

theorem Call.rank_bounds (c : Call) : 1 ≤ c.rank ∧ c.rank ≤ 3 := by
  cases c <;> simp [Call.rank]

theorem Call.rank_of_not_bystander {c : Call} (h : c.bystander = false) : c.rank = 1 := by
  cases c <;> first | rfl | cases h

theorem hook_append {L K : List Call} (h : ∀ k ∈ L, k.rank ≠ 2) :
    hook (L ++ K) = hook K := by
  have hnone : L.find? (fun c => c.rank == 2) = none :=
    List.find?_eq_none.mpr fun k hk => by simpa using h k hk
  rw [hook, List.find?_append, hnone, Option.none_or, hook]

theorem hook_cons {c : Call} {K : List Call} (h : c.rank ≠ 2) : hook (c :: K) = hook K :=
  hook_append (L := [c]) fun k hk => by rwa [List.mem_singleton.mp hk]

theorem hook_cons_self {c : Call} {K : List Call} (h : c.rank = 2) : hook (c :: K) = some c := by
  simp [hook, h]

namespace Stacked

variable {c : Call} {ks K : List Call}

theorem tail (h : Stacked (c :: K)) : Stacked K := (List.pairwise_cons.mp h).2

/-- Calls of rank 1 may come first. -/
theorem append {L : List Call} (hks : ∀ k ∈ L, k.rank = 1) (h : Stacked K) :
    Stacked (L ++ K) := by
  refine List.pairwise_append.mpr ⟨?_, h, ?_⟩
  · refine List.pairwise_of_forall_mem_list fun a ha b hb => ?_
    have h1 := hks a ha
    have h2 := hks b hb
    omega
  · intro a ha b _
    have h1 := hks a ha
    have h2 := b.rank_bounds
    omega

/-- Behind a hook or a step of `operate` stand steps of `operate`. -/
theorem rest (h : Stacked (c :: K)) (hc : c.rank ≠ 1) : ∀ k ∈ K, k.rank = 3 := by
  intro k hk
  have hk' := (List.pairwise_cons.mp h).1 k hk
  have h1 := c.rank_bounds
  have h2 := k.rank_bounds
  omega

/-- A hook stands before steps of `operate`. -/
theorem cons_hook (h : Stacked K) (hK : ∀ k ∈ K, k.rank = 3) :
    Stacked (c :: K) := by
  refine List.pairwise_cons.mpr ⟨fun k hk => ?_, h⟩
  have h1 := c.rank_bounds
  have h2 := hK k hk
  omega

end Stacked

theorem hook_phases {K : List Call} (h : ∀ k ∈ K, k.rank = 3) : hook K = none :=
  List.find?_eq_none.mpr fun k hk => by simp [h k hk]

/-! ### The hook around a call -/

section Hook

variable {c : Call} {K L : List Call}

/-- Calls of rank 1 in the place of one that is no hook. -/
theorem hook_replaced (hL : ∀ k ∈ L, k.rank = 1) (hc : c.rank ≠ 2) :
    hook (L ++ K) = hook (c :: K) := by
  rw [hook_append fun k hk => by rw [hL k hk]; decide, hook_cons hc]

/-- A hook behind calls of rank 1. -/
theorem hook_pushed (hL : ∀ k ∈ L, k.rank = 1) (hc : c.rank = 2) :
    hook (L ++ [c] ++ K) = some c := by
  rw [List.append_assoc, hook_append fun k hk => by rw [hL k hk]; decide]
  exact hook_cons_self hc

theorem Stacked.hook_tail (h : Stacked (c :: K)) (hc : c.rank ≠ 1) : hook K = none :=
  hook_phases (h.rest hc)

/-- No hook stands behind a step of `operate`, nor does what replaces a hook
leave one. -/
theorem Stacked.hook_phase (h : Stacked (c :: K)) (hc : c.rank ≠ 1) {c' : Call}
    (hc' : c'.rank ≠ 2) : hook (c' :: K) = none := by
  rw [hook_cons hc', h.hook_tail hc]

end Hook

/-- The pop of a side's pending queue. -/
def Side.pop : Side → Call
  | .near => .popNear
  | .far => .popFar

/-- The retry loop of a side. -/
def Side.process : Side → Call
  | .near => .processPendingNearDispatches
  | .far => .processPendingFarDispatches

@[simp] theorem Side.pop_rank (side : Side) : side.pop.rank = 2 := by cases side <;> rfl

@[simp] theorem Side.process_rank (side : Side) : side.process.rank = 3 := by cases side <;> rfl

theorem Side.pop_bystander (side : Side) : side.pop.bystander := by cases side <;> rfl

theorem Side.process_bystander (side : Side) : side.process.bystander := by cases side <;> rfl

theorem Side.pop_inj {side side' : Side} (h : side.pop = side'.pop) : side = side' := by
  cases side <;> cases side' <;> first | rfl | cases h

/-! ## What a call does -/

/-- The calls that offer packets to a controller, or release one. -/
def Call.dispatches : Call → Bool
  | .driveState _ | .backgroundFill .. | .drainWB => true
  | c => c.rank == 2

/-- The calls that may offer a packet to a controller. -/
def Call.offers : Call → Bool
  | .driveState _ | .backgroundFill .. | .drainWB | .processPendingFarDispatches
  | .processPendingNearDispatches => true
  | _ => false

theorem Call.rank_of_not_dispatches {c : Call} (h : c.dispatches = false) : c.rank ≠ 2 := by
  cases c <;> first | (cases h; done) | simp [Call.rank]

namespace Sys

/-- A controller moved: its queues are in order and the read queue holds
the same lines. -/
def Served (s s' : Sys) : Prop := ∀ x, (s'.mc x).Ok ∧ (s'.mc x).rq.lines = (s.mc x).rq.lines

theorem Served.setMc {s : Sys} (hmc : s.McOk) {side : Side} {mc : MemoryController}
    (hok : mc.Ok) (hlines : mc.rq.lines = (s.mc side).rq.lines) : Served s (s.setMc side mc) := by
  intro x
  refine ⟨hmc.setMc hok x, ?_⟩
  by_cases hx : x = side
  · subst hx
    rw [setMc_mc_self, hlines]
  · rw [setMc_mc_ne s hx]

theorem Sent.bystander {s s' : Sys} {side : Side} {pkt : Packet} {w ok : Bool} {ks : List Call}
    (h : Sent s side pkt w s' ok ks) : ∀ k ∈ ks, k.bystander := by
  cases h with
  | forwarded =>
      intro k hk
      rcases List.mem_append.mp hk with hk | hk
      · exact callbacks_bystander hk
      · rw [List.mem_singleton.mp hk]
        rfl
  | _ => simp

theorem Dispatched.bystander {s s' : Sys} {side : Side} {pkt : Packet} {w : Bool}
    {ks : List Call} (h : Dispatched s side pkt w s' ks) : ∀ k ∈ ks, k.bystander := by
  cases h with
  | sent h => exact h.bystander
  | queued => simp

/-- Everything one call does. -/
inductive CallStep (s : Sys) : Call → Sys → List Call → Prop
  | core {c : Call} {s' : Sys} {ks : List Call} (hc : c.dispatches = false)
      (ht : SameTraffic s s') (hks : ∀ k ∈ ks, k.bystander = false)
      (hf : FrontStep s.dcm.core c s'.dcm.core ks) : CallStep s c s' ks
  | drive {a : Nat} {s' : Sys} {ks : List Call} (h : Drive s a s' ks) :
      CallStep s (.driveState a) s' ks
  | fill {rid i : Nat} {pkt : Packet} {s' : Sys}
      (hcore : s'.dcm.core = s.dcm.core.fillNear rid i pkt)
      (h : Dispatched s .near pkt true s' []) : CallStep s (.backgroundFill rid i pkt) s' []
  | kept {s' : Sys} (hcore : s'.dcm.core = s.dcm.core) (ht : SameTraffic s s') :
      CallStep s .drainWB s' []
  | drained {front : WbEntry} {rest : List WbEntry} {s' : Sys}
      (hwb : s.dcm.wb = front :: rest) (hcore : s'.dcm.core = s.dcm.core.drained front)
      (h : Dispatched s .far front.pkt true s' [])
      (hlink : s.dcm.linkLatencyCycles = 0 → ∀ x, s'.dcm.pending x = s.dcm.pending x) :
      CallStep s .drainWB s' []
  | released (side : Side) {s' : Sys} {ks : List Call} (hcore : s'.dcm.core = s.dcm.core)
      (h : Released s side side.pop s' ks) : CallStep s side.process s' ks
  | popped (side : Side) {s' : Sys} (hcore : s'.dcm.core = s.dcm.core)
      (hmc : ∀ x, s'.mc x = s.mc x)
      (hpend : s'.dcm.pending side = (s.dcm.pending side).tail)
      (hother : ∀ x, x ≠ side → s'.dcm.pending x = s.dcm.pending x)
      (hsends : s'.dcm.sends = s.dcm.sends) : CallStep s side.pop s' [side.process]
  | served {c : Call} {s' : Sys} (hc : ∃ side, c = .forwardDone side ∨ c = .operateController side)
      (hdcm : s'.dcm = s.dcm) (hmc : Served s s') : CallStep s c s' []
  | finished {side : Side} {s' : Sys} {i b : Nat} {pkt : Packet} (hdcm : s'.dcm = s.dcm)
      (hmc : Served s s') (hline : (s.mc side).rq.lines[i]? = some pkt.address)
      (hpkt : pkt.address ≠ 0) : CallStep s (.operateController side) s'
        [.returnData side pkt, .processReadDone side i b]
  | readDone {side : Side} {i b : Nat} {s' : Sys} (hdcm : s'.dcm = s.dcm) (hmc : s'.McOk)
      (hlines : (s'.mc side).rq.lines = (s.mc side).rq.lines.set i 0)
      (hother : ∀ x, x ≠ side → s'.mc x = s.mc x) :
      CallStep s (.processReadDone side i b) s' []

/-! ### The manager's own pieces leave the traffic alone -/

/-- The manager's functions that neither send nor release. -/
def Calm (m m' : Manager) : Prop := (∀ x, m'.pending x = m.pending x) ∧ m'.sends = m.sends

theorem Calm.trans {m₁ m₂ m₃ : Manager} (h₁ : Calm m₁ m₂) (h₂ : Calm m₂ m₃) : Calm m₁ m₃ :=
  ⟨fun x => (h₂.1 x).trans (h₁.1 x), h₂.2.trans h₁.2⟩

theorem Calm.of_fields {m m' : Manager} (hf : m'.pendingFarDispatches = m.pendingFarDispatches)
    (hn : m'.pendingNearDispatches = m.pendingNearDispatches) (hs : m'.sends = m.sends) :
    Calm m m' := by
  refine ⟨fun x => ?_, hs⟩
  cases x with
  | near => rw [Manager.pending, Manager.pending, hn]
  | far => rw [Manager.pending, Manager.pending, hf]

theorem emit_calm (m : Manager) (ev : Event) : Calm m (m.emit ev) := .of_fields rfl rfl rfl

theorem nearAnswered_calm (m : Manager) (e : OrbEntry) (now : Nat) :
    Calm m (m.nearAnswered e now) := by
  rw [Manager.nearAnswered_eq]
  exact .of_fields rfl rfl rfl

theorem retire_calm (m : Manager) (e : OrbEntry) (lat now : Nat) : Calm m (m.retire e lat now) := by
  rw [Manager.retire_eq]
  exact .of_fields rfl rfl rfl

theorem admitEntry_calm (m : Manager) (pkt : Packet) (w : Bool) (arr : Option Nat) (now : Nat) :
    Calm m (m.admitEntry pkt w arr now) := .of_fields rfl rfl rfl

theorem flagConflict_calm (m : Manager) (a i : Nat) : Calm m (m.flagConflict a i) := by
  rcases m.flagConflict_eq a i with hf | ⟨e, -, hf⟩ <;> rw [hf] <;> exact .of_fields rfl rfl rfl

theorem processPendingResponses_calm (m : Manager) (clk : Clock) :
    Calm m (m.processPendingResponses clk) := by
  obtain ⟨due, rest, -, hr⟩ := Manager.releaseResponses_eq clk m.pendingResponses m
  rw [Manager.processPendingResponses, hr]
  exact .of_fields rfl rfl rfl

theorem SameTraffic.of_calm {s : Sys} {f : Manager → Manager} (h : Calm s.dcm (f s.dcm)) :
    SameTraffic s (s.onDcm f) := .onDcm h.1 h.2

theorem completeEntry_traffic (s : Sys) (e : OrbEntry) (lat : Nat) :
    SameTraffic s (s.completeEntry e lat).1 := by
  show SameTraffic s (s.onDcm (·.retire e lat (s.now e.pkt.cpu)))
  exact .of_calm (retire_calm ..)

theorem SameTraffic.trans {s₁ s₂ s₃ : Sys} (h₁ : SameTraffic s₁ s₂) (h₂ : SameTraffic s₂ s₃) :
    SameTraffic s₁ s₃ where
  mc x := (h₂.mc x).trans (h₁.mc x)
  pending x := (h₂.pending x).trans (h₁.pending x)
  sends := h₂.sends.trans h₁.sends
  clock := h₂.clock.trans h₁.clock

theorem nearResponse_traffic (s : Sys) (e : OrbEntry) : SameTraffic s (s.nearResponse e).1 ∧
    ∀ k ∈ (s.nearResponse e).2, k.bystander = false := by
  have hn : SameTraffic s (s.onDcm (·.nearAnswered e (s.now e.pkt.cpu))) :=
    .of_calm (nearAnswered_calm ..)
  have henter : ∀ st, SameTraffic (s.onDcm (·.nearAnswered e (s.now e.pkt.cpu)))
      ((s.onDcm (·.nearAnswered e (s.now e.pkt.cpu))).onDcm (·.enterState e st)) :=
    fun _ => .of_calm (.of_fields rfl rfl rfl)
  unfold nearResponse
  split
  · exact ⟨hn.trans (henter _), by simp [Call.bystander]⟩
  · split
    · exact ⟨hn.trans (completeEntry_traffic ..), by simp [completeEntry, Call.bystander]⟩
    · exact ⟨hn.trans (henter _), by simp [Call.bystander]⟩

theorem returnData_traffic (s : Sys) (side : Side) (pkt : Packet) :
    SameTraffic s (s.returnData side pkt).1 ∧
      ∀ k ∈ (s.returnData side pkt).2, k.bystander = false := by
  have hemit : ∀ ev, SameTraffic s (s.onDcm (·.emit ev)) := fun ev => .of_calm (emit_calm ..)
  unfold returnData
  split
  · refine ⟨?_, by simp⟩
    show SameTraffic s (s.onDcm (·.bypassAnswered pkt (s.now pkt.cpu)))
    exact .of_calm (.of_fields rfl rfl rfl)
  · split
    · exact ⟨hemit _, by simp⟩
    · rename_i e _
      dsimp only
      split
      · have hn := nearResponse_traffic (s.onDcm (·.emit (.answered side e))) e
        exact ⟨(hemit _).trans hn.1, hn.2⟩
      · have hfar : SameTraffic (s.onDcm (·.emit (.answered side e)))
            ((s.onDcm (·.emit (.answered side e))).onDcm (·.farAnswered)) :=
          .of_calm (.of_fields rfl rfl rfl)
        exact ⟨((hemit _).trans hfar).trans (completeEntry_traffic ..),
          by simp [farResponse, completeEntry, Call.bystander]⟩
      · exact ⟨hemit _, by simp⟩

theorem promoteFromCRB_traffic (s : Sys) (i : Nat) : SameTraffic s (s.promoteFromCRB i).1 ∧
    ∀ k ∈ (s.promoteFromCRB i).2, k.bystander = false := by
  unfold promoteFromCRB
  split
  · exact ⟨⟨fun _ => rfl, fun _ => rfl, rfl, rfl⟩, by simp⟩
  · rename_i c _
    have htake : SameTraffic s (s.onDcm (·.takeWaiter i)) :=
      .of_calm (.of_fields rfl rfl rfl)
    have hadmit : SameTraffic (s.onDcm (·.takeWaiter i)) ((s.onDcm (·.takeWaiter i)).onDcm
        (·.admitEntry c.pkt c.isWriteReq (some c.arrivalCycle) (s.now c.pkt.cpu))) :=
      .of_calm (admitEntry_calm ..)
    exact ⟨htake.trans hadmit, by simp [admitRequest, Call.bystander]⟩

/-! ### Every call is such a step -/

/-- A retry loop leaves the core alone. -/
theorem process_core {m m' : Manager} (side : Side) {ks : List Call}
    (h : FrontStep m side.process m' ks) : m' = m := by
  cases side <;> cases h <;> rfl

theorem operateController_callStep {s s' : Sys} {side : Side} {ks : List Call} (hmc : s.McOk)
    (h : s.operateController side = .ok (s', ks)) :
    CallStep s (.operateController side) s' ks := by
  unfold operateController at h
  cases ho : (s.mc side).operate s.clock with
  | error a =>
      rw [ho] at h
      cases h
  | ok r =>
      obtain ⟨mc, r⟩ := r
      rw [ho] at h
      obtain ⟨hok, hlines, hused⟩ := MemoryController.operate_spec (hmc side) ho
      have hserved : Served s (s.setMc side mc) := .setMc hmc hok hlines
      cases r with
      | none =>
          obtain ⟨rfl, rfl⟩ := ok_pair h
          exact .served ⟨side, .inr rfl⟩ (setMc_dcm ..) hserved
      | some i =>
          obtain ⟨rfl, rfl⟩ := ok_pair h
          have hi := hused i rfl
          refine .finished (setMc_dcm ..) hserved ?_ hi
          rw [← hlines]
          exact PacketQueue.slotAt_line hi

/-- **The system step.** Every executed call is a `CallStep`; only those that
may offer a packet need the end of warm-up. -/
theorem exec_callStep {s s' : Sys} {c : Call} {ks : List Call} (hmc : s.McOk)
    (hwarm : c.offers = true → numCpus ≤ s.allWarmupComplete)
    (hheld : ∀ side i b, c = .processReadDone side i b →
      ((s.mc side).rq.slotAt i).pkt.address ≠ 0)
    (h : s.exec c = .ok (s', ks)) : CallStep s c s' ks := by
  have hf := exec_frontStep h
  have hsame : SameTraffic s s := ⟨fun _ => rfl, fun _ => rfl, rfl, rfl⟩
  cases c with
  | returnData side pkt =>
      obtain ⟨rfl, rfl⟩ := ok_pair h
      have ht := returnData_traffic s side pkt
      exact .core rfl ht.1 ht.2 hf
  | driveState a =>
      obtain ⟨rfl, rfl⟩ := ok_pair h
      exact .drive (driveState_drive hmc (hwarm rfl) a)
  | completeRequest a lat =>
      have ht : SameTraffic s (s.completeRequest a lat).1 ∧
          ∀ k ∈ (s.completeRequest a lat).2, k.bystander = false := by
        unfold completeRequest
        split
        · exact ⟨hsame, by simp⟩
        · exact ⟨completeEntry_traffic .., by simp [completeEntry, Call.bystander]⟩
      obtain ⟨rfl, rfl⟩ := ok_pair h
      exact .core rfl ht.1 ht.2 hf
  | promoteFromCRB i =>
      obtain ⟨rfl, rfl⟩ := ok_pair h
      have ht := promoteFromCRB_traffic s i
      exact .core rfl ht.1 ht.2 hf
  | flagConflict a i =>
      obtain ⟨rfl, rfl⟩ := ok_pair h
      have ht : SameTraffic s (s.onDcm (·.flagConflict a i)) := .of_calm (flagConflict_calm ..)
      exact .core rfl ht (by simp) hf
  | backgroundFill rid i pkt =>
      obtain ⟨rfl, rfl⟩ := ok_pair h
      have hks : (s.backgroundFill rid i pkt).2 = [] := dispatchToNear_write_calls ..
      rw [hks]
      refine .fill ?_ (backgroundFill_dispatched hmc (hwarm rfl) rid i pkt)
      rw [backgroundFill, dispatchToNear_core]
      rfl
  | forwardDone side =>
      obtain ⟨rfl, rfl⟩ := ok_pair h
      exact .served ⟨side, .inl rfl⟩ (setMc_dcm ..) (.setMc hmc (MemoryController.forwardDone_ok (hmc side)) rfl)
  | popFar =>
      obtain ⟨rfl, rfl⟩ := ok_pair h
      refine CallStep.popped .far rfl (fun _ => onDcm_mc ..) ?_ (fun x hx => ?_) rfl
      · simp [popFar, Manager.pending]
      · cases x with
        | near => rfl
        | far => exact absurd rfl hx
  | popNear =>
      obtain ⟨rfl, rfl⟩ := ok_pair h
      refine CallStep.popped .near rfl (fun _ => onDcm_mc ..) ?_ (fun x hx => ?_) rfl
      · simp [popNear, Manager.pending]
      · cases x with
        | near => exact absurd rfl hx
        | far => rfl
  | processReadDone side i b =>
      dsimp only [exec] at h
      cases hp : (s.mc side).processReadDone i b with
      | error a =>
          rw [hp] at h
          cases h
      | ok mc =>
          rw [hp] at h
          obtain ⟨rfl, rfl⟩ := ok_pair h
          obtain ⟨hok, hlines⟩ :=
            MemoryController.processReadDone_spec (hmc side) (hheld side i b rfl) hp
          refine .readDone (setMc_dcm ..) (hmc.setMc hok) ?_ fun x hx => setMc_mc_ne s hx mc
          rw [setMc_mc_self, hlines]
  | processPendingFarDispatches =>
      obtain ⟨rfl, rfl⟩ := ok_pair h
      have hr := processPendingFarDispatches_released hmc (hwarm rfl)
      have hcore := process_core .far (processPendingFarDispatches_frontStep s)
      exact CallStep.released .far hcore hr
  | drainWB =>
      obtain ⟨rfl, rfl⟩ := ok_pair h
      rcases drainWB_cases hmc (hwarm rfl) with ⟨ht, hcore⟩ | ⟨front, rest, hwb, hcore, hd, hlink⟩
      · exact .kept hcore ht
      · exact .drained hwb hcore hd hlink
  | processPendingNearDispatches =>
      obtain ⟨rfl, rfl⟩ := ok_pair h
      have hr := processPendingNearDispatches_released hmc (hwarm rfl)
      have hcore := process_core .near (processPendingNearDispatches_frontStep s)
      exact CallStep.released .near hcore hr
  | operateController side =>
      exact operateController_callStep hmc h
  | processPendingResponses =>
      obtain ⟨rfl, rfl⟩ := ok_pair h
      exact .core rfl (.of_calm (processPendingResponses_calm ..)) (by simp) hf
  | recordOccupancySamples =>
      obtain ⟨rfl, rfl⟩ := ok_pair h
      exact .core rfl (.of_calm (.of_fields rfl rfl rfl)) (by simp) hf

/-- A call of the system is a call of the front end. -/
theorem CallStep.front {s s' : Sys} {c : Call} {ks : List Call} (h : CallStep s c s' ks) :
    FrontStep s.dcm.core c s'.dcm.core ks := by
  have hstill : s'.dcm.core = s.dcm.core → c.bystander → (∀ k ∈ ks, k.bystander) →
      (∀ side pkt, c ≠ .returnData side pkt) → FrontStep s.dcm.core c s'.dcm.core ks := by
    intro hcore hc hks hr
    rw [hcore]
    exact .quiet hc hks hr
  cases h with
  | core _ _ _ hf => exact hf
  | drive hd =>
      cases hd with
      | idle h => exact .driveIdle h
      | readNear now hl hs hcore hd => exact hcore ▸ .readNear now hl hs hd.bystander
      | readFar now hl hs hcore hd => exact hcore ▸ .readFar now hl hs hd.bystander
      | writeNear now hl hs hcore hd => exact hcore ▸ .writeNear now hl hs
  | fill hcore => exact hcore ▸ .fill (by simp)
  | kept hcore => exact hstill hcore rfl (by simp) (by simp)
  | drained hwb hcore => exact hcore ▸ .drained hwb
  | released side hcore hr =>
      refine hstill hcore side.process_bystander (fun k hk => ?_) (by cases side <;> simp [Side.process])
      cases hr with
      | kept => cases hk
      | sent _ _ hsent =>
          rcases List.mem_append.mp hk with hk | hk
          · exact hsent.bystander k hk
          · rw [List.mem_singleton.mp hk]
            exact side.pop_bystander
  | popped side hcore =>
      exact hstill hcore side.pop_bystander (by simp [Side.process_bystander])
        (by cases side <;> simp [Side.pop])
  | served hc hdcm =>
      obtain ⟨side, rfl | rfl⟩ := hc <;> exact hstill (by rw [hdcm]) rfl (by simp) (by simp)
  | finished hdcm =>
      exact hstill (by rw [hdcm]) rfl (by simp [Call.bystander]) (by simp)
  | readDone hdcm => exact hstill (by rw [hdcm]) rfl (by simp) (by simp)

end Sys

/-! ## The invariant of the traffic -/

namespace Sys

/-- The pending packets of a side a hook leaves there. -/
def live (h : Option Call) (s : Sys) (side : Side) : List (Packet × Bool) :=
  if h = some side.pop then (s.dcm.pending side).tail else s.dcm.pending side

theorem live_readDone (s : Sys) (sd x : Side) (i b : Nat) :
    s.live (some (.processReadDone sd i b)) x = s.dcm.pending x := by cases x <;> rfl

/-- Queues stay in order; what is pending and what is queued stays. -/
structure Grows (s s' : Sys) : Prop where
  mcOk : s'.McOk
  pending : ∀ x, s.dcm.pending x ≠ [] → s'.dcm.pending x ≠ []
  line : ∀ x i, ((s.mc x).rq.slotAt i).pkt.address ≠ 0 →
    ((s'.mc x).rq.slotAt i).pkt.address ≠ 0

theorem SameTraffic.grows {s s' : Sys} (h : SameTraffic s s') (hmc : s.McOk) : Grows s s' where
  mcOk := h.mcOk hmc
  pending x := by
    rw [h.pending]
    exact id
  line x i := by
    rw [h.mc]
    exact id

/-- A line that is put into a free slot covers no other. -/
theorem line_set {q q' : PacketQueue} {j a : Nat} (h0 : q.lines[j]? = some 0)
    (hlines : q'.lines = q.lines.set j a) {i : Nat} (hi : (q.slotAt i).pkt.address ≠ 0) :
    i ≠ j ∧ (q'.slotAt i).pkt.address ≠ 0 := by
  have hne : i ≠ j := by
    rintro rfl
    rw [PacketQueue.slotAt_address, h0] at hi
    exact hi rfl
  refine ⟨hne, ?_⟩
  rw [PacketQueue.slotAt_address, hlines, List.getElem?_set_ne hne.symm,
    ← PacketQueue.slotAt_address]
  exact hi

section Grows

variable {s s' : Sys} {side : Side} {pkt : Packet} {w ok : Bool} {ks : List Call} (hmc : s.McOk)

include hmc

theorem Sent.grows (h : Sent s side pkt w s' ok ks)
    (hpend : ∀ x, s'.dcm.pending x = s.dcm.pending x) : Grows s s' := by
  have hp : ∀ x, s.dcm.pending x ≠ [] → s'.dcm.pending x ≠ [] := fun x => by
    rw [hpend]
    exact id
  cases h with
  | refused hsame _ =>
      exact ⟨fun x => hsame x ▸ hmc x, hp, fun x i => by rw [hsame]; exact id⟩
  | wrote hw _ _ =>
      exact ⟨fun x => (hw x).1, hp, fun x i => by rw [(hw x).2]; exact id⟩
  | inserted hok hother _ h0 hlines _ _ =>
      refine ⟨hok, hp, fun x i hi => ?_⟩
      by_cases hx : x = side
      · subst hx
        exact (line_set h0 hlines hi).2
      · rw [hother x hx]
        exact hi
  | forwarded hsame _ _ =>
      exact ⟨fun x => hsame x ▸ hmc x, hp, fun x i => by rw [hsame]; exact id⟩

theorem Dispatched.grows (h : Dispatched s side pkt w s' ks) : Grows s s' := by
  cases h with
  | sent h _ hpend => exact h.grows hmc hpend
  | queued hsame hpend hother _ =>
      refine ⟨fun x => hsame x ▸ hmc x, fun x hx => ?_, fun x i => by rw [hsame]; exact id⟩
      by_cases hs : x = side
      · rw [hs, hpend]
        simp
      · rw [hother x hs]
        exact hx

omit hmc in
theorem Sent.calls_rank (h : Sent s side pkt w s' ok ks) : ∀ k ∈ ks, k.rank = 1 := by
  cases h with
  | forwarded =>
      intro k hk
      simp only [callbacks, List.mem_append, List.mem_singleton] at hk
      rcases hk with (hk | hk) | rfl
      · split at hk <;> simp_all [Call.rank]
      · split at hk <;> simp_all [Call.rank]
      · rfl
  | _ => simp

omit hmc in
theorem Dispatched.calls_rank (h : Dispatched s side pkt w s' ks) : ∀ k ∈ ks, k.rank = 1 := by
  cases h with
  | sent h => exact h.calls_rank
  | queued => simp

theorem Drive.grows {a : Nat} (h : Drive s a s' ks) : Grows s s' := by
  cases h with
  | idle => exact ⟨hmc, fun _ => id, fun _ _ => id⟩
  | readNear _ _ _ _ hd => exact hd.grows hmc
  | readFar _ _ _ _ hd => exact hd.grows hmc
  | writeNear _ _ _ _ hd => exact hd.grows hmc

omit hmc in
theorem Drive.calls_rank {a : Nat} (h : Drive s a s' ks) : ∀ k ∈ ks, k.rank = 1 := by
  cases h with
  | idle => simp
  | readNear _ _ _ _ hd => exact hd.calls_rank
  | readFar _ _ _ _ hd => exact hd.calls_rank
  | writeNear => simp [Call.rank]

omit hmc in
theorem Served.grows (h : Served s s') (hdcm : s'.dcm = s.dcm) : Grows s s' where
  mcOk x := (h x).1
  pending x := by
    rw [hdcm]
    exact id
  line x i hi := by
    rw [PacketQueue.slotAt_address_congr (h x).2]
    exact hi

end Grows

/-- The controllers' queues are in order, the work list is stacked, and
what its hook will take is there. -/
structure Poised (K : List Call) (s : Sys) : Prop where
  mcOk : s.McOk
  stacked : Stacked K
  pop : ∀ side, hook K = some side.pop → s.dcm.pending side ≠ []
  held : ∀ side i b, hook K = some (.processReadDone side i b) →
    ((s.mc side).rq.slotAt i).pkt.address ≠ 0

namespace Poised

variable {s s' : Sys} {c : Call} {K ks : List Call}

/-- Calls of rank 1 replace one that is no hook. -/
theorem grow {L : List Call} (h : Poised (c :: K) s) (hg : Grows s s') (hc : c.rank ≠ 2)
    (hks : ∀ k ∈ L, k.rank = 1) : Poised (L ++ K) s' := by
  have hhook : hook (L ++ K) = hook (c :: K) := hook_replaced hks hc
  refine ⟨hg.mcOk, h.stacked.tail.append hks, fun side hs => ?_, fun side i b hs => ?_⟩
  · rw [hhook] at hs
    exact hg.pending side (h.pop side hs)
  · rw [hhook] at hs
    exact hg.line side i (h.held side i b hs)

theorem step (h : Poised (c :: K) s) (hstep : CallStep s c s' ks) : Poised (ks ++ K) s' := by
  cases hstep with
  | core hc ht hks hf =>
      exact h.grow (ht.grows h.mcOk) (Call.rank_of_not_dispatches hc) fun k hk =>
        Call.rank_of_not_bystander (hks k hk)
  | drive hd => exact h.grow (hd.grows h.mcOk) (by simp [Call.rank]) hd.calls_rank
  | fill _ hd => exact h.grow (hd.grows h.mcOk) (by simp [Call.rank]) (by simp)
  | kept _ ht => exact h.grow (ht.grows h.mcOk) (by simp [Call.rank]) (by simp)
  | drained _ _ hd _ => exact h.grow (hd.grows h.mcOk) (by simp [Call.rank]) (by simp)
  | @released side _ _ _ hr =>
      cases hr with
      | kept hmc hpend hsends =>
          refine h.grow (L := []) ⟨fun x => hmc x ▸ h.mcOk x, fun x => ?_, fun x i => ?_⟩ (by simp)
            (by simp)
          · rw [hpend]
            exact id
          · rw [hmc]
            exact id
      | @sent _ _ _ ks hfront hpend hsent =>
          have hg := hsent.grows h.mcOk hpend
          have hphase := h.stacked.rest (by simp)
          have hhook : hook (ks ++ [side.pop] ++ K) = some side.pop :=
            hook_pushed hsent.calls_rank side.pop_rank
          refine ⟨hg.mcOk, ?_, fun x hx => ?_, fun x i b hx => ?_⟩
          · rw [List.append_assoc]
            exact (h.stacked.tail.cons_hook hphase).append hsent.calls_rank
          · rw [hhook] at hx
            obtain rfl := Side.pop_inj (Option.some.inj hx)
            rw [hpend, hfront]
            simp
          · rw [hhook] at hx
            cases side <;> cases hx
  | @popped side _ _ hmc _ _ _ =>
      have hphase := h.stacked.rest (by simp)
      have hhook : hook ([side.process] ++ K) = none := h.stacked.hook_phase (by simp) (by simp)
      refine ⟨fun x => hmc x ▸ h.mcOk x, h.stacked.tail.cons_hook hphase, ?_, ?_⟩ <;>
        rw [hhook] <;> simp
  | served hc hdcm hmc =>
      obtain ⟨side, rfl | rfl⟩ := hc <;>
        exact h.grow (hmc.grows hdcm) (by simp [Call.rank]) (by simp)
  | @finished side _ i b pkt hdcm hmc hline hpkt =>
      have hphase := h.stacked.rest (by simp [Call.rank])
      have hg := hmc.grows hdcm
      refine ⟨hg.mcOk, ?_, fun x hx => ?_, fun x j b' hx => ?_⟩
      · exact (h.stacked.tail.cons_hook hphase).append (L := [_]) (by simp [Call.rank])
      · cases x <;> simp [hook, Call.rank, Side.pop] at hx
      · simp only [hook, Call.rank, List.cons_append, List.nil_append] at hx
        obtain ⟨rfl, rfl, -⟩ : side = x ∧ i = j ∧ b = b' := by simpa using hx
        refine hg.line side i ?_
        rw [PacketQueue.slotAt_address, hline]
        exact hpkt
  | readDone hdcm hmc hlines hother =>
      have hnone := h.stacked.hook_tail (by simp [Call.rank])
      refine ⟨hmc, h.stacked.tail, ?_, ?_⟩ <;> simp [hnone]

end Poised

/-! ## Operations -/

/-- An operation is entered without touching the traffic. -/
structure EnterStep (s : Sys) (op : Op) (s' : Sys) (ks : List Call) : Prop where
  front : FrontEnter s.dcm.core op s'.dcm.core ks
  mc : ∀ x, s'.mc x = s.mc x
  calm : Calm s.dcm s'.dcm

theorem admission_traffic (s : Sys) (pkt : Packet) (w : Bool) :
    (∀ x, (s.admission pkt w).1.mc x = s.mc x) ∧ Calm s.dcm (s.admission pkt w).1.dcm := by
  unfold admission
  split
  · split <;> exact ⟨fun _ => onDcm_mc .., .of_fields rfl rfl rfl⟩
  · split
    · exact ⟨fun _ => onDcm_mc .., .of_fields rfl rfl rfl⟩
    · split
      · exact ⟨fun _ => onDcm_mc .., .of_fields rfl rfl rfl⟩
      · refine ⟨fun _ => by simp only [admitRequest, onDcm_mc], ?_⟩
        exact (emit_calm s.dcm (.accepted w pkt)).trans (admitEntry_calm ..)

theorem enter_enterStep {s : Sys} {op : Op} (hs : s.Live) (hop : op.Roi) :
    EnterStep s op (s.enter op).1 (s.enter op).2 := by
  have hf := enter_frontEnter hs hop
  have hwarm : ¬ s.allWarmupComplete < numCpus := not_lt.mpr hs.warm
  have hbyp : ¬ s.dcm.bypassDcache = true := by simp [hs.noBypass]
  have hset : ∀ f : Manager → Manager, Calm s.dcm (f s.dcm) →
      (∀ x, (s.onDcm f).mc x = s.mc x) ∧ Calm s.dcm (s.onDcm f).dcm :=
    fun f hf => ⟨fun _ => onDcm_mc .., hf⟩
  have ht : (∀ x, (s.enter op).1.mc x = s.mc x) ∧ Calm s.dcm (s.enter op).1.dcm := by
    cases op with
    | addRq pkt =>
        simp only [enter, addRq, if_neg hwarm, if_neg hbyp]
        exact admission_traffic ..
    | addWq pkt =>
        simp only [enter, addWq, if_neg hwarm, if_neg hbyp]
        exact admission_traffic ..
    | operate => exact ⟨fun _ => rfl, .of_fields rfl rfl rfl⟩
    | tick clk => exact ⟨fun x => by cases x <;> rfl, .of_fields rfl rfl rfl⟩
    | setPolicy pol => exact hset _ (.of_fields rfl rfl rfl)
    | setLinkLatency n => exact hset _ (.of_fields rfl rfl rfl)
    | setControllerLatency f b => exact hset _ (.of_fields rfl rfl rfl)
    | setBypassDcache b => exact hset _ (.of_fields rfl rfl rfl)
    | finishWarmup => exact ⟨fun x => by cases x <;> rfl, .of_fields rfl rfl rfl⟩
    | resetROIStats => exact hset _ (.of_fields rfl rfl rfl)
  exact ⟨hf, ht.1, ht.2⟩

theorem FrontEnter.stacked {m m' : Manager} {op : Op} {ks : List Call}
    (h : FrontEnter m op m' ks) : Stacked ks ∧ hook ks = none := by
  cases h with
  | admitted => exact ⟨List.pairwise_singleton .., rfl⟩
  | operate => exact ⟨by simp [Stacked, operateCalls, Call.rank], rfl⟩
  | _ => exact ⟨List.Pairwise.nil, rfl⟩

theorem Poised.enter {s s' : Sys} {op : Op} {ks : List Call} (h : Poised [] s)
    (hstep : EnterStep s op s' ks) : Poised ks s' := by
  obtain ⟨hstacked, hhook⟩ := FrontEnter.stacked hstep.front
  refine ⟨fun x => hstep.mc x ▸ h.mcOk x, hstacked, ?_, ?_⟩ <;> rw [hhook] <;> simp

theorem Poised.fresh {s : Sys} (h : s.Fresh) : Poised [] s := by
  refine ⟨fun x => ?_, List.Pairwise.nil, by simp [hook], by simp [hook]⟩
  cases x with
  | near =>
      obtain ⟨tRP, tRCD, tCAS, dbus, hnew⟩ := h.nearMC
      show s.nearMC.Ok
      rw [hnew]
      exact MemoryController.new_ok ..
  | far =>
      obtain ⟨tRP, tRCD, tCAS, dbus, hnew⟩ := h.farMC
      show s.farMC.Ok
      rw [hnew]
      exact MemoryController.new_ok ..

end Sys

section Rule

open Worklist (ReachesIf)
open Sys (Poised CallStep EnterStep)

variable {allow : Op → Prop} {ok : Worklist.Config Sys Call → Prop} {s₀ : Sys}
  {x : Worklist.Config Sys Call}

theorem Sys.Poised.exec {s s' : Sys} {c : Call} {K ks : List Call} (h : Poised (c :: K) s)
    (hlive : s.Live) (he : s.exec c = .ok (s', ks)) : CallStep s c s' ks := by
  refine Sys.exec_callStep h.mcOk (fun _ => hlive.warm) (fun side i b hc => ?_) he
  subst hc
  exact h.held side i b (hook_cons_self rfl)

/-- Every configuration of a run is poised. -/
theorem poised_of_reaches (hroi : ∀ op, allow op → op.Roi) (h₀ : s₀.Fresh)
    (h : ReachesIf machine allow ok s₀ x) : Poised x.1 x.2 := by
  refine ReachesIf.invariant (P := fun x => Poised x.1 x.2) (.fresh h₀) ?_ ?_ h
  · intro op s ha _ hr hp
    exact hp.enter (Sys.enter_enterStep (live_of_reaches hroi h₀.live hr) (hroi op ha))
  · intro c K s s' ks _ hr hp he
    exact hp.step (hp.exec (live_of_reaches hroi h₀.live hr) he)

/-- **The invariant rule of the system.** What holds at the end of warm-up
and is kept by every `EnterStep` and every `CallStep` of a run holds
throughout. -/
theorem system_invariant (hroi : ∀ op, allow op → op.Roi) (h₀ : s₀.Fresh)
    {P : List Call → Sys → Prop} (hstart : P [] s₀)
    (hEnter : ∀ op s s' ks, allow op → ReachesIf machine allow ok s₀ ([], s) →
      EnterStep s op s' ks → P [] s → P ks s')
    (hCall : ∀ c K s s' ks, ok (c :: K, s) → ReachesIf machine allow ok s₀ (c :: K, s) →
      Poised (c :: K) s → CallStep s c s' ks → P (c :: K) s → P (ks ++ K) s')
    (h : ReachesIf machine allow ok s₀ x) : P x.1 x.2 := by
  refine ReachesIf.invariant (P := fun x => P x.1 x.2) hstart ?_ ?_ h
  · intro op s ha _ hr hp
    have hlive := live_of_reaches hroi h₀.live hr
    exact hEnter op s _ _ ha hr (Sys.enter_enterStep hlive (hroi op ha)) hp
  · intro c K s s' ks hok hr hp he
    have hpoised := poised_of_reaches hroi h₀ hr
    have hlive := live_of_reaches hroi h₀.live hr
    exact hCall c K s s' ks hok hr hpoised (hpoised.exec hlive he) hp

end Rule

end DramCache
