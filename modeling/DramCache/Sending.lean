import DramCache.Queues
import DramCache.FrontEnd

/-!
# Sending

What offering a packet to a controller can come to. `Sent` lists the cases
of `trySend` when the controllers' queues are in order; on it rest the
accounts of `dispatchToNear` and `dispatchToFarGuaranteed`. With room in a
queue nothing is ever dropped, and the one read that leaves a callback
behind is the one a write queue answers.
-/

namespace DramCache

/-- The controller took the packet: it stands in a queue or was answered.
A write that finds its line queued coalesces; a read that does was not
enqueued. -/
def Send.accepted (x : Send) : Bool :=
  match x.outcome with
  | .inserted => true
  | .merged _ => x.isWrite
  | .forwarded _ => !x.isWrite
  | .dropped | .preWarmup => false

/-! ## Pending dispatches -/

/-- The packets waiting for a controller, oldest first, and whether each is
a write. -/
def Manager.pending (m : Manager) : Side → List (Packet × Bool)
  | .near => m.pendingNearDispatches.map fun d => (d.pkt, d.isWrite)
  | .far => m.pendingFarDispatches.map fun d => (d.pkt, d.isWrite)

namespace Sys

/-- Both controllers' queues are in order. -/
def McOk (s : Sys) : Prop := ∀ side, (s.mc side).Ok

@[simp] theorem onDcm_mc (s : Sys) (f : Manager → Manager) (side : Side) :
    (s.onDcm f).mc side = s.mc side := by
  cases side <;> rfl

@[simp] theorem setMc_mc_self (s : Sys) (side : Side) (mc : MemoryController) :
    (s.setMc side mc).mc side = mc := by
  cases side <;> rfl

theorem setMc_mc_ne (s : Sys) {side side' : Side} (h : side' ≠ side) (mc : MemoryController) :
    (s.setMc side mc).mc side' = s.mc side' := by
  cases side <;> cases side' <;> first | rfl | exact absurd rfl h

theorem setMc_same (s : Sys) (side side' : Side) :
    (s.setMc side (s.mc side)).mc side' = s.mc side' := by
  cases side <;> cases side' <;> rfl

theorem McOk.setMc {s : Sys} (h : s.McOk) {side : Side} {mc : MemoryController} (hmc : mc.Ok) :
    (s.setMc side mc).McOk := by
  intro side'
  by_cases hs : side' = side
  · subst hs
    rw [setMc_mc_self]
    exact hmc
  · rw [setMc_mc_ne s hs]
    exact h side'

/-- The packet `trySend` offers: stamped with the cycle. -/
def stamp (s : Sys) (pkt : Packet) : Packet := { pkt with eventCycle := s.now pkt.cpu }

@[simp] theorem stamp_address (s : Sys) (pkt : Packet) : (s.stamp pkt).address = pkt.address :=
  rfl

/-- Everything `trySend` can do with a packet. -/
inductive Sent (s : Sys) (side : Side) (pkt : Packet) : Bool → Sys → Bool → List Call → Prop
  /-- No room, or a read merged with a queued one. -/
  | refused {isWrite : Bool} {s' : Sys} (hmc : ∀ x, s'.mc x = s.mc x)
      (hsends : s'.dcm.sends = s.dcm.sends ∨ isWrite = false ∧
        ∃ i, s'.dcm.sends = s.dcm.sends ++ [⟨side, s.stamp pkt, false, .merged i⟩]) :
      Sent s side pkt isWrite s' false []
  | wrote {s' : Sys} {o : AddOutcome} (hmc : ∀ x, (s'.mc x).Ok ∧ (s'.mc x).rq = (s.mc x).rq)
      (hsends : s'.dcm.sends = s.dcm.sends ++ [⟨side, s.stamp pkt, true, o⟩])
      (ho : (Send.mk side (s.stamp pkt) true o).accepted = true) : Sent s side pkt true s' true []
  | inserted {s' : Sys} {i : Nat} (hmc : ∀ x, (s'.mc x).Ok)
      (hother : ∀ x, x ≠ side → s'.mc x = s.mc x)
      (hpkt : pkt.address ≠ 0) (h0 : (s.mc side).rq.lines[i]? = some 0)
      (hlines : (s'.mc side).rq.lines = (s.mc side).rq.lines.set i pkt.address)
      (hwq : (s.mc side).wq.checkDramQueue pkt = none)
      (hsends : s'.dcm.sends = s.dcm.sends ++ [⟨side, s.stamp pkt, false, .inserted⟩]) :
      Sent s side pkt false s' true []
  | forwarded {s' : Sys} {i : Nat} (hmc : ∀ x, s'.mc x = s.mc x)
      (hwq : (s.mc side).wq.checkDramQueue pkt = some i)
      (hsends : s'.dcm.sends = s.dcm.sends ++ [⟨side, s.stamp pkt, false, .forwarded i⟩]) :
      Sent s side pkt false s' true (callbacks side (s.stamp pkt) ++ [.forwardDone side])

/-- A refused packet changes no controller and calls nobody back. -/
theorem Sent.of_refused {s s' : Sys} {side : Side} {pkt : Packet} {w : Bool} {ks : List Call}
    (h : Sent s side pkt w s' false ks) : (∀ x, s'.mc x = s.mc x) ∧
      (s'.dcm.sends = s.dcm.sends ∨ w = false ∧
        ∃ i, s'.dcm.sends = s.dcm.sends ++ [⟨side, s.stamp pkt, false, .merged i⟩]) ∧
      ks = [] := by
  cases h with
  | refused hmc hsends => exact ⟨hmc, hsends, rfl⟩

theorem noRoom_eq_false {s : Sys} {side : Side} {isWrite : Bool}
    (h : s.noRoom side isWrite = false) :
    ((s.mc side).queue (if isWrite then .wq else .rq)).occupancy
      < ((s.mc side).queue (if isWrite then .wq else .rq)).size := by
  cases isWrite <;> exact not_le.mp (of_decide_eq_false h)

theorem sendWrite_sent {s : Sys} (hmc : s.McOk) (hwarm : numCpus ≤ s.allWarmupComplete)
    {side : Side} {pkt : Packet}
    (hroom : (s.mc side).wq.occupancy < (s.mc side).wq.size) :
    Sent s side pkt true (s.sendWrite side (s.stamp pkt)).1
      (s.sendWrite side (s.stamp pkt)).2.1 (s.sendWrite side (s.stamp pkt)).2.2 := by
  have hpre : ¬ s.allWarmupComplete < numCpus := not_lt.mpr hwarm
  rcases MemoryController.addWq_spec (hmc side) (s.stamp pkt) hroom with
    ⟨i, heq⟩ | ⟨mc', heq, hok, hrq⟩
  · simp only [sendWrite, controllerAddWq, if_neg hpre, heq]
    refine .wrote (o := .merged i) (fun x => ?_) ?_ rfl
    · rw [onDcm_mc, setMc_same]
      exact ⟨hmc x, rfl⟩
    · simp [Manager.noteSend]
  · simp only [sendWrite, controllerAddWq, if_neg hpre, heq]
    refine .wrote (o := .inserted) (fun x => ⟨?_, ?_⟩) ?_ rfl
    · rw [onDcm_mc]
      exact hmc.setMc hok x
    · rw [onDcm_mc]
      by_cases hx : x = side
      · subst hx
        rw [setMc_mc_self, hrq]
      · rw [setMc_mc_ne s hx]
    · simp [Manager.noteSend]

theorem sendRead_sent {s : Sys} (hmc : s.McOk) (hwarm : numCpus ≤ s.allWarmupComplete)
    {side : Side} {pkt : Packet}
    (hroom : (s.mc side).rq.occupancy < (s.mc side).rq.size) :
    Sent s side pkt false (s.sendRead side (s.stamp pkt)).1
      (s.sendRead side (s.stamp pkt)).2.1 (s.sendRead side (s.stamp pkt)).2.2 := by
  have hpre : ¬ s.allWarmupComplete < numCpus := not_lt.mpr hwarm
  rcases MemoryController.addRq_spec (hmc side) (s.stamp pkt) hroom with
    ⟨i, heq, hwq⟩ | ⟨i, heq⟩ | ⟨mc', heq, hok, -, hwq, hpkt, i, h0, hlines⟩
  · have hneg : ¬ (AddOutcome.forwarded i).returnValue ≥ 0 := by simp [AddOutcome.returnValue]
    simp only [sendRead, controllerAddRq, if_neg hpre, heq, if_neg hneg]
    refine .forwarded (fun x => ?_) hwq ?_
    · rw [onDcm_mc, setMc_same]
    · simp [Manager.noteSend]
  · have hpos : (AddOutcome.merged i).returnValue ≥ 0 := by simp [AddOutcome.returnValue]
    simp only [sendRead, controllerAddRq, if_neg hpre, heq, if_pos hpos]
    refine .refused (fun x => ?_) (.inr ⟨rfl, i, ?_⟩)
    · rw [onDcm_mc, onDcm_mc, setMc_same]
    · simp [Manager.noteSend, Manager.count]
  · have hneg : ¬ AddOutcome.inserted.returnValue ≥ 0 := by simp [AddOutcome.returnValue]
    simp only [sendRead, controllerAddRq, if_neg hpre, heq, if_neg hneg]
    refine .inserted (fun x => ?_) (fun x hx => ?_) hpkt h0 ?_ hwq ?_
    · rw [onDcm_mc]
      exact hmc.setMc hok x
    · rw [onDcm_mc, setMc_mc_ne s hx]
    · rw [onDcm_mc, setMc_mc_self]
      exact hlines
    · simp [Manager.noteSend]

theorem trySend_sent {s : Sys} (hmc : s.McOk) (hwarm : numCpus ≤ s.allWarmupComplete)
    (side : Side) (pkt : Packet) (isWrite : Bool) :
    Sent s side pkt isWrite (s.trySend side pkt isWrite).1 (s.trySend side pkt isWrite).2.1
      (s.trySend side pkt isWrite).2.2 := by
  unfold trySend
  split
  · exact .refused (fun _ => rfl) (.inl rfl)
  · rename_i hroom
    have hroom := noRoom_eq_false (Bool.eq_false_iff.mpr hroom)
    cases isWrite with
    | true => exact sendWrite_sent hmc hwarm hroom
    | false => exact sendRead_sent hmc hwarm hroom

/-- Offering a packet leaves the pending dispatches alone. -/
theorem trySend_pending (s : Sys) (side : Side) (pkt : Packet) (w : Bool) (x : Side) :
    (s.trySend side pkt w).1.dcm.pending x = s.dcm.pending x := by
  have hw : ∀ pkt, (s.sendWrite side pkt).1.dcm.pending x = s.dcm.pending x := by
    intro pkt
    rw [← controllerAddWq_dcm s side pkt]
    cases x <;> rfl
  have hr : ∀ pkt, (s.sendRead side pkt).1.dcm.pending x = s.dcm.pending x := by
    intro pkt
    rw [← controllerAddRq_dcm s side pkt]
    dsimp only [sendRead]
    cases x <;> split <;> rfl
  unfold trySend
  split
  · rfl
  · cases w
    · exact hr _
    · exact hw _

/-! ## Dispatching -/

/-- A packet may be offered at once: nothing pends before it near, the link
has no latency far. -/
def Direct (s : Sys) : Side → Prop
  | .near => s.dcm.pending .near = []
  | .far => s.dcm.linkLatencyCycles = 0

/-- What `dispatchToNear` and `dispatchToFarGuaranteed` do with a packet:
it is with the controller, or it is pending. -/
inductive Dispatched (s : Sys) (side : Side) (pkt : Packet) (w : Bool) :
    Sys → List Call → Prop
  | sent {s' : Sys} {ks : List Call} (h : Sent s side pkt w s' true ks) (hdirect : s.Direct side)
      (hpend : ∀ x, s'.dcm.pending x = s.dcm.pending x) : Dispatched s side pkt w s' ks
  | queued {s' : Sys} (hmc : ∀ x, s'.mc x = s.mc x)
      (hpend : s'.dcm.pending side = s.dcm.pending side ++ [(pkt, w)])
      (hother : ∀ x, x ≠ side → s'.dcm.pending x = s.dcm.pending x)
      (hsends : s'.dcm.sends = s.dcm.sends ∨ w = false ∧
        ∃ i, s'.dcm.sends = s.dcm.sends ++ [⟨side, s.stamp pkt, false, .merged i⟩]) :
      Dispatched s side pkt w s' []

section Dispatch

variable {s : Sys} (hmc : s.McOk) (hwarm : numCpus ≤ s.allWarmupComplete) (pkt : Packet)
  (w : Bool)

include hmc hwarm

/-- A refused packet goes into the near retry queue. -/
theorem dispatchToNear_dispatched : Dispatched s .near pkt w (s.dispatchToNear pkt w).1
    (s.dispatchToNear pkt w).2 := by
  have hqueue : ∀ s' : Sys, (∀ x, s'.mc x = s.mc x) →
      (∀ x, s'.dcm.pending x = s.dcm.pending x) →
      (s'.dcm.sends = s.dcm.sends ∨ w = false ∧
        ∃ i, s'.dcm.sends = s.dcm.sends ++ [⟨.near, s.stamp pkt, false, .merged i⟩]) →
      Dispatched s .near pkt w (s'.queueNear pkt w) [] := by
    intro s' hmc hpend hsends
    refine .queued (fun x => ?_) ?_ (fun x hx => ?_) hsends
    · rw [queueNear, onDcm_mc, hmc]
    · rw [← hpend]
      simp [queueNear, Manager.pending]
    · cases x with
      | near => exact absurd rfl hx
      | far =>
          rw [← hpend]
          rfl
  have hsent := trySend_sent hmc hwarm .near pkt w
  have hpend := trySend_pending s .near pkt w
  unfold dispatchToNear
  split
  · rename_i hempty
    have hdirect : s.Direct .near :=
      List.map_eq_nil_iff.mpr (List.isEmpty_iff.mp hempty)
    generalize s.trySend .near pkt w = r at hsent hpend
    obtain ⟨s', ok, ks⟩ := r
    cases ok with
    | true => exact .sent hsent hdirect hpend
    | false =>
        cases hsent with
        | refused hmc hsends => exact hqueue s' hmc hpend hsends
  · exact hqueue s (fun _ => rfl) (fun _ => rfl) (.inl rfl)

/-- With link latency every packet is pending first, without it a refused
one. -/
theorem dispatchToFarGuaranteed_dispatched : Dispatched s .far pkt w
    (s.dispatchToFarGuaranteed pkt w).1 (s.dispatchToFarGuaranteed pkt w).2 := by
  have hqueue : ∀ (s' : Sys) (d : PendingFarDispatch), d.pkt = pkt → d.isWrite = w →
      (∀ x, s'.mc x = s.mc x) → (∀ x, s'.dcm.pending x = s.dcm.pending x) →
      (s'.dcm.sends = s.dcm.sends ∨ w = false ∧
        ∃ i, s'.dcm.sends = s.dcm.sends ++ [⟨.far, s.stamp pkt, false, .merged i⟩]) →
      ∀ f : Manager → Manager, (∀ m, (f m).pendingFarDispatches = m.pendingFarDispatches ++ [d])
        → (∀ m, (f m).pendingNearDispatches = m.pendingNearDispatches) →
        (∀ m, (f m).sends = m.sends) → Dispatched s .far pkt w (s'.onDcm f) [] := by
    intro s' d hd hdw hmc hpend hsends f hfar hnear hfs
    refine .queued (fun x => ?_) ?_ (fun x hx => ?_) ?_
    · rw [onDcm_mc, hmc]
    · rw [← hpend]
      simp [Manager.pending, hfar, hd, hdw]
    · cases x with
      | near =>
          rw [← hpend]
          simp [Manager.pending, hnear]
      | far => exact absurd rfl hx
    · rw [onDcm_dcm, hfs]
      exact hsends
  have hsent := trySend_sent hmc hwarm .far pkt w
  have hpend := trySend_pending s .far pkt w
  unfold dispatchToFarGuaranteed dispatchToFar
  by_cases hlink : s.dcm.linkLatencyCycles = 0
  · rw [if_pos hlink]
    generalize s.trySend .far pkt w = r at hsent hpend
    obtain ⟨s', ok, ks⟩ := r
    cases ok with
    | true => exact .sent hsent hlink hpend
    | false =>
        cases hsent with
        | refused hmc hsends =>
            dsimp only
            refine hqueue s' ⟨s'.now pkt.cpu, pkt, w⟩ rfl rfl hmc hpend hsends _ ?_ ?_ ?_ <;>
              exact fun _ => rfl
  · rw [if_neg hlink]
    dsimp only
    refine hqueue s ⟨s.now pkt.cpu + s.dcm.linkLatencyCycles, pkt, w⟩ rfl rfl (fun _ => rfl)
      (fun _ => rfl) (.inl rfl) _ ?_ ?_ ?_ <;> exact fun _ => rfl

end Dispatch

/-! ## Steps and traffic -/

/-- The controllers, the pending dispatches and what was sent stand
still. -/
structure SameTraffic (s s' : Sys) : Prop where
  mc : ∀ x, s'.mc x = s.mc x
  pending : ∀ x, s'.dcm.pending x = s.dcm.pending x
  sends : s'.dcm.sends = s.dcm.sends
  clock : s'.clock = s.clock

theorem SameTraffic.onDcm {s : Sys} {f : Manager → Manager}
    (hpend : ∀ x, (f s.dcm).pending x = s.dcm.pending x)
    (hsends : (f s.dcm).sends = s.dcm.sends) : SameTraffic s (s.onDcm f) :=
  ⟨fun _ => onDcm_mc .., hpend, hsends, rfl⟩

theorem Sent.congr {s s₀ s' : Sys} {side : Side} {pkt : Packet} {w ok : Bool} {ks : List Call}
    (hs : SameTraffic s s₀) (h : Sent s₀ side pkt w s' ok ks) :
    Sent s side pkt w s' ok ks := by
  have hstamp : s₀.stamp pkt = s.stamp pkt := by simp only [stamp, now, hs.clock]
  cases h with
  | refused hmc hsends =>
      rw [hs.sends, hstamp] at hsends
      exact .refused (fun x => (hmc x).trans (hs.mc x)) hsends
  | wrote hmc hsends ho =>
      rw [hs.sends, hstamp] at hsends
      exact .wrote (fun x => ⟨(hmc x).1, (hmc x).2.trans (by rw [hs.mc])⟩) hsends ho
  | inserted hmc hother hpkt h0 hlines hwq hsends =>
      rw [hs.sends, hstamp] at hsends
      rw [hs.mc] at h0 hlines hwq
      exact .inserted hmc (fun x hx => (hother x hx).trans (hs.mc x)) hpkt h0 hlines hwq hsends
  | forwarded hmc hwq hsends =>
      rw [hs.sends, hstamp] at hsends
      rw [hs.mc] at hwq
      rw [hstamp]
      exact .forwarded (fun x => (hmc x).trans (hs.mc x)) hwq hsends

theorem Sent.post {s s' s₁ : Sys} {side : Side} {pkt : Packet} {w ok : Bool} {ks : List Call}
    (h : Sent s side pkt w s' ok ks) (hs : SameTraffic s' s₁) :
    Sent s side pkt w s₁ ok ks := by
  cases h with
  | refused hmc hsends =>
      exact .refused (fun x => (hs.mc x).trans (hmc x)) (by rw [hs.sends]; exact hsends)
  | wrote hmc hsends ho =>
      exact .wrote (fun x => by rw [hs.mc]; exact hmc x) (by rw [hs.sends]; exact hsends) ho
  | inserted hmc hother hpkt h0 hlines hwq hsends =>
      exact .inserted (fun x => by rw [hs.mc]; exact hmc x)
        (fun x hx => (hs.mc x).trans (hother x hx)) hpkt h0 (by rw [hs.mc]; exact hlines) hwq
        (by rw [hs.sends]; exact hsends)
  | forwarded hmc hwq hsends =>
      exact .forwarded (fun x => (hs.mc x).trans (hmc x)) hwq (by rw [hs.sends]; exact hsends)

theorem Dispatched.congr {s s₀ s' : Sys} {side : Side} {pkt : Packet} {w : Bool}
    {ks : List Call} (hs : SameTraffic s s₀)
    (hlink : s₀.dcm.linkLatencyCycles = s.dcm.linkLatencyCycles)
    (h : Dispatched s₀ side pkt w s' ks) : Dispatched s side pkt w s' ks := by
  have hstamp : s₀.stamp pkt = s.stamp pkt := by simp only [stamp, now, hs.clock]
  cases h with
  | sent h hdirect hpend =>
      refine .sent (h.congr hs) ?_ fun x => (hpend x).trans (hs.pending x)
      cases side with
      | near => exact (hs.pending .near).symm.trans hdirect
      | far => exact hlink.symm.trans hdirect
  | queued hmc hpend hother hsends =>
      rw [hs.sends, hstamp] at hsends
      rw [hs.pending] at hpend
      exact .queued (fun x => (hmc x).trans (hs.mc x)) hpend
        (fun x hx => (hother x hx).trans (hs.pending x)) hsends

theorem SameTraffic.mcOk {s s' : Sys} (h : SameTraffic s s') (hmc : s.McOk) : s'.McOk :=
  fun x => h.mc x ▸ hmc x

/-- `driveState`, with what it does to the core and to the traffic. -/
inductive Drive (s : Sys) (a : Nat) : Sys → List Call → Prop
  | idle (h : ∀ e, s.dcm.orb.lookup a = some e → e.state.drivable = false) : Drive s a s []
  | readNear {e : OrbEntry} {s' : Sys} {ks : List Call} (now : Nat)
      (h : s.dcm.orb.lookup a = some e) (hs : e.state = .locMemRead)
      (hcore : s'.dcm.core = s.dcm.core.readNear e now)
      (hd : Dispatched s .near (Manager.subRequest e .load now) false s' ks) : Drive s a s' ks
  | readFar {e : OrbEntry} {s' : Sys} {ks : List Call} (now : Nat)
      (h : s.dcm.orb.lookup a = some e) (hs : e.state = .farMemRead)
      (hcore : s'.dcm.core = s.dcm.core.readFar e now)
      (hd : Dispatched s .far (Manager.subRequest e .load now) false s' ks) : Drive s a s' ks
  | writeNear {e : OrbEntry} {s' : Sys} (now : Nat)
      (h : s.dcm.orb.lookup a = some e) (hs : e.state = .locMemWrite)
      (hcore : s'.dcm.core = s.dcm.core.writeNear e now)
      (hd : Dispatched s .near (Manager.subRequest e .writeback now) true s' []) :
      Drive s a s' [.completeRequest a 0]

theorem driveState_drive {s : Sys} (hmc : s.McOk) (hwarm : numCpus ≤ s.allWarmupComplete)
    (a : Nat) : Drive s a (s.driveState a).1 (s.driveState a).2 := by
  have hsame : ∀ f : Manager → Manager, (∀ x, (f s.dcm).pending x = s.dcm.pending x) →
      (f s.dcm).sends = s.dcm.sends → SameTraffic s (s.onDcm f) := fun _ => .onDcm
  unfold driveState
  split
  · rename_i h
    exact .idle fun e he => by rw [h] at he; cases he
  · rename_i e h
    split
    · rename_i hs
      have hst : SameTraffic s (s.onDcm (·.readNear e (s.now e.pkt.cpu))) :=
        hsame _ (fun x => by cases x <;> rfl) rfl
      refine .readNear (s.now e.pkt.cpu) h hs ?_
        ((dispatchToNear_dispatched (hst.mcOk hmc) hwarm _ false).congr hst rfl)
      rw [dispatchToNear_core]
      rfl
    · rename_i hs
      have hst : SameTraffic s (s.onDcm (·.readFar e (s.now e.pkt.cpu))) :=
        hsame _ (fun x => by cases x <;> rfl) rfl
      refine .readFar (s.now e.pkt.cpu) h hs ?_
        ((dispatchToFarGuaranteed_dispatched (hst.mcOk hmc) hwarm _ false).congr hst rfl)
      rw [dispatchToFarGuaranteed_core]
      rfl
    · rename_i hs
      have hst : SameTraffic s (s.onDcm (·.writeNear e (s.now e.pkt.cpu))) :=
        hsame _ (fun x => by cases x <;> rfl) rfl
      have hd := (dispatchToNear_dispatched (hst.mcOk hmc) hwarm
        (Manager.subRequest e .writeback (s.now e.pkt.cpu)) true).congr hst rfl
      rw [dispatchToNear_write_calls] at hd
      have step := Drive.writeNear (s.now e.pkt.cpu) h hs (by
        rw [dispatchToNear_core]
        rfl) hd
      dsimp only
      rw [dispatchToNear_write_calls]
      exact step
    · rename_i h1 h2 h3
      refine .idle fun e' he' => ?_
      obtain rfl : e = e' := by simpa [h] using he'
      cases hst : e.state <;> simp_all [ReqState.drivable]

theorem backgroundFill_dispatched {s : Sys} (hmc : s.McOk)
    (hwarm : numCpus ≤ s.allWarmupComplete) (rid i : Nat) (pkt : Packet) :
    Dispatched s .near pkt true (s.backgroundFill rid i pkt).1 [] := by
  have hst : SameTraffic s (s.onDcm (·.fillNear rid i pkt)) :=
    .onDcm (fun x => by cases x <;> rfl) rfl
  have hd := (dispatchToNear_dispatched (hst.mcOk hmc) hwarm pkt true).congr hst rfl
  rw [dispatchToNear_write_calls] at hd
  exact hd

/-- What is done with the front of a pending queue. -/
inductive Released (s : Sys) (side : Side) (pop : Call) : Sys → List Call → Prop
  | kept {s' : Sys} (hmc : ∀ x, s'.mc x = s.mc x)
      (hpend : ∀ x, s'.dcm.pending x = s.dcm.pending x)
      (hsends : s'.dcm.sends = s.dcm.sends ∨
        ∃ pkt i, s'.dcm.sends = s.dcm.sends ++ [⟨side, pkt, false, .merged i⟩]) :
      Released s side pop s' []
  | sent {s' : Sys} {pkt : Packet} {w : Bool} {rest : List (Packet × Bool)} {ks : List Call}
      (hfront : s.dcm.pending side = (pkt, w) :: rest)
      (hpend : ∀ x, s'.dcm.pending x = s.dcm.pending x) (h : Sent s side pkt w s' true ks) :
      Released s side pop s' (ks ++ [pop])

theorem processPendingNearDispatches_released {s : Sys} (hmc : s.McOk)
    (hwarm : numCpus ≤ s.allWarmupComplete) : Released s .near .popNear
      s.processPendingNearDispatches.1 s.processPendingNearDispatches.2 := by
  unfold processPendingNearDispatches
  split
  · exact .kept (fun _ => rfl) (fun _ => rfl) (.inl rfl)
  · rename_i d rest hd
    have hfront : s.dcm.pending .near = (d.pkt, d.isWrite) :: rest.map fun d =>
        (d.pkt, d.isWrite) := by simp [Manager.pending, hd]
    have hsent := trySend_sent hmc hwarm .near d.pkt d.isWrite
    have hpend := trySend_pending s .near d.pkt d.isWrite
    generalize s.trySend .near d.pkt d.isWrite = r at hsent hpend
    obtain ⟨s', ok, ks⟩ := r
    cases ok with
    | true => exact .sent hfront hpend hsent
    | false =>
        obtain ⟨hmc, hsends, -⟩ := hsent.of_refused
        exact .kept hmc hpend (hsends.imp_right fun ⟨_, i, h⟩ => ⟨_, i, h⟩)

theorem processPendingFarDispatches_released {s : Sys} (hmc : s.McOk)
    (hwarm : numCpus ≤ s.allWarmupComplete) : Released s .far .popFar
      s.processPendingFarDispatches.1 s.processPendingFarDispatches.2 := by
  unfold processPendingFarDispatches
  split
  · exact .kept (fun _ => rfl) (fun _ => rfl) (.inl rfl)
  · rename_i d rest hd
    split
    · have hfront : s.dcm.pending .far = (d.pkt, d.isWrite) :: rest.map fun d =>
          (d.pkt, d.isWrite) := by simp [Manager.pending, hd]
      have hsent := trySend_sent hmc hwarm .far d.pkt d.isWrite
      have hpend := trySend_pending s .far d.pkt d.isWrite
      generalize s.trySend .far d.pkt d.isWrite = r at hsent hpend
      obtain ⟨s', ok, ks⟩ := r
      cases ok with
      | true => exact .sent hfront hpend hsent
      | false =>
          obtain ⟨hmc, hsends, -⟩ := hsent.of_refused
          refine .kept (fun x => ?_) (fun x => ?_) ?_
          · rw [onDcm_mc, hmc]
          · rw [← hpend]
            cases x <;> rfl
          · exact hsends.imp_right fun ⟨_, i, h⟩ => ⟨_, i, h⟩
    · exact .kept (fun _ => rfl) (fun _ => rfl) (.inl rfl)

theorem drainWB_front {s : Sys} {front : WbEntry} {rest : List WbEntry}
    (hwb : s.dcm.wb = front :: rest) :
    s.drainWB = match s.dispatchToFar front.pkt true with
      | (s, false, _) => s.onDcm (·.count fun st =>
          { st with wbDispatchRetries := st.wbDispatchRetries + 1 })
      | (s, true, _) => s.onDcm (·.drained front) := by
  unfold drainWB
  exact hwb ▸ rfl

/-- `drainWB`: nothing happens, or the front is handed over. -/
theorem drainWB_cases {s : Sys} (hmc : s.McOk) (hwarm : numCpus ≤ s.allWarmupComplete) :
    SameTraffic s s.drainWB ∧ s.drainWB.dcm.core = s.dcm.core ∨
    ∃ front rest, s.dcm.wb = front :: rest ∧
      s.drainWB.dcm.core = s.dcm.core.drained front ∧
      Dispatched s .far front.pkt true s.drainWB [] ∧
      (s.dcm.linkLatencyCycles = 0 → ∀ x, s.drainWB.dcm.pending x = s.dcm.pending x) := by
  have hclock : s.drainWB.clock = s.clock := congrArg Prod.fst (drainWB_env s)
  have hdrained : ∀ {s' : Sys} (front : WbEntry),
      SameTraffic s' (s'.onDcm (·.drained front)) := fun _ =>
    .onDcm (fun x => by cases x <;> rfl) rfl
  cases hwb : s.dcm.wb with
  | nil =>
      have heq : s.drainWB = s := by simp [drainWB, hwb]
      rw [heq]
      exact .inl ⟨⟨fun _ => rfl, fun _ => rfl, rfl, rfl⟩, rfl⟩
  | cons front rest =>
      have hcore := dispatchToFar_core s front.pkt true
      have hstep := drainWB_front hwb
      unfold dispatchToFar at hcore hstep
      by_cases hlink : s.dcm.linkLatencyCycles = 0
      · rw [if_pos hlink] at hcore hstep
        have hsent := trySend_sent hmc hwarm .far front.pkt true
        have hpend := trySend_pending s .far front.pkt true
        have hks := trySend_write_calls s .far front.pkt
        generalize s.trySend .far front.pkt true = r at hsent hpend hcore hks hstep
        obtain ⟨s', ok, ks⟩ := r
        obtain rfl : ks = [] := hks
        cases ok with
        | false =>
            obtain ⟨hmc', hsends, -⟩ := hsent.of_refused
            refine .inl ⟨⟨fun x => ?_, fun x => ?_, ?_, hclock⟩, ?_⟩
            · rw [hstep, onDcm_mc, hmc']
            · rw [hstep, ← hpend]
              cases x <;> rfl
            · rw [hstep]
              exact hsends.resolve_right fun h => Bool.noConfusion h.1
            · rw [hstep]
              exact hcore
        | true =>
            have hpend' : ∀ x, s.drainWB.dcm.pending x = s.dcm.pending x := fun x => by
              rw [hstep]
              exact ((hdrained front).pending x).trans (hpend x)
            refine .inr ⟨front, rest, rfl, ?_, .sent ?_ hlink hpend', fun _ => hpend'⟩
            · rw [hstep]
              exact congrArg (·.drained front) hcore
            · rw [hstep]
              exact hsent.post (hdrained front)
      · rw [if_neg hlink] at hcore hstep
        refine .inr ⟨front, rest, rfl, ?_, ?_, fun h0 => absurd h0 hlink⟩
        · rw [hstep]
          exact congrArg (·.drained front) hcore
        · rw [hstep]
          refine .queued (fun x => ?_) ?_ (fun x hx => ?_) (.inl rfl)
          · rw [onDcm_mc, onDcm_mc]
          · simp [Manager.pending, Manager.drained, Manager.emit, Manager.count]
          · cases x with
            | near => rfl
            | far => exact absurd rfl hx

end Sys

end DramCache
