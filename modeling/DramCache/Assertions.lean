import DramCache.Banks
import DramCache.Modes
import DramCache.Steps

/-!
# No assertion fails

The manager may be called back between the two halves of a controller's
`process`, and it may add packets to that controller from there. `Braced`
is the invariant that carries a run across: banks and slots of both
controllers are in step, and the slot of the read that is being handed over
is still scheduled when `process` goes on. It needs neither the end of
warm-up nor single-flag reads, so `no_assertion_fails` speaks of every run
from the construction on. `Motion` says what a call does to the traffic in
any mode.
-/

namespace DramCache

namespace MemoryController

/-- The queues are in order, and banks and slots in step. -/
structure Sound (mc : MemoryController) : Prop where
  ok : mc.Ok
  inStep : mc.InStep

/-- A controller that was given a packet: what is scheduled stays. -/
structure Steady (mc mc' : MemoryController) : Prop where
  sound : mc'.Sound
  slot : ∀ i, (mc.rq.slotAt i).scheduled = true → mc'.rq.slotAt i = mc.rq.slotAt i

variable {mc mc' mc'' : MemoryController}

theorem Sound.steady (h : mc.Sound) : Steady mc mc := ⟨h, fun _ _ => rfl⟩

theorem Steady.trans (h : Steady mc mc') (h' : Steady mc' mc'') : Steady mc mc'' := by
  refine ⟨h'.sound, fun i hi => ?_⟩
  have hslot := h.slot i hi
  rw [h'.slot i (by rwa [hslot]), hslot]

theorem new_sound (tRP tRCD tCAS dbus : Nat) : (new tRP tRCD tCAS dbus).Sound :=
  ⟨new_ok .., new_inStep ..⟩

/-- A packet is stored in a slot that is not scheduled. -/
theorem Sound.store (h : mc.Sound) (k : QueueKind) {pkt : Packet}
    (hroom : (mc.queue k).occupancy < (mc.queue k).size)
    (hnone : (mc.queue k).checkDramQueue pkt = none) :
    Steady mc (mc.setQueue k ((mc.queue k).insert pkt)) := by
  obtain ⟨i, -, h0, hok, hstep, hset, -⟩ := store_books h.inStep h.ok k hroom hnone
  refine ⟨⟨hok, hstep⟩, fun j hj => ?_⟩
  have hne : (QueueKind.rq, j) ≠ (k, i) := by
    rintro heq
    obtain ⟨rfl, rfl⟩ := Prod.mk.inj heq
    exact h.ok.rq.toSane.used_of_scheduled hj h0
  exact hset.other hne

theorem addRq_steady (h : mc.Sound) (pkt : Packet) (hroom : mc.rq.occupancy < mc.rq.size) :
    Steady mc (mc.addRq pkt).1 := by
  unfold addRq
  split
  · exact h.steady
  · split
    · exact h.steady
    · rename_i hnone
      exact h.store .rq hroom hnone

theorem addWq_steady (h : mc.Sound) (pkt : Packet) (hroom : mc.wq.occupancy < mc.wq.size) :
    Steady mc (mc.addWq pkt).1 := by
  unfold addWq
  split
  · exact h.steady
  · rename_i hnone
    exact h.store .wq hroom hnone

theorem forwardDone_steady (h : mc.Sound) : Steady mc mc.forwardDone :=
  ⟨⟨forwardDone_ok h.ok, (forwardDone_books h.inStep).1⟩, fun _ _ => rfl⟩

end MemoryController

namespace Sys

/-- Both controllers are. -/
def Sound (s : Sys) : Prop := ∀ x, (s.mc x).Sound

/-- What a pending call counts on is still there. -/
structure Endures (s s' : Sys) : Prop where
  mc : ∀ x, (s.mc x).Steady (s'.mc x)
  pending : ∀ x, s.dcm.pending x ≠ [] → s'.dcm.pending x ≠ []

variable {s s' s'' : Sys}

theorem Endures.sound (h : Endures s s') : s'.Sound := fun x => (h.mc x).sound

theorem Endures.trans (h : Endures s s') (h' : Endures s' s'') : Endures s s'' :=
  ⟨fun x => (h.mc x).trans (h'.mc x), fun x hx => h'.pending x (h.pending x hx)⟩

/-- The controllers stand still, and so does what is pending. -/
theorem Sound.endures (h : s.Sound) (hmc : ∀ x, s'.mc x = s.mc x)
    (hpend : ∀ x, s'.dcm.pending x = s.dcm.pending x) : Endures s s' := by
  refine ⟨fun x => ?_, fun x => ?_⟩
  · rw [hmc]
    exact (h x).steady
  · rw [hpend]
    exact id

/-- One controller is replaced. -/
theorem Sound.setMc (h : s.Sound) {side : Side} {mc : MemoryController}
    (hmc : (s.mc side).Steady mc) : Endures s (s.setMc side mc) := by
  refine ⟨fun x => ?_, fun x => ?_⟩
  · by_cases hx : x = side
    · subst hx
      rw [setMc_mc_self]
      exact hmc
    · rw [setMc_mc_ne s hx]
      exact (h x).steady
  · rw [setMc_dcm]
    exact id

theorem Sound.setMc_sound (h : s.Sound) {side : Side} {mc : MemoryController}
    (hmc : mc.Sound) : (s.setMc side mc).Sound := by
  intro x
  by_cases hx : x = side
  · subst hx
    rw [setMc_mc_self]
    exact hmc
  · rw [setMc_mc_ne s hx]
    exact h x

/-! ## Offering a packet, in any mode -/

/-- The calls a read that is answered at once leaves: two callbacks at
most. -/
def Answers (side : Side) (ks : List Call) : Prop :=
  ∃ pkt, ks.Sublist (callbacks side pkt ++ [.forwardDone side])

theorem Answers.nil (side : Side) : Answers side [] := ⟨{}, List.nil_sublist _⟩

theorem Answers.rank {side : Side} {ks : List Call} (h : Answers side ks) :
    ∀ k ∈ ks, k.rank = 1 := by
  obtain ⟨pkt, hsub⟩ := h
  intro k hk
  have hmem := hsub.subset hk
  simp only [callbacks, List.mem_append, List.mem_singleton] at hmem
  rcases hmem with (hk | hk) | rfl
  · split at hk <;> simp_all [Call.rank]
  · split at hk <;> simp_all [Call.rank]
  · rfl

theorem controllerAddRq_answers (s : Sys) (side : Side) (pkt : Packet) :
    Answers side (s.controllerAddRq side pkt).2.2 := by
  unfold controllerAddRq
  split
  · exact ⟨pkt, List.sublist_append_left ..⟩
  · split
    · exact ⟨pkt, List.Sublist.refl _⟩
    · exact .nil side

theorem trySend_answers (s : Sys) (side : Side) (pkt : Packet) (w : Bool) :
    Answers side (s.trySend side pkt w).2.2 := by
  unfold trySend
  split
  · exact .nil side
  · cases w
    · dsimp only [sendRead]
      split
      · exact .nil side
      · exact controllerAddRq_answers ..
    · exact .nil side

theorem controllerAddRq_endures (h : s.Sound) (side : Side) (pkt : Packet)
    (hroom : (s.mc side).rq.occupancy < (s.mc side).rq.size) :
    Endures s (s.controllerAddRq side pkt).1 := by
  have hadd := MemoryController.addRq_steady (h side) pkt hroom
  unfold controllerAddRq
  split
  · exact h.endures (fun _ => rfl) fun _ => rfl
  · split
    · rename_i mc i heq
      rw [heq] at hadd
      exact h.setMc hadd
    · rename_i mc o _ heq
      rw [heq] at hadd
      exact h.setMc hadd

theorem controllerAddWq_endures (h : s.Sound) (side : Side) (pkt : Packet)
    (hroom : (s.mc side).wq.occupancy < (s.mc side).wq.size) :
    Endures s (s.controllerAddWq side pkt).1 := by
  unfold controllerAddWq
  split
  · exact h.endures (fun _ => rfl) fun _ => rfl
  · exact h.setMc (MemoryController.addWq_steady (h side) pkt hroom)

theorem trySend_endures (h : s.Sound) (side : Side) (pkt : Packet) (w : Bool) :
    Endures s (s.trySend side pkt w).1 := by
  unfold trySend
  split
  · exact h.endures (fun _ => rfl) fun _ => rfl
  · rename_i hroom
    have hroom := noRoom_eq_false (Bool.eq_false_iff.mpr hroom)
    cases w with
    | true =>
        have hadd := controllerAddWq_endures h side { pkt with eventCycle := s.now pkt.cpu } hroom
        refine hadd.trans (hadd.sound.endures (fun x => ?_) fun x => ?_)
        · simp only [sendWrite, onDcm_mc]
        · cases x <;> rfl
    | false =>
        have hadd := controllerAddRq_endures h side { pkt with eventCycle := s.now pkt.cpu } hroom
        refine hadd.trans (hadd.sound.endures (fun x => ?_) fun x => ?_)
        · dsimp only [sendRead]
          split <;> simp only [onDcm_mc]
        · dsimp only [sendRead]
          split <;> cases x <;> rfl

/-- What handing a packet over comes to: the controller has it, or it is
pending. -/
inductive Handed (s : Sys) (side : Side) : Sys → List Call → Prop
  | sent {s' : Sys} {ks : List Call} (h : Endures s s')
      (hpend : ∀ x, s'.dcm.pending x = s.dcm.pending x) (hks : Answers side ks) :
      Handed s side s' ks
  | queued {s' : Sys} {d : Packet × Bool} (h : Endures s s')
      (hpend : s'.dcm.pending side = s.dcm.pending side ++ [d])
      (hother : ∀ x, x ≠ side → s'.dcm.pending x = s.dcm.pending x) : Handed s side s' []

theorem Handed.endures {side : Side} {ks : List Call} (h : Handed s side s' ks) :
    Endures s s' := by
  cases h with
  | sent h => exact h
  | queued h => exact h

theorem Handed.rank {side : Side} {ks : List Call} (h : Handed s side s' ks) :
    ∀ k ∈ ks, k.rank = 1 := by
  cases h with
  | sent _ _ hks => exact hks.rank
  | queued => simp

/-- One packet more is pending. -/
theorem Endures.queue {side : Side} {d : Packet × Bool} (h : Endures s s')
    (hsame : ∀ x, s'.dcm.pending x = s.dcm.pending x) (hmc : ∀ x, s''.mc x = s'.mc x)
    (hpend : s''.dcm.pending side = s'.dcm.pending side ++ [d])
    (hother : ∀ x, x ≠ side → s''.dcm.pending x = s'.dcm.pending x) :
    Handed s side s'' [] := by
  refine .queued (h.trans ⟨fun x => ?_, fun x hx => ?_⟩) (hpend.trans (by rw [hsame]))
    fun x hx => (hother x hx).trans (hsame x)
  · rw [hmc]
    exact (h.sound x).steady
  · by_cases hs : x = side
    · subst hs
      rw [hpend]
      simp
    · rw [hother x hs]
      exact hx

theorem dispatchToNear_handed (h : s.Sound) (pkt : Packet) (w : Bool) :
    Handed s .near (s.dispatchToNear pkt w).1 (s.dispatchToNear pkt w).2 := by
  have hqueue : ∀ s' : Sys, Endures s s' → (∀ x, s'.dcm.pending x = s.dcm.pending x) →
      Handed s .near (s'.queueNear pkt w) [] := by
    intro s' hs' hsame
    refine hs'.queue hsame (d := (pkt, w)) (fun _ => onDcm_mc ..) ?_ fun x hx => ?_
    · simp [queueNear, Manager.pending]
    · cases x with
      | near => exact absurd rfl hx
      | far => rfl
  have hsent := trySend_endures h .near pkt w
  have hpend := trySend_pending s .near pkt w
  have hks := trySend_answers s .near pkt w
  unfold dispatchToNear
  split
  · generalize s.trySend .near pkt w = r at hsent hpend hks
    obtain ⟨s', ok, ks⟩ := r
    cases ok with
    | true => exact .sent hsent hpend hks
    | false => exact hqueue s' hsent hpend
  · exact hqueue s (h.endures (fun _ => rfl) fun _ => rfl) fun _ => rfl

/-- What `dispatchToFar` does when it returns true. -/
theorem dispatchToFar_handed (h : s.Sound) (pkt : Packet) (w : Bool) :
    Handed s .far (s.dispatchToFar pkt w).1 (s.dispatchToFar pkt w).2.2 ∧
      ((s.dispatchToFar pkt w).2.1 = false →
        ∀ x, (s.dispatchToFar pkt w).1.dcm.pending x = s.dcm.pending x) := by
  unfold dispatchToFar
  split
  · exact ⟨.sent (trySend_endures h ..) (trySend_pending s .far pkt w) (trySend_answers ..),
      fun _ => trySend_pending s .far pkt w⟩
  · refine ⟨(h.endures (fun _ => rfl) fun _ => rfl).queue (fun _ => rfl) (d := (pkt, w))
      (fun _ => onDcm_mc ..) ?_ fun x hx => ?_, fun h => Bool.noConfusion h⟩
    · simp [Manager.pending]
    · cases x with
      | near => rfl
      | far => exact absurd rfl hx

theorem dispatchToFarGuaranteed_handed (h : s.Sound) (pkt : Packet) (w : Bool) :
    Handed s .far (s.dispatchToFarGuaranteed pkt w).1 (s.dispatchToFarGuaranteed pkt w).2 := by
  obtain ⟨hd, hpend⟩ := dispatchToFar_handed h pkt w
  unfold dispatchToFarGuaranteed
  generalize s.dispatchToFar pkt w = r at hd hpend
  obtain ⟨s', ok, ks⟩ := r
  cases ok with
  | true => exact hd
  | false =>
      refine hd.endures.queue (hpend rfl) (d := (pkt, w)) (fun _ => onDcm_mc ..) ?_ fun x hx => ?_
      · simp [Manager.pending]
      · cases x with
        | near => rfl
        | far => exact absurd rfl hx

/-! ## What a call does to the traffic, in any mode -/

/-- What the core does beside it is in `FrontStep`. -/
inductive Motion (s : Sys) : Call → Sys → List Call → Prop
  | still {c : Call} {s' : Sys} {ks : List Call} (hc : c.rank ≠ 2) (h : Endures s s')
      (hpend : ∀ x, s'.dcm.pending x = s.dcm.pending x) (hks : ∀ k ∈ ks, k.bystander = false) :
      Motion s c s' ks
  | handed {c : Call} {side : Side} {s' : Sys} {ks ks' : List Call} (hc : c.rank ≠ 2)
      (hd : c.dispatches = true) (h : Handed s side s' ks) (hks' : ∀ k ∈ ks', k.bystander = false) :
      Motion s c s' (ks ++ ks')
  | released (side : Side) {s' : Sys} {ks : List Call} (hne : s.dcm.pending side ≠ [])
      (h : Endures s s') (hpend : ∀ x, s'.dcm.pending x = s.dcm.pending x)
      (hks : Answers side ks) : Motion s side.process s' (ks ++ [side.pop])
  | popped (side : Side) {s' : Sys} (hmc : ∀ x, s'.mc x = s.mc x)
      (hpend : s'.dcm.pending side = (s.dcm.pending side).tail)
      (hother : ∀ x, x ≠ side → s'.dcm.pending x = s.dcm.pending x) :
      Motion s side.pop s' [side.process]
  | operated {side : Side} {s' : Sys} (h : s'.Sound) (hdcm : s'.dcm = s.dcm) :
      Motion s (.operateController side) s' []
  | finished {side : Side} {i b : Nat} {pkt : Packet} {s' : Sys} (h : s'.Sound)
      (hdcm : s'.dcm = s.dcm) (hi : ((s'.mc side).rq.slotAt i).scheduled = true)
      (hb : dramGetBank ((s'.mc side).rq.slotAt i).pkt.address = b) :
      Motion s (.operateController side) s' [.returnData side pkt, .processReadDone side i b]
  | readDone {side : Side} {i b : Nat} {s' : Sys} (h : s'.Sound) (hdcm : s'.dcm = s.dcm) :
      Motion s (.processReadDone side i b) s' []

theorem Handed.congr {s₀ : Sys} {side : Side} {ks : List Call} (h : s.Sound)
    (hs : SameTraffic s s₀) (hd : Handed s₀ side s' ks) : Handed s side s' ks := by
  have hsame : Endures s s₀ := h.endures hs.mc hs.pending
  cases hd with
  | sent h hpend hks =>
      exact .sent (hsame.trans h) (fun x => (hpend x).trans (hs.pending x)) hks
  | queued h hpend hother =>
      rw [hs.pending] at hpend
      exact .queued (hsame.trans h) hpend fun x hx => (hother x hx).trans (hs.pending x)

/-- A call that only works on the core. -/
theorem Sound.still (h : s.Sound) {c : Call} {ks : List Call} (hc : c.rank ≠ 2)
    (ht : SameTraffic s s') (hks : ∀ k ∈ ks, k.bystander = false) : Motion s c s' ks :=
  .still hc (h.endures ht.mc ht.pending) ht.pending hks

theorem driveState_motion (h : s.Sound) (a : Nat) :
    Motion s (.driveState a) (s.driveState a).1 (s.driveState a).2 := by
  have hstay : Motion s (.driveState a) s [] :=
    h.still (by simp [Call.rank]) ⟨fun _ => rfl, fun _ => rfl, rfl, rfl⟩ (by simp)
  have hhand : ∀ (side : Side) (f : Manager → Manager) (s' : Sys) (ks ks' : List Call),
      Calm s.dcm (f s.dcm) → ((s.onDcm f).Sound → Handed (s.onDcm f) side s' ks) →
      (∀ k ∈ ks', k.bystander = false) → Motion s (.driveState a) s' (ks ++ ks') := by
    intro side f s' ks ks' hf hd hks'
    have hs : SameTraffic s (s.onDcm f) := .of_calm hf
    have hsound : (s.onDcm f).Sound := (h.endures hs.mc hs.pending).sound
    exact .handed (by simp [Call.rank]) rfl (Handed.congr h hs (hd hsound)) hks'
  unfold driveState
  split
  · exact hstay
  · rename_i e _
    split
    · rw [← List.append_nil (dispatchToNear _ _ _).2]
      exact hhand .near _ _ _ [] (.of_fields rfl rfl rfl) (fun h => dispatchToNear_handed h ..)
        (by simp)
    · rw [← List.append_nil (dispatchToFarGuaranteed _ _ _).2]
      exact hhand .far _ _ _ [] (.of_fields rfl rfl rfl)
        (fun h => dispatchToFarGuaranteed_handed h ..) (by simp)
    · exact hhand .near _ _ _ [.completeRequest a 0] (.of_fields rfl rfl rfl)
        (fun h => dispatchToNear_handed h ..) (by simp [Call.bystander])
    · exact hstay

theorem backgroundFill_motion (h : s.Sound) (rid i : Nat) (pkt : Packet) :
    Motion s (.backgroundFill rid i pkt) (s.backgroundFill rid i pkt).1
      (s.backgroundFill rid i pkt).2 := by
  have hs : SameTraffic s (s.onDcm (·.fillNear rid i pkt)) := .of_calm (.of_fields rfl rfl rfl)
  have hsound : (s.onDcm (·.fillNear rid i pkt)).Sound := (h.endures hs.mc hs.pending).sound
  rw [← List.append_nil (s.backgroundFill rid i pkt).2]
  exact .handed (by simp [Call.rank]) rfl (Handed.congr h hs (dispatchToNear_handed hsound ..))
    (by simp)

theorem drainWB_motion (h : s.Sound) : Motion s .drainWB s.drainWB [] := by
  unfold drainWB
  split
  · exact h.still (by simp [Call.rank]) ⟨fun _ => rfl, fun _ => rfl, rfl, rfl⟩ (by simp)
  · rename_i front _ _
    obtain ⟨hd, hpend⟩ := dispatchToFar_handed h front.pkt true
    generalize s.dispatchToFar front.pkt true = r at hd hpend
    obtain ⟨s', ok, ks⟩ := r
    have hafter : ∀ f : Manager → Manager, Calm s'.dcm (f s'.dcm) →
        Handed s .far (s'.onDcm f) [] := by
      intro f hf
      have hs : SameTraffic s' (s'.onDcm f) := .of_calm hf
      have hend := hd.endures.trans (hd.endures.sound.endures hs.mc hs.pending)
      cases hd with
      | sent _ hpend => exact .sent hend (fun x => (hs.pending x).trans (hpend x)) (.nil _)
      | queued _ hpend hother =>
          exact .queued hend ((hs.pending _).trans hpend) fun x hx =>
            (hs.pending x).trans (hother x hx)
    have hhanded : ∀ {s'' : Sys}, Handed s .far s'' [] → Motion s .drainWB s'' ([] ++ []) :=
      fun hh => .handed (by simp [Call.rank]) rfl hh (by simp)
    cases ok with
    | true => exact hhanded (hafter (·.drained front) (.of_fields rfl rfl rfl))
    | false => exact hhanded (hafter _ (.of_fields rfl rfl rfl))

/-- A retry loop that releases nothing. -/
theorem Endures.idle (h : Endures s s') (hpend : ∀ x, s'.dcm.pending x = s.dcm.pending x)
    (side : Side) : Motion s side.process s' [] := .still (by simp) h hpend (by simp)

theorem processPendingNearDispatches_motion (h : s.Sound) : Motion s Side.near.process
    s.processPendingNearDispatches.1 s.processPendingNearDispatches.2 := by
  unfold processPendingNearDispatches
  split
  · exact (h.endures (fun _ => rfl) fun _ => rfl).idle (fun _ => rfl) .near
  · rename_i d rest hd
    have hsent := trySend_endures h .near d.pkt d.isWrite
    have hpend := trySend_pending s .near d.pkt d.isWrite
    have hks := trySend_answers s .near d.pkt d.isWrite
    generalize s.trySend .near d.pkt d.isWrite = r at hsent hpend hks
    obtain ⟨s', ok, ks⟩ := r
    cases ok with
    | true => exact .released .near (by simp [Manager.pending, hd]) hsent hpend hks
    | false => exact hsent.idle hpend .near

theorem processPendingFarDispatches_motion (h : s.Sound) : Motion s Side.far.process
    s.processPendingFarDispatches.1 s.processPendingFarDispatches.2 := by
  unfold processPendingFarDispatches
  split
  · exact (h.endures (fun _ => rfl) fun _ => rfl).idle (fun _ => rfl) .far
  · rename_i d rest hd
    split
    · have hsent := trySend_endures h .far d.pkt d.isWrite
      have hpend := trySend_pending s .far d.pkt d.isWrite
      have hks := trySend_answers s .far d.pkt d.isWrite
      generalize s.trySend .far d.pkt d.isWrite = r at hsent hpend hks
      obtain ⟨s', ok, ks⟩ := r
      cases ok with
      | true => exact .released .far (by simp [Manager.pending, hd]) hsent hpend hks
      | false =>
          have hs : ∀ f, SameTraffic s' (s'.onDcm (·.count f)) :=
            fun _ => .of_calm (.of_fields rfl rfl rfl)
          exact (hsent.trans (hsent.sound.endures (hs _).mc (hs _).pending)).idle
            (fun x => ((hs _).pending x).trans (hpend x)) .far
    · exact (h.endures (fun _ => rfl) fun _ => rfl).idle (fun _ => rfl) .far

theorem operateController_motion (h : s.Sound) (side : Side) : ∃ s' ks,
    s.exec (.operateController side) = .ok (s', ks) ∧
      Motion s (.operateController side) s' ks := by
  obtain ⟨⟨mc, r⟩, ho, hstep, htr⟩ :=
    MemoryController.operate_books (h side).inStep (h side).ok s.clock
  have hsound : (s.setMc side mc).Sound :=
    h.setMc_sound ⟨(MemoryController.operate_spec (h side).ok ho).1, hstep⟩
  dsimp only [exec, operateController]
  rw [ho]
  cases r with
  | none => exact ⟨_, _, rfl, .operated hsound (setMc_dcm ..)⟩
  | some i =>
      have hi : (mc.rq.slotAt i).scheduled = true := by
        generalize (s.mc side).transfer s.clock = t at htr
        cases htr with
        | handed _ hs _ => exact hs
      rw [← setMc_mc_self s side mc] at hi
      refine ⟨_, _, rfl, .finished hsound (setMc_dcm ..) hi ?_⟩
      rw [setMc_mc_self]

theorem processReadDone_motion (h : s.Sound) {side : Side} {i b : Nat}
    (hi : ((s.mc side).rq.slotAt i).scheduled = true)
    (hb : dramGetBank ((s.mc side).rq.slotAt i).pkt.address = b) : ∃ s' ks,
    s.exec (.processReadDone side i b) = .ok (s', ks) ∧
      Motion s (.processReadDone side i b) s' ks := by
  obtain ⟨mc, hdone, hstep, -⟩ :=
    MemoryController.processReadDone_books (h side).inStep (h side).ok hi hb
  have hok := (MemoryController.processReadDone_spec (h side).ok
    ((h side).ok.rq.toSane.used_of_scheduled hi) hdone).1
  dsimp only [exec]
  rw [hdone]
  exact ⟨_, _, rfl, .readDone (h.setMc_sound ⟨hok, hstep⟩) (setMc_dcm ..)⟩

/-- **Every call is executed**, given the slot `process` left a read in. -/
theorem exec_motion (h : s.Sound) {c : Call}
    (hheld : ∀ side i b, c = .processReadDone side i b →
      ((s.mc side).rq.slotAt i).scheduled = true ∧
        dramGetBank ((s.mc side).rq.slotAt i).pkt.address = b) :
    ∃ s' ks, s.exec c = .ok (s', ks) ∧ Motion s c s' ks := by
  have hsame : SameTraffic s s := ⟨fun _ => rfl, fun _ => rfl, rfl, rfl⟩
  cases c with
  | returnData side pkt =>
      obtain ⟨ht, hks⟩ := returnData_traffic s side pkt
      exact ⟨_, _, rfl, h.still (by simp [Call.rank]) ht hks⟩
  | driveState a => exact ⟨_, _, rfl, driveState_motion h a⟩
  | completeRequest a lat =>
      refine ⟨(s.completeRequest a lat).1, (s.completeRequest a lat).2, rfl, ?_⟩
      unfold completeRequest
      split
      · exact h.still (by simp [Call.rank]) hsame (by simp)
      · exact h.still (by simp [Call.rank]) (completeEntry_traffic ..)
          (by simp [completeEntry, Call.bystander])
  | promoteFromCRB i =>
      obtain ⟨ht, hks⟩ := promoteFromCRB_traffic s i
      exact ⟨_, _, rfl, h.still (by simp [Call.rank]) ht hks⟩
  | flagConflict a i =>
      exact ⟨_, _, rfl, h.still (by simp [Call.rank]) (.of_calm (flagConflict_calm ..)) (by simp)⟩
  | backgroundFill rid i pkt => exact ⟨_, _, rfl, backgroundFill_motion h rid i pkt⟩
  | forwardDone side =>
      refine ⟨_, _, rfl, .still (by simp [Call.rank])
        (h.setMc (MemoryController.forwardDone_steady (h side))) (fun x => ?_) (by simp)⟩
      rw [setMc_dcm]
  | popFar =>
      refine ⟨_, _, rfl, .popped .far (fun _ => onDcm_mc ..) ?_ fun x hx => ?_⟩
      · simp [popFar, Manager.pending]
      · cases x with
        | near => rfl
        | far => exact absurd rfl hx
  | popNear =>
      refine ⟨_, _, rfl, .popped .near (fun _ => onDcm_mc ..) ?_ fun x hx => ?_⟩
      · simp [popNear, Manager.pending]
      · cases x with
        | near => exact absurd rfl hx
        | far => rfl
  | processReadDone side i b =>
      obtain ⟨hi, hb⟩ := hheld side i b rfl
      exact processReadDone_motion h hi hb
  | processPendingFarDispatches => exact ⟨_, _, rfl, processPendingFarDispatches_motion h⟩
  | drainWB => exact ⟨_, _, rfl, drainWB_motion h⟩
  | processPendingNearDispatches => exact ⟨_, _, rfl, processPendingNearDispatches_motion h⟩
  | operateController side => exact operateController_motion h side
  | processPendingResponses =>
      exact ⟨_, _, rfl, h.still (by simp [Call.rank])
        (.of_calm (processPendingResponses_calm ..)) (by simp)⟩
  | recordOccupancySamples =>
      exact ⟨_, _, rfl, h.still (by simp [Call.rank]) (.of_calm (.of_fields rfl rfl rfl)) (by simp)⟩

/-! ## What a run keeps -/

/-- The controllers are sound, the work list is stacked, and what its hook
will take is there. -/
structure Braced (K : List Call) (s : Sys) : Prop where
  sound : s.Sound
  stacked : Stacked K
  pop : ∀ side, hook K = some side.pop → s.dcm.pending side ≠ []
  held : ∀ side i b, hook K = some (.processReadDone side i b) →
    ((s.mc side).rq.slotAt i).scheduled = true ∧
      dramGetBank ((s.mc side).rq.slotAt i).pkt.address = b

namespace Braced

variable {c : Call} {K ks : List Call}

/-- Calls of rank 1 replace one that is no hook. -/
theorem grow {L : List Call} (h : Braced (c :: K) s) (he : Endures s s') (hc : c.rank ≠ 2)
    (hL : ∀ k ∈ L, k.rank = 1) : Braced (L ++ K) s' := by
  have hhook : hook (L ++ K) = hook (c :: K) := hook_replaced hL hc
  refine ⟨he.sound, h.stacked.tail.append hL, fun side hs => ?_, fun side i b hs => ?_⟩
  · rw [hhook] at hs
    exact he.pending side (h.pop side hs)
  · rw [hhook] at hs
    obtain ⟨hi, hb⟩ := h.held side i b hs
    rw [(he.mc side).slot i hi]
    exact ⟨hi, hb⟩

/-- Behind a hook or a step of `operate` nothing is counted on. -/
theorem bare (h : Braced (c :: K) s) (hs : s'.Sound) (hc : c.rank ≠ 1) : Braced K s' := by
  have hnone := h.stacked.hook_tail hc
  refine ⟨hs, h.stacked.tail, ?_, ?_⟩ <;> simp [hnone]

theorem step (h : Braced (c :: K) s) (hm : Motion s c s' ks) : Braced (ks ++ K) s' := by
  cases hm with
  | still hc he _ hks => exact h.grow he hc fun k hk => Call.rank_of_not_bystander (hks k hk)
  | handed hc _ hh hks' =>
      refine h.grow hh.endures hc fun k hk => ?_
      rcases List.mem_append.mp hk with hk | hk
      · exact hh.rank k hk
      · exact Call.rank_of_not_bystander (hks' k hk)
  | @released side _ ks hne he hpend hks =>
      have hphase := h.stacked.rest (by simp)
      have hhook : hook (ks ++ [side.pop] ++ K) = some side.pop :=
        hook_pushed hks.rank side.pop_rank
      refine ⟨he.sound, ?_, fun x hx => ?_, fun x i b hx => ?_⟩
      · rw [List.append_assoc]
        exact (h.stacked.tail.cons_hook hphase).append hks.rank
      · rw [hhook] at hx
        obtain rfl := Side.pop_inj (Option.some.inj hx)
        rw [hpend]
        exact hne
      · rw [hhook] at hx
        cases side <;> cases hx
  | @popped side _ hmc _ _ =>
      have hphase := h.stacked.rest (by simp)
      have hhook : hook ([side.process] ++ K) = none := h.stacked.hook_phase (by simp) (by simp)
      refine ⟨fun x => hmc x ▸ h.sound x, h.stacked.tail.cons_hook hphase, ?_, ?_⟩ <;>
        rw [hhook] <;> simp
  | operated hs _ => exact h.bare hs (by simp [Call.rank])
  | @finished side i b pkt _ hs hdcm hi hb =>
      have hphase := h.stacked.rest (by simp [Call.rank])
      refine ⟨hs, ?_, fun x hx => ?_, fun x j b' hx => ?_⟩
      · exact (h.stacked.tail.cons_hook hphase).append (L := [_]) (by simp [Call.rank])
      · cases x <;> simp [hook, Call.rank, Side.pop] at hx
      · simp only [hook, Call.rank, List.cons_append, List.nil_append] at hx
        obtain ⟨rfl, rfl, rfl⟩ : side = x ∧ i = j ∧ b = b' := by simpa using hx
        exact ⟨hi, hb⟩
  | readDone hs _ => exact h.bare hs (by simp [Call.rank])

/-- The next call is executed. -/
theorem exec (h : Braced (c :: K) s) :
    ∃ s' ks, s.exec c = .ok (s', ks) ∧ Motion s c s' ks ∧ Braced (ks ++ K) s' := by
  obtain ⟨s', ks, he, hm⟩ := exec_motion h.sound (c := c) fun side i b hc => by
    subst hc
    exact h.held side i b (hook_cons_self rfl)
  exact ⟨s', ks, he, hm, h.step hm⟩

end Braced

/-! ## Operations -/

/-- Rank-1 calls over a call boundary. -/
theorem Endures.braced {ks : List Call} (h : Endures s s') (hks : ∀ k ∈ ks, k.rank = 1) :
    Braced ks s' := by
  have hhook : hook ks = none := by
    have happ := hook_append (L := ks) (K := []) fun k hk => by rw [hks k hk]; decide
    rwa [List.append_nil] at happ
  have hstacked : Stacked ks := by
    have happ := Stacked.append (L := ks) (K := []) hks List.Pairwise.nil
    rwa [List.append_nil] at happ
  refine ⟨h.sound, hstacked, ?_, ?_⟩ <;> rw [hhook] <;> simp

theorem admission_braced (h : s.Sound) (pkt : Packet) (w : Bool) :
    Braced (s.admission pkt w).2.2 (s.admission pkt w).1 := by
  obtain ⟨hmc, hcalm⟩ := admission_traffic s pkt w
  refine (h.endures hmc hcalm.1).braced fun k hk => ?_
  unfold admission at hk
  split at hk
  · split at hk <;> cases hk
  · split at hk
    · cases hk
    · split at hk
      · cases hk
      · rw [List.mem_singleton.mp hk]
        rfl

/-- A packet that goes round the cache. -/
theorem bypassed_braced (h : s.Sound) {f : Manager → Manager} (hf : Calm s.dcm (f s.dcm))
    (pkt : Packet) (w : Bool) : Braced ((s.onDcm f).dispatchToFarGuaranteed pkt w).2
      ((s.onDcm f).dispatchToFarGuaranteed pkt w).1 := by
  have hs : SameTraffic s (s.onDcm f) := .of_calm hf
  have hh := dispatchToFarGuaranteed_handed (h.endures hs.mc hs.pending).sound pkt w
  exact hh.endures.braced hh.rank

/-- An operation that does not come near the controllers. -/
theorem Sound.rest (h : s.Sound) (hmc : ∀ x, s'.mc x = s.mc x) (hcalm : Calm s.dcm s'.dcm) :
    Braced [] s' := (h.endures hmc hcalm.1).braced (by simp)

theorem enter_braced (h : s.Sound) (op : Op) : Braced (s.enter op).2 (s.enter op).1 := by
  have htag : ∀ pkt w, Calm s.dcm (s.dcm.warmupTagUpdate pkt w) := fun _ _ =>
    .of_fields rfl rfl rfl
  have hclock : ∀ s' : Sys, s'.nearMC = s.nearMC → s'.farMC = s.farMC → ∀ x, s'.mc x = s.mc x := by
    intro s' hn hf x
    cases x
    · exact hn
    · exact hf
  cases op with
  | addRq pkt =>
      simp only [enter, addRq]
      split
      · split
        · exact h.rest (fun _ => rfl) ((htag pkt false).trans (.of_fields rfl rfl rfl))
        · exact h.rest (fun _ => rfl) (.of_fields rfl rfl rfl)
      · split
        · exact bypassed_braced h (.of_fields rfl rfl rfl) ..
        · exact admission_braced h pkt false
  | addWq pkt =>
      simp only [enter, addWq]
      split
      · split
        · exact h.rest (fun _ => rfl) (htag pkt true)
        · exact h.rest (fun _ => rfl) (.of_fields rfl rfl rfl)
      · split
        · exact bypassed_braced h (.of_fields rfl rfl rfl) ..
        · exact admission_braced h pkt true
  | operate =>
      refine ⟨h, by simp [enter, Stacked, operateCalls, Call.rank], ?_, ?_⟩ <;>
        simp [enter, hook, operateCalls, Call.rank]
  | tick clk => exact h.rest (hclock _ rfl rfl) (.of_fields rfl rfl rfl)
  | finishWarmup => exact h.rest (hclock _ rfl rfl) (.of_fields rfl rfl rfl)
  | setPolicy pol => exact h.rest (hclock _ rfl rfl) (.of_fields rfl rfl rfl)
  | setLinkLatency n => exact h.rest (hclock _ rfl rfl) (.of_fields rfl rfl rfl)
  | setControllerLatency f b => exact h.rest (hclock _ rfl rfl) (.of_fields rfl rfl rfl)
  | setBypassDcache b => exact h.rest (hclock _ rfl rfl) (.of_fields rfl rfl rfl)
  | resetROIStats => exact h.rest (hclock _ rfl rfl) (.of_fields rfl rfl rfl)

end Sys

open Worklist (ReachesIf Reaches)

section Boot

variable {allow : Op → Prop} {ok : Worklist.Config Sys Call → Prop} {near far : MemoryController}
  {clk : Clock} {frontend backend : Nat} {x : Worklist.Config Sys Call}

/-- Every configuration of every run is braced. -/
theorem braced_of_boot (hnear : near.Sound) (hfar : far.Sound)
    (h : ReachesIf machine allow ok (.boot near far clk frontend backend) x) :
    Sys.Braced x.1 x.2 := by
  refine ReachesIf.invariant (P := fun x => Sys.Braced x.1 x.2) ?_ ?_ ?_ h
  · refine ⟨fun x => ?_, List.Pairwise.nil, by simp [hook], by simp [hook]⟩
    cases x
    · exact hnear
    · exact hfar
  · intro op s _ _ _ hb
    exact Sys.enter_braced hb.sound op
  · intro c K s s' ks _ _ hb he
    obtain ⟨s₁, ks₁, he₁, -, hb₁⟩ := hb.exec
    obtain ⟨rfl, rfl⟩ := Prod.mk.inj (Except.ok.inj (he.symm.trans he₁))
    exact hb₁

/-- **No assertion fails**, in any mode: every call that is waiting is
executed. -/
theorem no_assertion_fails (hnear : near.Sound) (hfar : far.Sound) {c : Call} {K : List Call}
    {s : Sys} (h : ReachesIf machine allow ok (.boot near far clk frontend backend) (c :: K, s)) :
    ∃ r, machine.exec c s = .ok r := by
  obtain ⟨s', ks, he, -⟩ := (braced_of_boot hnear hfar h).exec
  exact ⟨(s', ks), he⟩

end Boot

end DramCache
