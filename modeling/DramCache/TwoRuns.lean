import Mathlib.Algebra.Order.Group.Multiset
import Mathlib.Tactic.Abel
import DramCache.Erasure
import DramCache.Sending

/-!
# Statistics and response latency decide nothing

The counters, the two controller latencies and the responses on their way
are written and never asked: everything the manager does is blind to them
(`machine_blind`). So two runs that differ in the latencies, and in when the
counters are reset, go in lockstep, and what has been delivered and what is
still to be is together the same (`two_runs`).
-/

namespace DramCache

open Worklist (Erasure Performs)

/-! ## What is blanked -/

/-- What the upper level is handed, and at which port. -/
def Event.delivery? : Event → Option (Port × Packet)
  | .upcall _ port pkt _ => some (port, pkt)
  | _ => none

def deliveries (log : List Event) : List (Port × Packet) := log.filterMap Event.delivery?

@[simp] theorem deliveries_append (l₁ l₂ : List Event) :
    deliveries (l₁ ++ l₂) = deliveries l₁ ++ deliveries l₂ := List.filterMap_append ..

/-- The history without the deliveries. -/
def undelivered (log : List Event) : List Event := log.filter fun ev => ev.delivery?.isNone

@[simp] theorem undelivered_append (l₁ l₂ : List Event) :
    undelivered (l₁ ++ l₂) = undelivered l₁ ++ undelivered l₂ := List.filter_append ..

@[simp] theorem undelivered_undelivered (l : List Event) :
    undelivered (undelivered l) = undelivered l := by simp [undelivered]

@[simp] theorem deliveries_undelivered (l : List Event) : deliveries (undelivered l) = [] := by
  refine List.filterMap_eq_nil_iff.mpr fun ev hev => ?_
  exact Option.isNone_iff_eq_none.mp (List.mem_filter.mp hev).2

@[simp] theorem undelivered_upcalls (why : Upcall) (pkt : Packet) (now : Nat) :
    undelivered (Manager.upcalls why pkt now) = [] := by
  refine List.filter_eq_nil_iff.mpr fun ev hev => ?_
  obtain ⟨port, rfl⟩ := Manager.mem_upcalls hev
  simp [Event.delivery?]

/-- What a response is to deliver. -/
def handovers (pkt : Packet) : List (Port × Packet) :=
  (if pkt.instruction then [(.icache, pkt)] else []) ++ if pkt.isData then [(.dcache, pkt)] else []

@[simp] theorem deliveries_upcalls (why : Upcall) (pkt : Packet) (now : Nat) :
    deliveries (Manager.upcalls why pkt now) = handovers pkt := by
  unfold Manager.upcalls handovers
  cases pkt.instruction <;> cases pkt.isData <;> rfl

namespace Manager

/-- The manager without its counters, its controller latencies and the
responses. -/
def quiet (m : Manager) : Manager :=
  { m with
    frontendLatencyCycles := 0, backendLatencyCycles := 0, stats := {}, pendingResponses := [],
    log := undelivered m.log }

/-- What has been delivered to the upper level, or is to be. -/
def responses (m : Manager) : Multiset (Port × Packet) :=
  ↑(deliveries m.log) + ↑(m.pendingResponses.flatMap fun r => handovers r.pkt)

end Manager

namespace Sys

/-- The system without what decides nothing, and the responses as the
account of it. -/
def blanked : Erasure Sys (Multiset (Port × Packet)) where
  erase s := s.onDcm Manager.quiet
  account s := s.dcm.responses
  erase_erase s := by simp [onDcm, Manager.quiet]
  account_erase s := by simp [onDcm, Manager.quiet, Manager.responses]

/-- An operation that is blind to what decides nothing. -/
abbrev Blind {α : Type} (f : Sys → Sys × α) : Prop := blanked.Blind f

variable {α : Type}

/-- The manager is changed, and responses are made or delivered. -/
theorem blind_onDcm {f : Manager → Manager} (d : Multiset (Port × Packet))
    (hf : ∀ m, (f m).quiet = (f m.quiet).quiet) (hd : ∀ m, (f m).responses = m.responses + d)
    (a : α) : Blind fun s => (s.onDcm f, a) where
  erase s := congrArg (fun m => { s with dcm := m }) (hf s.dcm)
  result _ := rfl
  account s := by
    have hnone : s.dcm.quiet.responses = 0 := blanked.account_erase s
    show (f s.dcm).responses = s.dcm.responses + (f s.dcm.quiet).responses
    rw [hd, hd, hnone, zero_add]

/-- The manager is changed, and nothing happens to the responses. -/
theorem blind_calm {f : Manager → Manager} (hf : ∀ m, (f m).quiet = (f m.quiet).quiet)
    (hlog : ∀ m, deliveries (f m).log = deliveries m.log)
    (hresp : ∀ m, (f m).pendingResponses = m.pendingResponses) (a : α) :
    Blind fun s => (s.onDcm f, a) :=
  blind_onDcm 0 hf (fun m => by rw [Manager.responses, hlog, hresp, add_zero, Manager.responses]) a

theorem blind_setMc (side : Side) (mc : MemoryController) (a : α) :
    Blind fun s => (s.setMc side mc, a) where
  erase s := by cases side <;> simp [blanked, onDcm, setMc, Manager.quiet]
  result _ := rfl
  account s := by cases side <;> simp [blanked, onDcm, setMc, Manager.quiet, Manager.responses]

theorem blind_emit (ev : Event) (h : ev.delivery? = none) (a : α) :
    Blind fun s => (s.onDcm (·.emit ev), a) :=
  blind_calm (f := (·.emit ev)) (fun m => by simp [Manager.quiet, Manager.emit])
    (fun m => by simp [Manager.emit, deliveries, h]) (fun _ => rfl) a

/-- Only the counters are touched. -/
theorem alike_count (f : Stats → Stats) (s : Sys) : blanked.Alike (s.onDcm (·.count f)) s := ⟨rfl, rfl⟩

theorem blind_count (f : Stats → Stats) (a : α) : Blind fun s => (s.onDcm (·.count f), a) :=
  .of_alike (alike_count f) a

theorem blind_noteSend (x : Send) (a : α) : Blind fun s => (s.onDcm (·.noteSend x), a) :=
  blind_calm (f := (·.noteSend x)) (fun m => by simp [Manager.quiet, Manager.noteSend])
    (fun _ => rfl) (fun _ => rfl) a

/-- What is read of the state is there when it is blanked. -/
theorem blind_read {γ : Type} (v : Sys → γ) (hv : ∀ s, v (blanked.erase s) = v s)
    (f : γ → Sys → Sys × α) (hf : ∀ c, Blind (f c)) : Blind fun s => f (v s) s := .read hv hf

/-- One thing or another is done. -/
theorem blind_ite {p : Prop} [Decidable p] {f g : Sys → Sys × α} (hf : p → Blind f)
    (hg : ¬ p → Blind g) : Blind fun s => if p then f s else g s := by
  by_cases hp : p
  · simp only [if_pos hp]
    exact hf hp
  · simp only [if_neg hp]
    exact hg hp

/-- Which of two things is done does not depend on the latencies. -/
theorem blind_branch {p : Sys → Prop} [DecidablePred p] (hp : ∀ s, p (blanked.erase s) ↔ p s)
    {f g : Sys → Sys × α} (hf : Blind f) (hg : Blind g) :
    Blind fun s => if p s then f s else g s := by
  have h := blind_read (fun s => decide (p s)) (fun s => decide_eq_decide.mpr (hp s))
    (fun c s => if c = true then f s else g s) fun _ => blind_ite (fun _ => hf) fun _ => hg
  simpa only [decide_eq_true_eq] using h

/-- Something is tried, and what comes next depends on whether it was
done. -/
theorem blind_try {β : Type} {f : Sys → Sys × Bool × β} {F : Sys → Sys × α}
    (g h : β → Sys → Sys × α) (hf : Blind f)
    (hF : ∀ s, F s = if (f s).2.1 = true then g (f s).2.2 (f s).1 else h (f s).2.2 (f s).1)
    (hg : ∀ b, Blind (g b)) (hh : ∀ b, Blind (h b)) : Blind F := by
  rw [show F = _ from funext hF]
  exact hf.bind (g := fun c s => if c.1 = true then g c.2 s else h c.2 s) fun c =>
    blind_ite (fun _ => hg c.2) fun _ => hh c.2

/-! ## Sending -/

theorem storedRead_blind (side : Side) (pkt : Packet) (r : MemoryController × AddOutcome) :
    Blind fun s => match r with
      | (mc, .forwarded i) =>
          (s.setMc side mc, .forwarded i, callbacks side pkt ++ [.forwardDone side])
      | (mc, o) => (s.setMc side mc, o, []) := by
  obtain ⟨mc, o⟩ := r
  cases o <;> exact blind_setMc ..

theorem controllerAddRq_blind (side : Side) (pkt : Packet) :
    Blind fun s => s.controllerAddRq side pkt :=
  blind_branch (p := fun s => s.allWarmupComplete < numCpus) (fun _ => Iff.rfl) (.pure _)
    (blind_read (fun s => (s.mc side).addRq pkt) (fun s => by cases side <;> rfl) _
      (storedRead_blind side pkt) :)

theorem controllerAddWq_blind (side : Side) (pkt : Packet) :
    Blind fun s => s.controllerAddWq side pkt :=
  blind_read (fun s => (s.allWarmupComplete, (s.mc side).addWq pkt))
    (fun s => by cases side <;> rfl) (fun c s => if c.1 < numCpus then (s, AddOutcome.preWarmup) else
      (s.setMc side c.2.1, c.2.2))
    fun _ => blind_ite (fun _ => .pure _) fun _ => blind_setMc ..

theorem sendWrite_blind (side : Side) (pkt : Packet) : Blind fun s => s.sendWrite side pkt :=
  (controllerAddWq_blind side pkt).bind fun o => blind_noteSend ⟨side, pkt, true, o⟩ (true, [])

theorem sendRead_blind (side : Side) (pkt : Packet) : Blind fun s => s.sendRead side pkt :=
  (controllerAddRq_blind side pkt).bind fun c =>
    (blind_noteSend ⟨side, pkt, false, c.1⟩ ()).bind fun _ =>
      blind_ite (p := c.1.returnValue ≥ 0) (fun _ => blind_count (fun st =>
        { st with dispatchMergeRetries := st.dispatchMergeRetries + 1 }) (false, []))
        fun _ => .pure (true, c.2)

theorem trySend_blind (side : Side) (pkt : Packet) (w : Bool) :
    Blind fun s => s.trySend side pkt w := by
  have hread : ∀ s, ((blanked.erase s).noRoom side w, (blanked.erase s).stamp pkt)
      = (s.noRoom side w, s.stamp pkt) := fun s => by cases side <;> rfl
  cases w with
  | true =>
      exact blind_read (fun s => (s.noRoom side true, s.stamp pkt)) hread
        (fun c s => if c.1 then (s, false, []) else s.sendWrite side c.2)
        fun c => blind_ite (fun _ => .pure _) fun _ => sendWrite_blind side c.2
  | false =>
      exact blind_read (fun s => (s.noRoom side false, s.stamp pkt)) hread
        (fun c s => if c.1 then (s, false, []) else s.sendRead side c.2)
        fun c => blind_ite (fun _ => .pure _) fun _ => sendRead_blind side c.2

theorem blind_pendFar (d : Nat → PendingFarDispatch) (pkt : Packet) (a : α) :
    Blind fun s => (s.onDcm fun m =>
      { m with pendingFarDispatches := m.pendingFarDispatches ++ [d (s.now pkt.cpu)] }, a) :=
  blind_read (fun s => s.now pkt.cpu) (fun _ => rfl) _ fun now =>
    blind_calm (f := fun m =>
      { m with pendingFarDispatches := m.pendingFarDispatches ++ [d now] })
      (fun m => by simp [Manager.quiet]) (fun _ => rfl) (fun _ => rfl) a

theorem dispatchToFar_blind (pkt : Packet) (w : Bool) : Blind fun s => s.dispatchToFar pkt w :=
  blind_read (fun s => (s.dcm.linkLatencyCycles, s.now pkt.cpu)) (fun _ => rfl)
    (fun c s => if c.1 = 0 then s.trySend .far pkt w else
      (s.onDcm fun m => { m with pendingFarDispatches := m.pendingFarDispatches
        ++ [⟨c.2 + c.1, pkt, w⟩] }, true, []))
    fun c => blind_ite (fun _ => trySend_blind ..) fun _ =>
      blind_pendFar (fun _ => ⟨c.2 + c.1, pkt, w⟩) pkt (true, [])

theorem dispatchToFarGuaranteed_blind (pkt : Packet) (w : Bool) :
    Blind fun s => s.dispatchToFarGuaranteed pkt w := by
  refine blind_try (fun ks s => (s, ks)) (fun _ s => (s.onDcm fun m =>
      { m.count fun st => { st with farDispatchRetries := st.farDispatchRetries + 1 } with
        pendingFarDispatches := m.pendingFarDispatches ++ [⟨s.now pkt.cpu, pkt, w⟩] }, []))
    (dispatchToFar_blind pkt w) (fun s => ?_) (fun ks => .pure ks) fun _ => ?_
  · unfold dispatchToFarGuaranteed
    generalize s.dispatchToFar pkt w = r
    obtain ⟨s₁, ok, ks⟩ := r
    cases ok <;> rfl
  · exact (blind_count (fun st => { st with farDispatchRetries := st.farDispatchRetries + 1 })
      ()).bind fun _ => blind_pendFar (fun now => ⟨now, pkt, w⟩) pkt []

theorem queueNear_blind (pkt : Packet) (w : Bool) (a : α) :
    Blind fun s => (s.queueNear pkt w, a) :=
  blind_calm (f := fun m =>
    { m.count fun st => { st with nearDispatchRetries := st.nearDispatchRetries + 1 } with
      pendingNearDispatches := m.pendingNearDispatches ++ [⟨pkt, w⟩] })
    (fun m => by simp [Manager.quiet, Manager.count]) (fun _ => rfl) (fun _ => rfl) a

theorem dispatchToNear_blind (pkt : Packet) (w : Bool) :
    Blind fun s => s.dispatchToNear pkt w := by
  refine blind_branch (p := fun s => s.dcm.pendingNearDispatches.isEmpty = true) (fun _ => Iff.rfl)
    (blind_try (fun ks s => (s, ks)) (fun _ s => (s.queueNear pkt w, []))
      (trySend_blind .near pkt w) (fun s => ?_) (fun ks => .pure ks) fun _ => queueNear_blind ..)
    (queueNear_blind ..)
  generalize s.trySend .near pkt w = r
  obtain ⟨s₁, ok, ks⟩ := r
  cases ok <;> rfl

/-! ## The request state machine -/

/-- The manager is changed, logs an event, and counts. -/
theorem blind_logged {f : Manager → Manager} (ev : Event) (hev : ev.delivery? = none)
    (hf : ∀ m, (f m).quiet = (f m.quiet).quiet) (hlog : ∀ m, (f m).log = m.log ++ [ev])
    (hresp : ∀ m, (f m).pendingResponses = m.pendingResponses) (a : α) :
    Blind fun s => (s.onDcm f, a) :=
  blind_calm hf (fun m => by simp [hlog, deliveries, hev]) hresp a

theorem blind_readNear (e : OrbEntry) (now : Nat) (a : α) :
    Blind fun s => (s.onDcm (·.readNear e now), a) :=
  blind_logged (f := (·.readNear e now)) _ rfl
    (fun m => by simp [Manager.quiet, Manager.readNear, Manager.issue, Manager.count, Manager.emit])
    (fun _ => rfl) (fun _ => rfl) a

theorem blind_readFar (e : OrbEntry) (now : Nat) (a : α) :
    Blind fun s => (s.onDcm (·.readFar e now), a) :=
  blind_logged (f := (·.readFar e now)) _ rfl
    (fun m => by simp [Manager.quiet, Manager.readFar, Manager.issue, Manager.count, Manager.emit])
    (fun _ => rfl) (fun _ => rfl) a

theorem blind_writeNear (e : OrbEntry) (now : Nat) (a : α) :
    Blind fun s => (s.onDcm (·.writeNear e now), a) :=
  blind_logged (f := (·.writeNear e now)) _ rfl
    (fun m => by simp [Manager.quiet, Manager.writeNear, Manager.issue, Manager.count, Manager.emit])
    (fun _ => rfl) (fun _ => rfl) a

theorem blind_fillNear (rid i : Nat) (pkt : Packet) (a : α) :
    Blind fun s => (s.onDcm (·.fillNear rid i pkt), a) :=
  blind_logged (f := (·.fillNear rid i pkt)) _ rfl
    (fun m => by simp [Manager.quiet, Manager.fillNear, Manager.count, Manager.emit])
    (fun _ => rfl) (fun _ => rfl) a

theorem blind_drained (front : WbEntry) (a : α) :
    Blind fun s => (s.onDcm (·.drained front), a) :=
  blind_logged (f := (·.drained front)) _ rfl
    (fun m => by simp [Manager.quiet, Manager.drained, Manager.count, Manager.emit])
    (fun _ => rfl) (fun _ => rfl) a

theorem blind_waitInCRB (pkt : Packet) (w : Bool) (now : Nat) (a : α) :
    Blind fun s => (s.onDcm (·.waitInCRB pkt w now), a) :=
  blind_logged (f := (·.waitInCRB pkt w now)) _ rfl
    (fun m => by simp [Manager.quiet, Manager.waitInCRB, Manager.count, Manager.emit])
    (fun _ => rfl) (fun _ => rfl) a

theorem blind_warmupTagUpdate (pkt : Packet) (w : Bool) (a : α) :
    Blind fun s => (s.onDcm (·.warmupTagUpdate pkt w), a) :=
  blind_logged (f := (·.warmupTagUpdate pkt w)) (.warmed w pkt) rfl
    (fun m => by
      have hlog : undelivered (m.warmupTagUpdate pkt w).log
          = undelivered (m.quiet.warmupTagUpdate pkt w).log := by
        simp [Manager.warmupTagUpdate, Manager.emit, Manager.count, Manager.quiet]
      apply Manager.ext <;> first | rfl | exact hlog)
    (fun _ => rfl) (fun _ => rfl) a

theorem blind_nearAnswered (e : OrbEntry) (now : Nat) (a : α) :
    Blind fun s => (s.onDcm (·.nearAnswered e now), a) := by
  cases he : e.handleDirtyLine with
  | true =>
      refine blind_logged (f := (·.nearAnswered e now)) (.wbQueued e.requestId e.dirtyLineAddr)
        rfl (fun m => ?_) (fun m => ?_) (fun m => ?_) a
      · simp [Manager.quiet, Manager.nearAnswered, he, Manager.pushDirtyWriteBack, Manager.count,
          Manager.emit]
      · simp [Manager.victimEvents, he]
      · simp
  | false =>
      refine blind_calm (f := (·.nearAnswered e now)) (fun m => ?_) (fun m => ?_) (fun m => ?_) a
      · simp [Manager.quiet, Manager.nearAnswered, he, Manager.count]
      · simp [Manager.victimEvents, he]
      · simp

theorem blind_takeWaiter (i : Nat) (a : α) : Blind fun s => (s.onDcm (·.takeWaiter i), a) :=
  blind_calm (f := (·.takeWaiter i)) (fun m => by simp [Manager.quiet, Manager.takeWaiter, Manager.count])
    (fun _ => rfl) (fun _ => rfl) a

theorem blind_enterState (e : OrbEntry) (st : ReqState) (a : α) :
    Blind fun s => (s.onDcm (·.enterState e st), a) :=
  blind_calm (f := (·.enterState e st)) (fun m => by simp [Manager.quiet, Manager.enterState])
    (fun _ => rfl) (fun _ => rfl) a

/-- What is logged of an admission is what is read of the tags. -/
theorem blind_admitEntry (pkt : Packet) (w : Bool) (arr : Option Nat) (now : Nat) (a : α) :
    Blind fun s => (s.onDcm (·.admitEntry pkt w arr now), a) := by
  refine blind_calm (f := (·.admitEntry pkt w arr now)) (fun m => ?_) (fun m => ?_) (fun m => rfl) a
  · have hlog : undelivered (m.admitEntry pkt w arr now).log
        = undelivered (m.quiet.admitEntry pkt w arr now).log := by
      simp only [Manager.admitEntry_log, undelivered_append, Manager.quiet,
        undelivered_undelivered]
      rfl
    apply Manager.ext <;> first | rfl | exact hlog
  · simp [deliveries, Event.delivery?]

theorem blind_flagConflict (b i : Nat) (a : α) : Blind fun s => (s.onDcm (·.flagConflict b i), a) := by
  refine .cases (v := fun s : Sys => (s.dcm.orb.lookup b, (s.dcm.waiter? i).isSome))
    (fun _ => rfl) ?_
  rintro ⟨l, waits⟩
  cases l with
  | none =>
      refine ⟨_, .pure a, fun s hs => ?_⟩
      obtain ⟨hl, -⟩ := Prod.mk.inj hs
      rw [onDcm, Manager.flagConflict, hl]
  | some e =>
      cases waits with
      | false =>
          refine ⟨_, .pure a, fun s hs => ?_⟩
          obtain ⟨hl, hw⟩ := Prod.mk.inj hs
          rw [onDcm, Manager.flagConflict, hl]
          simp only [hw, Bool.false_eq_true, if_false]
      | true =>
          refine ⟨_, blind_calm (f := fun m =>
            { m with orb := m.orb.insert b { e with conflict := true } })
            (fun m => by simp [Manager.quiet]) (fun _ => rfl) (fun _ => rfl) a, fun s hs => ?_⟩
          obtain ⟨hl, hw⟩ := Prod.mk.inj hs
          simp only [onDcm, Manager.flagConflict, hl, hw, if_true]

/-- A completed read is delivered or held. -/
theorem responses_retire (m : Manager) (e : OrbEntry) (lat now : Nat) :
    (m.retire e lat now).responses
      = m.responses + if e.isWriteReq then 0 else ↑(handovers e.pkt) := by
  have hsum : (↑(deliveries (Manager.respondNow e lat now)) : Multiset (Port × Packet))
      + ↑((Manager.respondLater e lat now).flatMap fun r => handovers r.pkt)
      = if e.isWriteReq then 0 else ↑(handovers e.pkt) := by
    unfold Manager.respondNow Manager.respondLater
    cases e.isWriteReq <;> by_cases hlat : lat = 0 <;> simp [hlat] <;> rfl
  have hlog : deliveries (.retired e now :: Manager.respondNow e lat now)
      = deliveries (Manager.respondNow e lat now) := rfl
  rw [← hsum, Manager.responses, Manager.retire_log, Manager.retire_pendingResponses,
    deliveries_append, hlog, List.flatMap_append, ← Multiset.coe_add, ← Multiset.coe_add,
    Manager.responses]
  abel

/-- Whatever the latency is, what a completed request is to deliver is
delivered or held. -/
theorem blind_retire (e : OrbEntry) (lat : Sys → Nat) (now : Nat) (a : α) :
    Blind fun s => (s.onDcm (·.retire e (lat s) now), a) where
  erase s := by
    have hnone : ∀ n, undelivered (Manager.respondNow e n now) = [] := fun n => by
      unfold Manager.respondNow
      split
      · exact undelivered_upcalls ..
      · rfl
    have hlog : ∀ (l : List Event) (n : Nat),
        undelivered (l ++ .retired e now :: Manager.respondNow e n now)
          = undelivered l ++ [.retired e now] := fun l n => by
      rw [List.append_cons, undelivered_append, undelivered_append, hnone]
      simp [undelivered, Event.delivery?]
    simp [blanked, onDcm, Manager.retire_eq, Manager.quiet, hlog]
  result _ := rfl
  account s := by
    have hnone : s.dcm.quiet.responses = 0 := blanked.account_erase s
    show (s.dcm.retire e (lat s) now).responses
      = s.dcm.responses + (s.dcm.quiet.retire e (lat (blanked.erase s)) now).responses
    rw [responses_retire, responses_retire, hnone, zero_add]

theorem driveState_blind (b : Nat) : Blind fun s => s.driveState b := by
  refine .cases (v := fun s : Sys => (s.dcm.orb.lookup b, s.clock)) (fun _ => rfl) ?_
  rintro ⟨l, clk⟩
  cases l with
  | none =>
      refine ⟨_, .pure [], fun s hs => ?_⟩
      rw [driveState, (Prod.mk.inj hs).1]
  | some e =>
      have hnear := fun w => dispatchToNear_blind
        (Manager.subRequest e (if w then .writeback else .load) (clk.cycle e.pkt.cpu)) w
      have hdrive : ∀ s : Sys, (s.dcm.orb.lookup b, s.clock) = (some e, clk) →
          s.dcm.orb.lookup b = some e ∧ s.now e.pkt.cpu = clk.cycle e.pkt.cpu := fun s hs =>
        ⟨(Prod.mk.inj hs).1, congrArg (fun c : Clock => c.cycle e.pkt.cpu) (Prod.mk.inj hs).2⟩
      cases he : e.state with
      | locMemRead =>
          refine ⟨_, (blind_readNear e (clk.cycle e.pkt.cpu) ()).bind fun _ => hnear false,
            fun s hs => ?_⟩
          obtain ⟨hl, hnow⟩ := hdrive s hs
          rw [driveState, hl]
          simp only [he, hnow]
          rfl
      | farMemRead =>
          refine ⟨_, (blind_readFar e (clk.cycle e.pkt.cpu) ()).bind fun _ =>
            dispatchToFarGuaranteed_blind (Manager.subRequest e .load (clk.cycle e.pkt.cpu)) false,
            fun s hs => ?_⟩
          obtain ⟨hl, hnow⟩ := hdrive s hs
          rw [driveState, hl]
          simp only [he, hnow]
      | locMemWrite =>
          refine ⟨_, ((blind_writeNear e (clk.cycle e.pkt.cpu) ()).bind fun _ => hnear true).bind
            fun ks => .pure (ks ++ [.completeRequest b 0]), fun s hs => ?_⟩
          obtain ⟨hl, hnow⟩ := hdrive s hs
          rw [driveState, hl]
          simp only [he, hnow]
          rfl
      | _ =>
          refine ⟨_, .pure [], fun s hs => ?_⟩
          rw [driveState, (hdrive s hs).1]
          simp only [he]

theorem admitRequest_blind (pkt : Packet) (w : Bool) (arr : Option Nat) :
    Blind fun s => s.admitRequest pkt w arr :=
  blind_read (fun s => s.now pkt.cpu) (fun _ => rfl)
    (fun now s => (s.onDcm (·.admitEntry pkt w arr now), [Call.driveState pkt.address]))
    fun now => blind_admitEntry pkt w arr now _

theorem promoteFromCRB_blind (i : Nat) : Blind fun s => s.promoteFromCRB i := by
  refine .cases (v := fun s : Sys => s.dcm.waiter? i) (fun _ => rfl) fun c => ?_
  cases c with
  | none =>
      refine ⟨_, .pure [], fun s hs => ?_⟩
      rw [promoteFromCRB, hs]
  | some c =>
      refine ⟨_, ((blind_takeWaiter i ()).bind fun _ =>
        admitRequest_blind c.pkt c.isWriteReq (some c.arrivalCycle)).bind
          fun ks => .pure (ks ++ [.flagConflict c.pkt.address i]), fun s hs => ?_⟩
      rw [promoteFromCRB, hs]

theorem completeEntry_blind (e : OrbEntry) (lat : Sys → Nat) :
    Blind fun s => s.completeEntry e (lat s) :=
  .cases (v := fun s => s.now e.pkt.cpu) (fun _ => rfl) fun now =>
    ⟨_, blind_retire e lat now [.promoteFromCRB e.indexDC], fun s hs => by rw [completeEntry, hs]⟩

theorem completeRequest_blind (b lat : Nat) : Blind fun s => s.completeRequest b lat := by
  refine .cases (v := fun s : Sys => s.dcm.orb.lookup b) (fun _ => rfl) fun l => ?_
  cases l with
  | none =>
      refine ⟨_, .pure [], fun s hs => ?_⟩
      rw [completeRequest, hs]
  | some e =>
      refine ⟨_, completeEntry_blind e fun _ => lat, fun s hs => ?_⟩
      rw [completeRequest, hs]

theorem nearResponse_blind (e : OrbEntry) : Blind fun s => s.nearResponse e := by
  refine .cases (v := fun s : Sys => s.now e.pkt.cpu) (fun _ => rfl) fun now => ?_
  have hanswered := blind_nearAnswered e now ()
  cases hw : e.isWriteReq with
  | true =>
      refine ⟨_, hanswered.bind fun _ => blind_enterState e .locMemWrite [.driveState e.pkt.address],
        fun s hs => ?_⟩
      simp only [nearResponse, hw, hs, if_true]
  | false =>
      cases hh : e.isHit with
      | true =>
          refine ⟨_, hanswered.bind fun _ => completeEntry_blind e fun s =>
            s.dcm.frontendLatencyCycles + s.dcm.backendLatencyCycles, fun s hs => ?_⟩
          simp only [nearResponse, hw, hh, hs, if_true, Bool.false_eq_true, if_false]
      | false =>
          refine ⟨_, hanswered.bind fun _ =>
            blind_enterState e .farMemRead [.driveState e.pkt.address], fun s hs => ?_⟩
          simp only [nearResponse, hw, hh, hs, Bool.false_eq_true, if_false]

theorem farResponse_blind (e : OrbEntry) : Blind fun s => s.farResponse e := by
  refine .cases (v := fun s : Sys => s.now e.pkt.cpu) (fun _ => rfl) fun now => ?_
  refine ⟨_, ((blind_count (fun st => { st with completedFromFar := st.completedFromFar + 1 })
    ()).bind fun _ => completeEntry_blind e fun s => s.dcm.frontendLatencyCycles
      + s.dcm.backendLatencyCycles + s.dcm.backendLatencyCycles).bind fun ks =>
        .pure (ks ++ [.backgroundFill e.requestId e.indexDC (Manager.subRequest e .writeback now)]),
    fun s hs => ?_⟩
  simp only [farResponse, hs]
  rfl

theorem blind_upcall (why : Upcall) (pkt : Packet) (now : Nat) (a : α) :
    Blind fun s => (s.onDcm (·.callUpper why pkt now), a) := by
  refine blind_onDcm (f := (·.callUpper why pkt now)) ↑(handovers pkt) (fun m => ?_) (fun m => ?_) a
  · simp [Manager.quiet, Manager.callUpper]
  · simp only [Manager.responses, Manager.callUpper, deliveries_append, deliveries_upcalls,
      ← Multiset.coe_add]
    abel

theorem blind_bypassAnswered (pkt : Packet) (now : Nat) (a : α) :
    Blind fun s => (s.onDcm (·.bypassAnswered pkt now), a) :=
  (blind_calm (f := fun m =>
    { m.count fun st => { st with bypassCompletedReads := st.bypassCompletedReads + 1 } with
      bypassOutstandingReads := m.bypassOutstandingReads.erase pkt.address })
    (fun m => by simp [Manager.quiet, Manager.count]) (fun _ => rfl) (fun _ => rfl) ()).bind
      fun _ => blind_upcall .bypass pkt now a

theorem returnData_blind (side : Side) (pkt : Packet) : Blind fun s => s.returnData side pkt := by
  refine .cases (v := fun s : Sys => (decide (pkt.address ∈ s.dcm.bypassOutstandingReads),
    s.dcm.orb.lookup pkt.address, s.now pkt.cpu)) (fun _ => rfl) ?_
  rintro ⟨bypassed, l, now⟩
  cases bypassed with
  | true =>
      refine ⟨_, blind_bypassAnswered pkt now [], fun s hs => ?_⟩
      simp only [Prod.mk.injEq, decide_eq_true_eq] at hs
      obtain ⟨hmem, -, hnow⟩ := hs
      rw [returnData, if_pos hmem, hnow]
  | false =>
      cases l with
      | none =>
          refine ⟨_, blind_emit (.untracked side pkt.address) rfl [], fun s hs => ?_⟩
          simp only [Prod.mk.injEq, decide_eq_false_iff_not] at hs
          obtain ⟨hmem, hl, -⟩ := hs
          rw [returnData, if_neg hmem, hl]
      | some e =>
          have hemit := blind_emit (.answered side e) rfl ()
          have hlook : ∀ s : Sys, (decide (pkt.address ∈ s.dcm.bypassOutstandingReads),
              s.dcm.orb.lookup pkt.address, s.now pkt.cpu) = (false, some e, now) →
              ¬ pkt.address ∈ s.dcm.bypassOutstandingReads ∧
                s.dcm.orb.lookup pkt.address = some e := fun s hs => by
            simp only [Prod.mk.injEq, decide_eq_false_iff_not] at hs
            exact ⟨hs.1, hs.2.1⟩
          cases he : e.state with
          | waitingLocMemReadResp =>
              refine ⟨_, hemit.bind fun _ => nearResponse_blind e, fun s hs => ?_⟩
              obtain ⟨hmem, hl⟩ := hlook s hs
              rw [returnData, if_neg hmem, hl]
              simp only [he]
          | waitingFarMemReadResp =>
              refine ⟨_, hemit.bind fun _ => farResponse_blind e, fun s hs => ?_⟩
              obtain ⟨hmem, hl⟩ := hlook s hs
              rw [returnData, if_neg hmem, hl]
              simp only [he]
          | _ =>
              refine ⟨_, blind_emit (.answered side e) rfl [], fun s hs => ?_⟩
              obtain ⟨hmem, hl⟩ := hlook s hs
              rw [returnData, if_neg hmem, hl]
              simp only [he]

theorem backgroundFill_blind (rid i : Nat) (pkt : Packet) :
    Blind fun s => s.backgroundFill rid i pkt :=
  (blind_fillNear rid i pkt ()).bind fun _ => dispatchToNear_blind pkt true

/-! ## The steps of `operate` -/

theorem processPendingFarDispatches_blind : Blind fun s => s.processPendingFarDispatches := by
  refine .cases (v := fun s : Sys => (s.dcm.pendingFarDispatches, s.clock)) (fun _ => rfl) ?_
  rintro ⟨l, clk⟩
  cases l with
  | nil =>
      refine ⟨_, .pure [], fun s hs => ?_⟩
      rw [processPendingFarDispatches, (Prod.mk.inj hs).1]
  | cons d rest =>
      have hfront : ∀ s : Sys, (s.dcm.pendingFarDispatches, s.clock) = (d :: rest, clk) →
          s.dcm.pendingFarDispatches = d :: rest ∧ s.now d.pkt.cpu = clk.cycle d.pkt.cpu :=
        fun s hs => ⟨(Prod.mk.inj hs).1,
          congrArg (fun c : Clock => c.cycle d.pkt.cpu) (Prod.mk.inj hs).2⟩
      by_cases hdue : d.targetCycle ≤ clk.cycle d.pkt.cpu
      · refine ⟨_, blind_try (fun ks s => (s, ks ++ [Call.popFar])) (fun _ s =>
          (s.onDcm (·.count fun st =>
            if d.isWrite then { st with wbDispatchRetries := st.wbDispatchRetries + 1 }
            else { st with farDispatchRetries := st.farDispatchRetries + 1 }), []))
          (trySend_blind .far d.pkt d.isWrite) (fun _ => rfl) (fun _ => .pure _)
          fun _ => blind_count _ [], fun s hs => ?_⟩
        obtain ⟨hl, hnow⟩ := hfront s hs
        rw [processPendingFarDispatches, hl]
        simp only [hnow, if_pos hdue]
        generalize s.trySend .far d.pkt d.isWrite = r
        obtain ⟨s₁, ok, ks⟩ := r
        cases ok <;> rfl
      · refine ⟨_, .pure [], fun s hs => ?_⟩
        obtain ⟨hl, hnow⟩ := hfront s hs
        rw [processPendingFarDispatches, hl]
        simp only [hnow, if_neg hdue]

theorem processPendingNearDispatches_blind : Blind fun s => s.processPendingNearDispatches := by
  refine .cases (v := fun s : Sys => s.dcm.pendingNearDispatches) (fun _ => rfl) fun l => ?_
  cases l with
  | nil =>
      refine ⟨_, .pure [], fun s hs => ?_⟩
      rw [processPendingNearDispatches, hs]
  | cons d rest =>
      refine ⟨_, blind_try (fun ks s => (s, ks ++ [Call.popNear])) (fun _ s => (s, []))
        (trySend_blind .near d.pkt d.isWrite) (fun _ => rfl) (fun _ => .pure _) fun _ => .pure [],
        fun s hs => ?_⟩
      rw [processPendingNearDispatches, hs]
      simp only
      generalize s.trySend .near d.pkt d.isWrite = r
      obtain ⟨s₁, ok, ks⟩ := r
      cases ok <;> rfl

theorem drainWB_blind (a : α) : Blind fun s => (s.drainWB, a) := by
  refine .cases (v := fun s : Sys => s.dcm.wb) (fun _ => rfl) fun l => ?_
  cases l with
  | nil =>
      refine ⟨_, .pure a, fun s hs => ?_⟩
      rw [drainWB, hs]
  | cons front rest =>
      refine ⟨_, blind_try (fun _ s => (s.onDcm (·.drained front), a)) (fun _ s =>
        (s.onDcm (·.count fun st => { st with wbDispatchRetries := st.wbDispatchRetries + 1 }), a))
        (dispatchToFar_blind front.pkt true) (fun _ => rfl) (fun _ => blind_drained front a)
        fun _ => blind_count _ a, fun s hs => ?_⟩
      rw [drainWB, hs]
      simp only
      generalize s.dispatchToFar front.pkt true = r
      obtain ⟨s₁, ok, ks⟩ := r
      cases ok <;> rfl

/-- The responses that are due are delivered. -/
theorem processPendingResponses_alike (clk : Clock) (s : Sys) :
    blanked.Alike (s.onDcm (·.processPendingResponses clk)) s := by
  obtain ⟨due, rest, hrs, hr⟩ :=
    Manager.releaseResponses_eq clk s.dcm.pendingResponses s.dcm
  have hdelivered : ∀ l : List PendingResponse,
      deliveries (l.flatMap fun r => Manager.upcalls .response r.pkt (clk.cycle r.pkt.cpu))
        = l.flatMap fun r => handovers r.pkt := fun l => by
    induction l with
    | nil => rfl
    | cons r l ih => simp only [List.flatMap_cons, deliveries_append, deliveries_upcalls, ih]
  have hquiet : ∀ l : List PendingResponse, undelivered
      (l.flatMap fun r => Manager.upcalls .response r.pkt (clk.cycle r.pkt.cpu)) = [] := fun l => by
    induction l with
    | nil => rfl
    | cons r l ih => simp only [List.flatMap_cons, undelivered_append, undelivered_upcalls, ih,
        List.append_nil]
  constructor
  · simp [blanked, onDcm, Manager.processPendingResponses, hr, Manager.quiet, hquiet]
  · show (s.dcm.processPendingResponses clk).responses = s.dcm.responses
    rw [Manager.processPendingResponses, hr]
    simp only [Manager.responses, deliveries_append, hdelivered, hrs, List.flatMap_append,
      ← Multiset.coe_add]
    abel

/-- The calls `operate` of a controller makes for the read it has finished. -/
def completedCalls (side : Side) (mc : MemoryController) : Option Nat → List Call
  | none => []
  | some i => [Call.returnData side (mc.rq.slotAt i).pkt,
      .processReadDone side i (dramGetBank (mc.rq.slotAt i).pkt.address)]

theorem operateController_blind (side : Side) :
    blanked.BlindOrFails fun s => s.operateController side := by
  have hread := Erasure.BlindOrFails.read (E := blanked)
    (v := fun s : Sys => (s.mc side).operate s.clock) (fun s => by cases side <;> rfl)
    (f := fun r s => (s.setMc side r.1, completedCalls side r.1 r.2)) fun r => blind_setMc ..
  refine cast (congrArg blanked.BlindOrFails (funext fun s => ?_)) hread
  unfold operateController
  cases (s.mc side).operate s.clock with
  | error => rfl
  | ok r =>
      obtain ⟨mc, o⟩ := r
      cases o <;> rfl

/-- **Every call is blind** to the counters, the controller latencies and
the responses. -/
theorem exec_blind (c : Call) : blanked.BlindOrFails (exec c) := by
  cases c with
  | returnData side pkt => exact .of_blind (returnData_blind side pkt)
  | driveState b => exact .of_blind (driveState_blind b)
  | completeRequest b lat => exact .of_blind (completeRequest_blind b lat)
  | promoteFromCRB i => exact .of_blind (promoteFromCRB_blind i)
  | flagConflict b i => exact .of_blind (blind_flagConflict b i [])
  | backgroundFill rid i pkt => exact .of_blind (backgroundFill_blind rid i pkt)
  | forwardDone side =>
      exact .of_blind (blind_read (fun s => (s.mc side).forwardDone)
        (fun s => by cases side <;> rfl) (fun mc s => (s.setMc side mc, []))
        fun mc => blind_setMc side mc [])
  | popFar =>
      exact .of_blind (blind_calm
        (f := fun m => { m with pendingFarDispatches := m.pendingFarDispatches.tail })
        (fun m => by simp [Manager.quiet]) (fun _ => rfl) (fun _ => rfl)
        [Call.processPendingFarDispatches])
  | popNear =>
      exact .of_blind (blind_calm
        (f := fun m => { m with pendingNearDispatches := m.pendingNearDispatches.tail })
        (fun m => by simp [Manager.quiet]) (fun _ => rfl) (fun _ => rfl)
        [Call.processPendingNearDispatches])
  | processReadDone side i b =>
      have hread := Erasure.BlindOrFails.read (E := blanked)
        (v := fun s : Sys => (s.mc side).processReadDone i b) (fun s => by cases side <;> rfl)
        (f := fun mc s => (s.setMc side mc, ([] : List Call))) fun mc => blind_setMc ..
      refine cast (congrArg blanked.BlindOrFails (funext fun s => ?_)) hread
      dsimp only [exec]
      cases (s.mc side).processReadDone i b <;> rfl
  | processPendingFarDispatches => exact .of_blind processPendingFarDispatches_blind
  | drainWB => exact .of_blind (drainWB_blind [])
  | processPendingNearDispatches => exact .of_blind processPendingNearDispatches_blind
  | operateController side => exact operateController_blind side
  | processPendingResponses =>
      exact .of_blind (blind_read (fun s => s.clock) (fun _ => rfl)
        (fun clk s => (s.onDcm (·.processPendingResponses clk), []))
        fun clk => .of_alike (processPendingResponses_alike clk) [])
  | recordOccupancySamples =>
      exact .of_blind (.of_alike (f := fun s : Sys => s.onDcm (·.recordOccupancySamples))
        (fun s => ⟨rfl, rfl⟩) [])

/-! ## Operations -/

theorem admission_blind (pkt : Packet) (w : Bool) : Blind fun s => s.admission pkt w := by
  refine .cases (v := fun s : Sys => (s.dcm.checkConflictInORB (returnIndexDC pkt.address),
    s.dcm.crb.length, s.dcm.wb.length, s.dcm.orbSize, s.now pkt.cpu)) (fun _ => rfl) ?_
  rintro ⟨conflict, crb, wb, orb, now⟩
  have hread : ∀ s : Sys, (s.dcm.checkConflictInORB (returnIndexDC pkt.address),
      s.dcm.crb.length, s.dcm.wb.length, s.dcm.orbSize, s.now pkt.cpu)
        = (conflict, crb, wb, orb, now) →
      s.dcm.checkConflictInORB (returnIndexDC pkt.address) = conflict ∧ s.dcm.crb.length = crb ∧
        s.dcm.wb.length = wb ∧ s.dcm.orbSize = orb ∧ s.now pkt.cpu = now := fun s hs => by
    simpa only [Prod.mk.injEq] using hs
  cases conflict with
  | true =>
      by_cases hfull : crb ≥ dcmCrbMaxSize
      · refine ⟨_, blind_count (fun st => { st with crbFullRejects := st.crbFullRejects + 1 })
          (-2, []), fun s hs => ?_⟩
        obtain ⟨hc, hn, -⟩ := hread s hs
        simp only [admission, hc, hn, if_true, if_pos hfull]
      · refine ⟨_, blind_waitInCRB pkt w now (-1, []), fun s hs => ?_⟩
        obtain ⟨hc, hn, -, -, hnow⟩ := hread s hs
        simp only [admission, hc, hn, hnow, if_true, if_neg hfull]
  | false =>
      by_cases hback : wb ≥ dcmWbPressureThreshold
      · refine ⟨_, blind_count (fun st => { st with wbFullRejects := st.wbFullRejects + 1 })
          (-2, []), fun s hs => ?_⟩
        obtain ⟨hc, -, hn, -⟩ := hread s hs
        simp only [admission, hc, hn, Bool.false_eq_true, if_false, if_pos hback]
      · by_cases hfull : orb ≥ dcmOrbMaxSize
        · refine ⟨_, blind_count (fun st => { st with orbFullRejects := st.orbFullRejects + 1 })
            (-2, []), fun s hs => ?_⟩
          obtain ⟨hc, -, hn, ho, -⟩ := hread s hs
          simp only [admission, hc, hn, ho, Bool.false_eq_true, if_false, if_neg hback, if_pos hfull]
        · refine ⟨_, ((blind_emit (.accepted w pkt) rfl ()).bind fun _ =>
            admitRequest_blind pkt w none).bind fun ks => .pure ((-1 : Int), ks), fun s hs => ?_⟩
          obtain ⟨hc, -, hn, ho, -⟩ := hread s hs
          simp only [admission, hc, hn, ho, Bool.false_eq_true, if_false, if_neg hback,
            if_neg hfull]

/-- What `add_rq` and `add_wq` do in bypass mode. -/
theorem bypass_blind (pkt : Packet) (w : Bool) (f : Stats → Stats)
    (g : Multiset Nat → Multiset Nat) : Blind fun s =>
      ((s.onDcm fun m => ({ m.count f with
        bypassOutstandingReads := g m.bypassOutstandingReads }).emit (.handFar none pkt w))
          |>.dispatchToFarGuaranteed pkt w) :=
  (blind_logged (f := fun m => ({ m.count f with
    bypassOutstandingReads := g m.bypassOutstandingReads }).emit (.handFar none pkt w)) _ rfl
    (fun m => by simp [Manager.quiet, Manager.count, Manager.emit]) (fun _ => rfl) (fun _ => rfl)
    ()).bind fun _ => dispatchToFarGuaranteed_blind pkt w

theorem addRq_blind (pkt : Packet) : Blind fun s => s.addRq pkt := by
  refine .cases (v := fun s : Sys => (decide (s.allWarmupComplete < numCpus), s.dcm.bypassDcache,
    s.now pkt.cpu)) (fun _ => rfl) ?_
  rintro ⟨pre, mode, now⟩
  cases pre with
  | true =>
      cases mode with
      | true =>
          refine ⟨_, blind_upcall .warmup pkt now (-1, []), fun s hs => ?_⟩
          simp only [Prod.mk.injEq, decide_eq_true_eq] at hs
          obtain ⟨hpre, hmode, hnow⟩ := hs
          simp only [addRq, if_pos hpre, hmode, Bool.not_true, Bool.false_eq_true, if_false, hnow]
      | false =>
          refine ⟨_, (blind_warmupTagUpdate pkt false ()).bind fun _ =>
            blind_upcall .warmup pkt now (-1, []), fun s hs => ?_⟩
          simp only [Prod.mk.injEq, decide_eq_true_eq] at hs
          obtain ⟨hpre, hmode, hnow⟩ := hs
          have hnow' : ∀ f, (s.onDcm f).now pkt.cpu = now := fun _ => hnow
          simp only [addRq, if_pos hpre, hmode, Bool.not_false, if_true, hnow']
  | false =>
      cases mode with
      | true =>
          refine ⟨_, (bypass_blind { pkt with eventCycle := now } false
            (fun st => { st with bypassReads := st.bypassReads + 1 }) (pkt.address ::ₘ ·)).bind
            fun ks => .pure ((-1 : Int), ks), fun s hs => ?_⟩
          simp only [Prod.mk.injEq, decide_eq_false_iff_not] at hs
          obtain ⟨hpre, hmode, hnow⟩ := hs
          simp only [addRq, if_neg hpre, hmode, if_true, hnow]
      | false =>
          refine ⟨_, admission_blind pkt false, fun s hs => ?_⟩
          simp only [Prod.mk.injEq, decide_eq_false_iff_not] at hs
          obtain ⟨hpre, hmode, -⟩ := hs
          simp only [addRq, if_neg hpre, hmode, Bool.false_eq_true, if_false]

theorem addWq_blind (pkt : Packet) : Blind fun s => s.addWq pkt := by
  refine .cases (v := fun s : Sys => (decide (s.allWarmupComplete < numCpus), s.dcm.bypassDcache,
    s.now pkt.cpu)) (fun _ => rfl) ?_
  rintro ⟨pre, mode, now⟩
  cases pre with
  | true =>
      cases mode with
      | true =>
          refine ⟨_, .pure (-1, []), fun s hs => ?_⟩
          simp only [Prod.mk.injEq, decide_eq_true_eq] at hs
          obtain ⟨hpre, hmode, -⟩ := hs
          simp only [addWq, if_pos hpre, hmode, Bool.not_true, Bool.false_eq_true, if_false]
      | false =>
          refine ⟨_, blind_warmupTagUpdate pkt true (-1, []), fun s hs => ?_⟩
          simp only [Prod.mk.injEq, decide_eq_true_eq] at hs
          obtain ⟨hpre, hmode, -⟩ := hs
          simp only [addWq, if_pos hpre, hmode, Bool.not_false, if_true]
  | false =>
      cases mode with
      | true =>
          refine ⟨_, (bypass_blind { pkt with eventCycle := now } true
            (fun st => { st with bypassWrites := st.bypassWrites + 1 }) id).bind
            fun ks => .pure ((-1 : Int), ks), fun s hs => ?_⟩
          simp only [Prod.mk.injEq, decide_eq_false_iff_not] at hs
          obtain ⟨hpre, hmode, hnow⟩ := hs
          simp only [addWq, if_neg hpre, hmode, if_true, hnow]
          rfl
      | false =>
          refine ⟨_, admission_blind pkt true, fun s hs => ?_⟩
          simp only [Prod.mk.injEq, decide_eq_false_iff_not] at hs
          obtain ⟨hpre, hmode, -⟩ := hs
          simp only [addWq, if_neg hpre, hmode, Bool.false_eq_true, if_false]

/-- A setting that is not one of the controller latencies. -/
theorem blind_set {f : Manager → Manager} (hf : ∀ m, (f m).quiet = (f m.quiet).quiet)
    (hlog : ∀ m, (f m).log = m.log) (hresp : ∀ m, (f m).pendingResponses = m.pendingResponses)
    (a : α) : Blind fun s => (s.onDcm f, a) :=
  blind_calm hf (fun m => by rw [hlog]) hresp a

theorem setControllerLatency_alike (frontendCycles backendCycles : Nat) (s : Sys) :
    blanked.Alike (s.onDcm fun m =>
      { m with frontendLatencyCycles := frontendCycles, backendLatencyCycles := backendCycles }) s :=
  ⟨rfl, rfl⟩

theorem resetROIStats_alike (s : Sys) : blanked.Alike (s.onDcm (·.resetROIStats)) s := ⟨rfl, rfl⟩

theorem enter_blind (op : Op) : Blind (enter op) := by
  cases op with
  | addRq pkt => exact (addRq_blind pkt).bind fun r => .pure r.2
  | addWq pkt => exact (addWq_blind pkt).bind fun r => .pure r.2
  | operate => exact .pure operateCalls
  | tick clk =>
      refine ⟨fun s => ?_, fun _ => rfl, fun s => ?_⟩
      · simp [blanked, onDcm, enter, Manager.quiet]
      · show s.dcm.responses = s.dcm.responses + s.dcm.quiet.responses
        rw [show s.dcm.quiet.responses = 0 from blanked.account_erase s, add_zero]
  | setPolicy pol =>
      exact blind_set (f := fun m => { m with policy := pol }) (fun m => by simp [Manager.quiet])
        (fun _ => rfl) (fun _ => rfl) []
  | setLinkLatency n =>
      exact blind_set (f := fun m => { m with linkLatencyCycles := n })
        (fun m => by simp [Manager.quiet]) (fun _ => rfl) (fun _ => rfl) []
  | setControllerLatency f b => exact .of_alike (setControllerLatency_alike f b) []
  | setBypassDcache b =>
      exact blind_set (f := fun m => { m with bypassDcache := b })
        (fun m => by simp [Manager.quiet]) (fun _ => rfl) (fun _ => rfl) []
  | finishWarmup =>
      refine ⟨fun s => ?_, fun _ => rfl, fun s => ?_⟩
      · simp [blanked, onDcm, enter, Manager.quiet]
      · show s.dcm.responses = s.dcm.responses + s.dcm.quiet.responses
        rw [show s.dcm.quiet.responses = 0 from blanked.account_erase s, add_zero]
  | resetROIStats => exact .of_alike resetROIStats_alike []

end Sys

/-! ## Two runs -/

/-- What two runs may differ in. -/
def Op.hidden : Op → Bool
  | .setControllerLatency .. | .resetROIStats => true
  | _ => false

theorem machine_blind : machine.Blind Sys.blanked Op.hidden where
  enter := Sys.enter_blind
  exec := Sys.exec_blind
  hidden op hop s := by
    cases op with
    | setControllerLatency f b => exact ⟨Sys.setControllerLatency_alike f b s, rfl⟩
    | resetROIStats => exact ⟨Sys.resetROIStats_alike s, rfl⟩
    | _ => cases hop

/-- Nothing that is scheduled and nothing that is returned tells the two
apart; they owe and have delivered the same responses. -/
structure Sys.BehavesAs (s t : Sys) : Prop where
  orb : s.dcm.orb = t.dcm.orb
  crb : s.dcm.crb = t.dcm.crb
  wb : s.dcm.wb = t.dcm.wb
  tags : s.dcm.tagMetadataStore = t.dcm.tagMetadataStore
  near : s.dcm.pendingNearDispatches = t.dcm.pendingNearDispatches
  far : s.dcm.pendingFarDispatches = t.dcm.pendingFarDispatches
  nearMC : s.nearMC = t.nearMC
  farMC : s.farMC = t.farMC
  returned : ∀ pkt w, (s.addRequest pkt w).2.1 = (t.addRequest pkt w).2.1
  occupancy : ∀ queueType a, s.getOccupancy queueType a = t.getOccupancy queueType a
  size : ∀ queueType a, s.getSize queueType a = t.getSize queueType a
  responses : s.dcm.responses = t.dcm.responses

theorem Sys.BehavesAs.of_alike {s t : Sys} (h : Sys.blanked.Alike s t) : s.BehavesAs t where
  orb := (congrArg (fun s : Sys => s.dcm.orb) h.erase :)
  crb := (congrArg (fun s : Sys => s.dcm.crb) h.erase :)
  wb := (congrArg (fun s : Sys => s.dcm.wb) h.erase :)
  tags := (congrArg (fun s : Sys => s.dcm.tagMetadataStore) h.erase :)
  near := (congrArg (fun s : Sys => s.dcm.pendingNearDispatches) h.erase :)
  far := (congrArg (fun s : Sys => s.dcm.pendingFarDispatches) h.erase :)
  nearMC := (congrArg Sys.nearMC h.erase :)
  farMC := (congrArg Sys.farMC h.erase :)
  returned pkt w := by
    cases w with
    | true => exact congrArg Prod.fst ((Sys.addWq_blind pkt).alike h).2
    | false => exact congrArg Prod.fst ((Sys.addRq_blind pkt).alike h).2
  occupancy queueType a := (congrArg (fun s : Sys => s.getOccupancy queueType a) h.erase :)
  size queueType a := (congrArg (fun s : Sys => s.getSize queueType a) h.erase :)
  responses := h.account

/-- **The two-run law.** Two runs from the same state but for the controller
latencies, which differ in when the latencies are set and the counters
reset, behave the same; and where the one is possible the other is. -/
theorem two_runs {ops₁ ops₂ : List Op} {s x₁ : Sys} (frontendCycles backendCycles : Nat)
    (hops : ops₁.filter (fun op => !op.hidden) = ops₂.filter fun op => !op.hidden)
    (h₁ : Performs machine ops₁ s x₁) :
    (∃ x₂, Performs machine ops₂
      (s.enter (.setControllerLatency frontendCycles backendCycles)).1 x₂) ∧
    ∀ x₂, Performs machine ops₂
      (s.enter (.setControllerLatency frontendCycles backendCycles)).1 x₂ → x₁.BehavesAs x₂ := by
  have hst := (Sys.setControllerLatency_alike frontendCycles backendCycles s).symm
  exact ⟨h₁.exists_alike machine_blind hst hops, fun x₂ h₂ =>
    .of_alike (h₁.alike machine_blind h₂ hst hops)⟩

/-- A read is delivered at once, or held for three cycles. -/
theorem two_runs_read :
    ∃ x₁ x₂, Performs machine [.addRq (.readOf 5), .operate, .resetROIStats] (.cold .oracle 0) x₁ ∧
      Performs machine [.addRq (.readOf 5), .operate]
        ((Sys.cold .oracle 0).enter (.setControllerLatency 1 1)).1 x₂ ∧
      x₁.dcm.pendingResponses = [] ∧
      x₂.dcm.pendingResponses = [{ targetCycle := 3, pkt := .readOf 5 }] ∧ x₁.BehavesAs x₂ := by
  obtain ⟨x₁, hx₁, hp₁⟩ := Option.map_eq_some_iff.mp (show
    (Worklist.drive machine 60 [.addRq (.readOf 5), .operate, .resetROIStats]
      (.cold .oracle 0)).map (fun s => s.dcm.pendingResponses) = some [] from by decide +kernel)
  obtain ⟨x₂, hx₂, hp₂⟩ := Option.map_eq_some_iff.mp (show
    (Worklist.drive machine 60 [.addRq (.readOf 5), .operate]
      ((Sys.cold .oracle 0).enter (.setControllerLatency 1 1)).1).map
      (fun s => s.dcm.pendingResponses) = some [{ targetCycle := 3, pkt := .readOf 5 }] from by
        decide +kernel)
  exact ⟨x₁, x₂, Worklist.drive_performs hx₁, Worklist.drive_performs hx₂, hp₁, hp₂,
    (two_runs 1 1 (by rfl) (Worklist.drive_performs hx₁)).2 x₂ (Worklist.drive_performs hx₂)⟩

end DramCache
