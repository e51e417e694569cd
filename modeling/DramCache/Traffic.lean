import Mathlib.Algebra.GroupWithZero.Nat
import Mathlib.Algebra.BigOperators.Group.Multiset.Defs
import Mathlib.Algebra.Group.Nat.Defs
import DramCache.Admission
import DramCache.TagStore

/-!
# What a request costs

Each counter of interest is decided when a request is classified, though
the work is done and counted later: until then the ORB entry, or the fill
its completion leaves pending, owes it. `Tallied` is that equation. In a
drained system nothing is owed, so the counters are sums over the requests
admitted, and neither policy nor timing can be told from them.
-/

namespace DramCache

open Keyed (restrict values)
open Worklist (ReachesIf Reaches)

/-! ## Counters and debts -/

/-- The counters that classification decides; `tagChecks` is the near
reads issued and avoided. -/
inductive Tally where
  | numTotHits
  | numTotMisses
  | numColdMisses
  | numHotMisses
  | numRdHit
  | numWrHit
  | numRdMissClean
  | numRdMissDirty
  | numWrMissClean
  | numWrMissDirty
  | tagChecks
  | farReads
  | localWrites
  | wbInsertions
deriving DecidableEq

namespace Tally

def counter (st : Stats) : Tally → Nat
  | numTotHits => st.numTotHits
  | numTotMisses => st.numTotMisses
  | numColdMisses => st.numColdMisses
  | numHotMisses => st.numHotMisses
  | numRdHit => st.numRdHit
  | numWrHit => st.numWrHit
  | numRdMissClean => st.numRdMissClean
  | numRdMissDirty => st.numRdMissDirty
  | numWrMissClean => st.numWrMissClean
  | numWrMissDirty => st.numWrMissDirty
  | tagChecks => st.localReads + st.localTagCheckReadsAvoided
  | farReads => st.farReads
  | localWrites => st.localWrites
  | wbInsertions => st.wbInsertions

/-- Does a request with this outcome end up in the counter? -/
def counts (o : Outcome) : Tally → Bool
  | numTotHits => o.isHit
  | numTotMisses => !o.isHit
  | numColdMisses => !o.isHit && !o.victimWasValid
  | numHotMisses => !o.isHit && o.victimWasValid
  | numRdHit => o.isHit && !o.isWriteReq
  | numWrHit => o.isHit && o.isWriteReq
  | numRdMissClean => !o.isHit && !o.isWriteReq && !(o.victimWasValid && o.victimWasDirty)
  | numRdMissDirty => !o.isHit && !o.isWriteReq && (o.victimWasValid && o.victimWasDirty)
  | numWrMissClean => !o.isHit && o.isWriteReq && !(o.victimWasValid && o.victimWasDirty)
  | numWrMissDirty => !o.isHit && o.isWriteReq && (o.victimWasValid && o.victimWasDirty)
  | tagChecks => true
  | farReads => !o.isWriteReq && !o.isHit
  | localWrites => o.isWriteReq || !o.isHit
  | wbInsertions => o.victim.isSome

/-- What an ORB entry still owes a counter. -/
def owes (e : OrbEntry) : Tally → Bool
  | tagChecks => decide (e.state = .locMemRead)
  | farReads => !e.isWriteReq && !e.isHit && decide (e.state ≠ .waitingFarMemReadResp)
  | localWrites =>
      if e.isWriteReq then decide (e.state ≠ .waitingLocMemWriteResp) else !e.isHit
  | wbInsertions =>
      e.handleDirtyLine && (decide (e.state = .locMemRead)
        || decide (e.state = .waitingLocMemReadResp))
  | _ => false

/-- What a pending call still owes a counter. -/
def due (c : Call) : Tally → Bool
  | localWrites => match c with
    | .backgroundFill .. => true
    | _ => false
  | _ => false

theorem counter_core (t : Tally) (st : Stats) : t.counter st.core = t.counter st := by
  cases t <;> rfl

theorem due_bystander {c : Call} (t : Tally) (h : c.bystander) : t.due c = false := by
  cases t <;> cases c <;> simp_all [due, Call.bystander]

/-! ### What each piece of the manager does to a counter -/

variable (t : Tally) (m : Manager) (e : OrbEntry)

/-- Decided by `countClass` alone. -/
def ofClass : Tally → Bool
  | tagChecks | farReads | localWrites | wbInsertions => false
  | _ => true

theorem counter_countClass (st : Stats) (v d h w : Bool) :
    t.counter (Manager.countClass v d h w st) = t.counter st
      + (t.ofClass && t.counts ⟨w, h, v, d, none⟩).toNat := by
  cases v <;> cases d <;> cases h <;> cases w <;> cases t <;> rfl

theorem counter_countOpportunity (st : Stats) :
    t.counter (Manager.countOpportunity e st) = t.counter st := by
  unfold Manager.countOpportunity
  cases Manager.isWriteHit e <;> cases Manager.isCleanMiss e <;> cases e.pol <;> cases t <;> rfl

theorem counter_countRequest (st : Stats) (w : Bool) :
    t.counter (Manager.countRequest w st) = t.counter st := by
  cases w <;> cases t <;> rfl

/-- The near read is issued or counted as avoided. -/
theorem counter_initialChoice (st : Stats) :
    t.counter ((Manager.initialChoice e).2 st) = t.counter st
      + (decide (t = tagChecks) && decide ((Manager.initialChoice e).1 ≠ .locMemRead)).toNat := by
  unfold Manager.initialChoice
  split
  · cases t <;> rfl
  · split
    · cases t <;> rfl
    · split
      · cases e.isWriteReq <;> cases t <;> rfl
      · cases t <;> rfl

theorem counter_admitEntry (pkt : Packet) (w : Bool) (arr : Option Nat) (now : Nat) :
    t.counter (m.admitEntry pkt w arr now).stats
        + (t.owes (m.admittedEntry pkt w arr now)).toNat
      = t.counter m.stats + (t.counts (m.admittedEntry pkt w arr now).outcome).toNat := by
  have hstats : t.counter (m.admitEntry pkt w arr now).stats = t.counter m.stats
      + (t.ofClass && t.counts (m.admittedEntry pkt w arr now).outcome).toNat
      + (decide (t = tagChecks)
          && decide ((m.admittedEntry pkt w arr now).state ≠ .locMemRead)).toNat := by
    rw [Manager.admitEntry_stats, Manager.admitStats, counter_initialChoice,
      counter_countOpportunity, counter_countClass, counter_countRequest]
    cases t <;> rfl
  have hdrive : (m.admittedEntry pkt w arr now).state.drivable = true :=
    Manager.initialChoice_drivable _
  have hevict : (m.admittedEntry pkt w arr now).handleDirtyLine = true →
      (m.admittedEntry pkt w arr now).state = .locMemRead := fun h =>
    (m.admittedEntry_evicts pkt w arr now).2 h |>.2
  rw [hstats]
  generalize m.admittedEntry pkt w arr now = e at hdrive hevict ⊢
  cases t with
  | tagChecks =>
      by_cases hs : e.state = .locMemRead <;> simp [owes, ofClass, counts, hs]
  | farReads =>
      have hs : e.state ≠ .waitingFarMemReadResp := by
        rintro hs
        simp [hs, ReqState.drivable] at hdrive
      simp [owes, ofClass, counts, hs, OrbEntry.outcome]
  | localWrites =>
      have hs : e.state ≠ .waitingLocMemWriteResp := by
        rintro hs
        simp [hs, ReqState.drivable] at hdrive
      cases hw : e.isWriteReq <;> simp [owes, ofClass, counts, hs, hw, OrbEntry.outcome]
  | wbInsertions =>
      cases hd : e.handleDirtyLine
      · simp [owes, ofClass, counts, hd, OrbEntry.outcome]
      · simp [owes, ofClass, counts, hd, OrbEntry.outcome, hevict hd]
  | _ => simp [owes, ofClass]

theorem counter_nearAnswered (now : Nat) : t.counter (m.nearAnswered e now).stats
    = t.counter m.stats + (if t = wbInsertions then e.handleDirtyLine.toNat else 0) := by
  unfold Manager.nearAnswered
  cases e.handleDirtyLine <;> cases t <;> rfl

theorem counter_countRetired (st : Stats) :
    t.counter (Manager.countRetired e st) = t.counter st := by
  unfold Manager.countRetired
  cases e.isWriteReq <;> cases t <;> rfl

/-! ### What each transition does to a debt -/

variable {e}

/-- A near response queues the victim; nothing else is settled yet. -/
theorem owes_nearEnter {st : ReqState} (hs : e.state = .waitingLocMemReadResp)
    (hst : st = .locMemWrite ∧ e.isWriteReq = true
      ∨ st = .farMemRead ∧ e.isWriteReq = false ∧ e.isHit = false) :
    (if t = wbInsertions then e.handleDirtyLine.toNat else 0)
        + (t.owes { e with state := st }).toNat = (t.owes e).toNat := by
  rcases hst with ⟨rfl, hw⟩ | ⟨rfl, hw, hh⟩ <;> cases t <;> simp [owes, *]

theorem owes_nearHit (hs : e.state = .waitingLocMemReadResp) (hw : e.isWriteReq = false)
    (hh : e.isHit = true) :
    (if t = wbInsertions then e.handleDirtyLine.toNat else 0) = (t.owes e).toNat := by
  cases t <;> simp [owes, hs, hw, hh]

/-- A read miss leaves its fill behind. -/
theorem owes_farDone (hs : e.state = .waitingFarMemReadResp) (hw : e.isWriteReq = false)
    (hh : e.isHit = false) (rid i : Nat) (pkt : Packet) :
    t.due (.backgroundFill rid i pkt) = t.owes e := by
  cases t <;> simp [owes, due, hs, hw, hh]

theorem owes_complete (hs : e.state = .waitingLocMemWriteResp) (hw : e.isWriteReq = true) :
    t.owes e = false := by
  cases t <;> simp [owes, hs, hw]

theorem counter_readNear (hs : e.state = .locMemRead) (now : Nat) :
    t.counter (m.readNear e now).stats
        + (t.owes { e with state := .waitingLocMemReadResp, issued := true }).toNat
      = t.counter m.stats + (t.owes e).toNat := by
  have hc : t.counter (m.readNear e now).stats
      = t.counter m.stats + (decide (t = tagChecks)).toNat := by
    cases t with
    | tagChecks => exact Nat.add_right_comm ..
    | _ => rfl
  rw [hc]
  cases t <;> simp [owes, hs]

theorem counter_readFar (hs : e.state = .farMemRead) (hw : e.isWriteReq = false)
    (hh : e.isHit = false) (now : Nat) :
    t.counter (m.readFar e now).stats
        + (t.owes { e with state := .waitingFarMemReadResp, issued := true }).toNat
      = t.counter m.stats + (t.owes e).toNat := by
  have hc : t.counter (m.readFar e now).stats
      = t.counter m.stats + (decide (t = farReads)).toNat := by
    cases t <;> rfl
  rw [hc]
  cases t <;> simp [owes, hs, hw, hh]

theorem counter_writeNear (hs : e.state = .locMemWrite) (hw : e.isWriteReq = true) (now : Nat) :
    t.counter (m.writeNear e now).stats
        + (t.owes { e with state := .waitingLocMemWriteResp, issued := true }).toNat
      = t.counter m.stats + (t.owes e).toNat := by
  have hc : t.counter (m.writeNear e now).stats
      = t.counter m.stats + (decide (t = localWrites)).toNat := by
    cases t <;> rfl
  rw [hc]
  cases t <;> simp [owes, hs, hw]

theorem counter_fillNear (rid i : Nat) (pkt : Packet) :
    t.counter (m.fillNear rid i pkt).stats
      = t.counter m.stats + (t.due (.backgroundFill rid i pkt)).toNat := by
  cases t <;> rfl

/-! ### Totals -/

/-- What the ORB owes. -/
def debt (m : Manager) (t : Tally) : Nat := Keyed.total (fun e => (t.owes e).toNat) m.orb

/-- What the pending calls owe. -/
def dues (K : List Call) (t : Tally) : Nat := (K.map fun c => (t.due c).toNat).sum

@[simp] theorem dues_nil : t.dues [] = 0 := rfl

@[simp] theorem dues_cons (c : Call) (K : List Call) :
    t.dues (c :: K) = (t.due c).toNat + t.dues K := by
  simp [dues]

@[simp] theorem dues_append (K L : List Call) : t.dues (K ++ L) = t.dues K + t.dues L := by
  simp [dues]

theorem dues_bystanders {ks : List Call} (h : ∀ k ∈ ks, k.bystander) : t.dues ks = 0 := by
  induction ks with
  | nil => rfl
  | cons k ks ih =>
      rw [dues_cons, due_bystander t (h k (List.mem_cons_self ..)),
        ih fun k' h' => h k' (List.mem_cons_of_mem _ h')]
      rfl

end Tally

/-- Only a promotion admits. -/
theorem FrontStep.admitted_eq {m m' : Manager} {c : Call} {ks : List Call}
    (h : FrontStep m c m' ks) (hc : ∀ i, c ≠ .promoteFromCRB i) :
    admitted m'.log = admitted m.log := by
  rcases h.silent_or_promote with hs | ⟨i, _, _, rfl, _⟩
  · exact hs.admitted
  · exact absurd rfl (hc i)

/-- Counted and owed together make up the requests admitted. -/
def Tallied (K : List Call) (m : Manager) : Prop := ∀ t : Tally,
  t.counter m.stats + t.debt m + t.dues K
    = (admitted m.log).countP fun e => t.counts e.outcome

namespace Tallied

variable {K ks : List Call} {c : Call} {m m' : Manager} {a : Nat} {e f : OrbEntry}

/-- The ORB stands still. -/
theorem still (h : Tallied (c :: K) m) (horb : m'.orb = m.orb)
    (hadm : admitted m'.log = admitted m.log)
    (hbal : ∀ t : Tally, t.counter m'.stats + t.dues ks
      = t.counter m.stats + (t.due c).toNat) : Tallied (ks ++ K) m' := by
  intro t
  have hd : t.debt m' = t.debt m := by rw [Tally.debt, horb, Tally.debt]
  have := h t
  have := hbal t
  rw [Tally.dues_cons] at *
  rw [hadm, Tally.dues_append, hd]
  omega

/-- An entry changes in place. -/
theorem change (h : Tallied (c :: K) m) (he : m.orb.lookup a = some e)
    (horb : m'.orb = m.orb.insert a f) (hadm : admitted m'.log = admitted m.log)
    (hbal : ∀ t : Tally, t.counter m'.stats + (t.owes f).toNat + t.dues ks
      = t.counter m.stats + (t.owes e).toNat + (t.due c).toNat) : Tallied (ks ++ K) m' := by
  intro t
  have hd : t.debt m' + (t.owes e).toNat = t.debt m + (t.owes f).toNat := by
    rw [Tally.debt, Tally.debt, horb, Keyed.total_insert _ he]
  have := h t
  have := hbal t
  rw [Tally.dues_cons] at *
  rw [hadm, Tally.dues_append]
  omega

/-- An entry leaves. -/
theorem leave (h : Tallied (c :: K) m) (he : m.orb.lookup a = some e)
    (horb : m'.orb = m.orb.erase a) (hadm : admitted m'.log = admitted m.log)
    (hbal : ∀ t : Tally, t.counter m'.stats + t.dues ks
      = t.counter m.stats + (t.owes e).toNat + (t.due c).toNat) : Tallied (ks ++ K) m' := by
  intro t
  have hd : t.debt m = (t.owes e).toNat + t.debt m' := by
    rw [Tally.debt, Tally.debt, horb, Keyed.total_erase _ he]
  have := h t
  have := hbal t
  rw [Tally.dues_cons] at *
  rw [hadm, Tally.dues_append]
  omega

/-- A request is admitted. -/
theorem arrive {pkt : Packet} {w : Bool} {arr : Option Nat} {now : Nat}
    (h : Tallied K m) (hl : m'.orb.lookup pkt.address = none) (horb : m'.orb = m.orb)
    (hadm : admitted m'.log = admitted m.log)
    (hcount : ∀ t : Tally, t.counter m'.stats = t.counter m.stats)
    (hks : ∀ t : Tally, t.dues ks = t.dues K) :
    Tallied ks (m'.admitEntry pkt w arr now) := by
  intro t
  have hd : t.debt (m'.admitEntry pkt w arr now)
      = (t.owes (m'.admittedEntry pkt w arr now)).toNat + t.debt m := by
    rw [Tally.debt, Manager.admitEntry_orb, Keyed.total_insert_new _ hl, horb, Tally.debt]
  have hlog : admitted (m'.admitEntry pkt w arr now).log
      = admitted m.log ++ [m'.admittedEntry pkt w arr now] := by
    rw [Manager.admitEntry_log, admitted_append, hadm]
    rfl
  have hc := t.counter_admitEntry m' pkt w arr now
  have := h t
  rw [hlog, List.countP_append, List.countP_singleton, hd, hks]
  rw [hcount] at hc
  cases hb : t.counts (m'.admittedEntry pkt w arr now).outcome <;> simp_all <;> omega

/-! ### The callbacks that meet an entry -/

section Answers

variable {side : Side} {pkt : Packet} (h : Tallied (.returnData side pkt :: K) m)
  (hl : m.orb.lookup pkt.address = some e) (haddr : e.pkt.address = pkt.address)

include h hl haddr

theorem nearEnter {st : ReqState} (now : Nat) (hs : e.state = .waitingLocMemReadResp)
    (hst : st = .locMemWrite ∧ e.isWriteReq = true
      ∨ st = .farMemRead ∧ e.isWriteReq = false ∧ e.isHit = false) :
    Tallied ([.driveState e.pkt.address] ++ K)
      (((m.emit (.answered side e)).nearAnswered e now).enterState e st) := by
  refine h.change (f := { e with state := st }) hl ?_
    ((FrontStep.nearEnter now hl hs hst).admitted_eq (by simp)) fun t => ?_
  · simp [Manager.enterState, Manager.emit, haddr]
  · have hc : t.counter ((m.emit (.answered side e)).nearAnswered e now).stats
        = t.counter m.stats + (if t = .wbInsertions then e.handleDirtyLine.toNat else 0) :=
      t.counter_nearAnswered _ e now
    have ho := t.owes_nearEnter hs hst
    have hdues : t.dues [.driveState e.pkt.address] = 0 := by cases t <;> rfl
    have hdue : t.due (.returnData side pkt) = false := by cases t <;> rfl
    simp only [Manager.enterState, hc, hdues, hdue, Bool.toNat_false]
    omega

theorem nearHit (lat now : Nat) (hs : e.state = .waitingLocMemReadResp)
    (hw : e.isWriteReq = false) (hh : e.isHit = true) :
    Tallied ([.promoteFromCRB e.indexDC] ++ K)
      (((m.emit (.answered side e)).nearAnswered e now).retire e lat now) := by
  refine h.leave hl ?_ ((FrontStep.nearHit lat now hl hs hw hh).admitted_eq (by simp)) fun t => ?_
  · simp [Manager.emit, haddr]
  · have hc : t.counter ((m.emit (.answered side e)).nearAnswered e now).stats = _ :=
      t.counter_nearAnswered _ e now
    have hdues : t.dues [.promoteFromCRB e.indexDC] = 0 := by cases t <;> rfl
    have hdue : t.due (.returnData side pkt) = false := by cases t <;> rfl
    rw [Manager.retire_stats, t.counter_countRetired, hc, t.owes_nearHit hs hw hh, hdues, hdue]
    rfl

theorem farDone (lat now : Nat) (hs : e.state = .waitingFarMemReadResp)
    (hw : e.isWriteReq = false) (hh : e.isHit = false) :
    Tallied ([.promoteFromCRB e.indexDC,
        .backgroundFill e.requestId e.indexDC (Manager.subRequest e .writeback now)] ++ K)
      (((m.emit (.answered side e)).farAnswered).retire e lat now) := by
  refine h.leave hl ?_ ((FrontStep.farDone lat now hl hs).admitted_eq (by simp)) fun t => ?_
  · simp [Manager.emit, Manager.farAnswered, Manager.count, haddr]
  · have hdue : t.due (.returnData side pkt) = false := by cases t <;> rfl
    have hprom : t.due (.promoteFromCRB e.indexDC) = false := by cases t <;> rfl
    have hc : t.counter (m.emit (.answered side e)).farAnswered.stats = t.counter m.stats := by
      cases t <;> rfl
    rw [Manager.retire_stats, t.counter_countRetired, Tally.dues_cons, Tally.dues_cons,
      t.owes_farDone hs hw hh, hdue, hprom, hc]
    simp

end Answers

/-- Every call keeps the balance. -/
theorem step (hstep : FrontStep m c m' ks) (hinv : OrbInv (Ctl.of (c :: K)) m)
    (h : Tallied (c :: K) m) : Tallied (ks ++ K) m' := by
  have hadm := hstep.admitted_eq
  cases hstep with
  | quiet hc hks =>
      refine h.still rfl rfl fun t => ?_
      rw [t.dues_bystanders hks, t.due_bystander hc]
      rfl
  | bypassed now _ =>
      refine h.still rfl (hadm (by simp)) fun t => ?_
      cases t <;> rfl
  | untracked _ =>
      refine h.still rfl (hadm (by simp)) fun t => ?_
      cases t <;> rfl
  | stray _ _ =>
      refine h.still rfl (hadm (by simp)) fun t => ?_
      cases t <;> rfl
  | nearEnter now hl hs hst => exact h.nearEnter hl (hinv.entry hl).addr now hs hst
  | nearHit lat now hl hs hw hh => exact h.nearHit hl (hinv.entry hl).addr lat now hs hw hh
  | farDone lat now hl hs =>
      have he := hinv.entry hl
      obtain ⟨hw, hh⟩ := he.farRead (.inr hs)
      exact h.farDone hl he.addr lat now hs hw hh
  | driveIdle _ =>
      refine h.still rfl rfl fun t => ?_
      cases t <;> rfl
  | @readNear a e ks now hl hs hks =>
      have he := hinv.entry hl
      refine h.change (f := { e with state := .waitingLocMemReadResp, issued := true }) hl
        (by rw [← he.addr]; rfl) (hadm (by simp)) fun t => ?_
      have hdue : t.due (.driveState a) = false := by cases t <;> rfl
      rw [t.dues_bystanders hks, hdue, t.counter_readNear m hs]
      rfl
  | @readFar a e ks now hl hs hks =>
      have he := hinv.entry hl
      obtain ⟨hw, hh⟩ := he.farRead (.inl hs)
      refine h.change (f := { e with state := .waitingFarMemReadResp, issued := true }) hl
        (by rw [← he.addr]; rfl) (hadm (by simp)) fun t => ?_
      have hdue : t.due (.driveState a) = false := by cases t <;> rfl
      rw [t.dues_bystanders hks, hdue, t.counter_readFar m hs hw hh]
      rfl
  | @writeNear a e now hl hs =>
      have he := hinv.entry hl
      refine h.change (f := { e with state := .waitingLocMemWriteResp, issued := true }) hl
        (by rw [← he.addr]; rfl) (hadm (by simp)) fun t => ?_
      have hdue : t.due (.driveState a) = false := by cases t <;> rfl
      have hdues : t.dues [.completeRequest a 0] = 0 := by cases t <;> rfl
      rw [hdues, hdue, t.counter_writeNear m hs (he.nearWrite (.inl hs))]
      rfl
  | completeNone _ =>
      refine h.still rfl rfl fun t => ?_
      cases t <;> rfl
  | @complete a lat e now hl =>
      have he := hinv.entry hl
      obtain ⟨e', hl', hs⟩ := hinv.focus (a := a) rfl
      obtain rfl : e = e' := by simpa [hl] using hl'
      refine h.leave hl (by simp [he.addr]) (hadm (by simp)) fun t => ?_
      have hdue : t.due (.completeRequest a lat) = false := by cases t <;> rfl
      have hdues : t.dues [.promoteFromCRB e.indexDC] = 0 := by cases t <;> rfl
      rw [Manager.retire_stats, t.counter_countRetired,
        t.owes_complete hs (he.nearWrite (.inr hs)), hdue, hdues]
      rfl
  | promoteNone _ =>
      refine h.still rfl rfl fun t => ?_
      cases t <;> rfl
  | @promote i w now hw =>
      refine h.arrive (hinv.waiter_none hw) rfl rfl (fun t => by cases t <;> rfl) fun t => ?_
      rw [Tally.dues_append]
      cases t <;> simp [Tally.due]
  | @flag a i =>
      rcases m.flagConflict_eq a i with hf | ⟨e, hl, hf⟩
      · refine h.still (by rw [hf]) (by rw [hf]) fun t => ?_
        rw [hf]
        cases t <;> rfl
      · refine h.change (f := { e with conflict := true }) hl (by rw [hf]) (by rw [hf])
          fun t => ?_
        rw [hf]
        cases t <;> rfl
  | @fill rid i pkt ks hks =>
      refine h.still rfl (hadm (by simp)) fun t => ?_
      rw [t.dues_bystanders hks, t.counter_fillNear]
      rfl
  | drained _ =>
      refine h.still rfl (hadm (by simp)) fun t => ?_
      cases t <;> rfl
  | responses clk =>
      obtain ⟨due, rest, -, hr⟩ := Manager.releaseResponses_eq clk m.pendingResponses m
      have hst : (m.processPendingResponses clk).stats = m.stats := by
        rw [Manager.processPendingResponses, hr]
      refine h.still ?_ (hadm (by simp)) fun t => ?_
      · rw [Manager.processPendingResponses, hr]
      · rw [hst]
        cases t <;> rfl
  | samples =>
      refine h.still rfl rfl fun t => ?_
      cases t <;> rfl

theorem enter {op : Op} (hstep : FrontEnter m op m' ks) (hop : op ≠ .resetROIStats)
    (hinv : OrbInv .calm m) (h : Tallied [] m) : Tallied ks m' := by
  have hstill : ∀ {m' : Manager}, m'.orb = m.orb → admitted m'.log = admitted m.log →
      (∀ t : Tally, t.counter m'.stats = t.counter m.stats) → Tallied [] m' := by
    intro m' horb hadm hcount t
    have := h t
    rw [Tally.debt, horb, hcount, hadm]
    exact this
  cases hstep with
  | refused hop crbFull wbFull orbFull =>
      exact hstill rfl rfl fun t => by cases t <;> rfl
  | queued now hop hc hroom =>
      refine hstill rfl ?_ fun t => by cases t <;> rfl
      exact (admitted_append ..).trans (List.append_nil _)
  | @admitted _ w pkt now hop hc hwb horb =>
      refine h.arrive (hinv.lookup_none hc) rfl ?_ (fun _ => rfl) fun t => by cases t <;> rfl
      exact (admitted_append ..).trans (List.append_nil _)
  | operate =>
      intro t
      have := h t
      cases t <;> exact this
  | configured => exact h
  | statsReset => exact absurd rfl hop

end Tallied

/-! ## Runs -/

/-- `resetROIStats` would have changed nothing. -/
def Stats.Zero (st : Stats) : Prop := st = { warmupTagUpdates := st.warmupTagUpdates }

/-- Nothing is left to do. -/
structure Sys.Drained (s : Sys) : Prop where
  orb : s.dcm.orb = ∅
  crb : s.dcm.crb = []
  wb : s.dcm.wb = []
  far : s.dcm.pendingFarDispatches = []
  near : s.dcm.pendingNearDispatches = []
  responses : s.dcm.pendingResponses = []

instance (s : Sys) : Decidable s.Drained :=
  decidable_of_iff (s.dcm.orb.entries = [] ∧ s.dcm.crb = [] ∧ s.dcm.wb = [] ∧
      s.dcm.pendingFarDispatches = [] ∧ s.dcm.pendingNearDispatches = [] ∧
      s.dcm.pendingResponses = [])
    ⟨fun ⟨h₁, h₂, h₃, h₄, h₅, h₆⟩ => ⟨AList.ext h₁, h₂, h₃, h₄, h₅, h₆⟩,
      fun ⟨h₁, h₂, h₃, h₄, h₅, h₆⟩ => ⟨congrArg AList.entries h₁, h₂, h₃, h₄, h₅, h₆⟩⟩

/-- The write-backs drained and those in WB are those queued. -/
def WbCounted (m : Manager) : Prop := m.stats.farWrites + m.wb.length = m.stats.wbInsertions

/-- The two counters of the write-back path. -/
def Stats.writeBacks (st : Stats) : Nat × Nat := (st.farWrites, st.wbInsertions)

/-- Admission leaves the write-back counters alone. -/
theorem Manager.admitStats_writeBacks (m : Manager) (pkt : Packet) (w : Bool)
    (arr : Option Nat) (now : Nat) :
    (m.admitStats pkt w arr now).writeBacks = m.stats.writeBacks := by
  have hchoice : ∀ e st, ((Manager.initialChoice e).2 st).writeBacks = st.writeBacks := by
    intro e st
    unfold Manager.initialChoice
    split
    · rfl
    · split
      · rfl
      · split <;> rfl
  have hopp : ∀ e st, (Manager.countOpportunity e st).writeBacks = st.writeBacks := by
    intro e st
    unfold Manager.countOpportunity
    cases Manager.isWriteHit e <;> cases Manager.isCleanMiss e <;> cases e.pol <;> rfl
  have hclass : ∀ v d h w st, (Manager.countClass v d h w st).writeBacks = st.writeBacks := by
    intro v d h w st
    cases v <;> cases d <;> cases h <;> cases w <;> rfl
  rw [Manager.admitStats, hchoice, hopp, hclass]
  cases w <;> rfl

theorem WbCounted.congr {m m' : Manager} (h : WbCounted m)
    (hst : m'.stats.writeBacks = m.stats.writeBacks) (hwb : m'.wb = m.wb) : WbCounted m' := by
  obtain ⟨hf, hi⟩ := Prod.ext_iff.mp hst
  unfold WbCounted
  rw [hwb, show m'.stats.farWrites = _ from hf, show m'.stats.wbInsertions = _ from hi]
  exact h

theorem WbCounted.nearAnswered {m : Manager} (h : WbCounted m) (e : OrbEntry) (now : Nat) :
    WbCounted (m.nearAnswered e now) := by
  have h' : m.stats.farWrites + m.wb.length = m.stats.wbInsertions := h
  unfold WbCounted Manager.nearAnswered
  cases e.handleDirtyLine
  · exact h
  · simp only [if_true, Manager.pushDirtyWriteBack, Manager.emit, Manager.count,
      List.length_append, List.length_singleton]
    omega

theorem WbCounted.retire {m : Manager} (h : WbCounted m) (e : OrbEntry) (lat now : Nat) :
    WbCounted (m.retire e lat now) := by
  refine h.congr ?_ (by simp)
  rw [Manager.retire_stats, Manager.countRetired]
  split <;> rfl

theorem FrontStep.wbCounted {m m' : Manager} {c : Call} {ks : List Call}
    (h : FrontStep m c m' ks) (hp : WbCounted m) : WbCounted m' := by
  cases h with
  | @nearEnter side pkt e st now _ _ _ =>
      exact (WbCounted.nearAnswered (m := m.emit (.answered side e)) hp e now).congr rfl rfl
  | @nearHit side pkt e lat now _ _ _ _ =>
      exact (WbCounted.nearAnswered (m := m.emit (.answered side e)) hp e now).retire e lat now
  | @farDone side pkt e lat now _ _ =>
      exact WbCounted.retire (m := (m.emit (.answered side e)).farAnswered) hp e lat now
  | @complete a lat e now _ => exact hp.retire e lat now
  | @promote i w now _ =>
      refine hp.congr ?_ (Manager.admitEntry_wb ..)
      rw [Manager.admitEntry_stats, Manager.admitStats_writeBacks]
      rfl
  | @flag a i =>
      rcases m.flagConflict_eq a i with hf | ⟨e, -, hf⟩ <;> rw [hf] <;> exact hp
  | @drained front rest hwb =>
      have h' : m.stats.farWrites + m.wb.length = m.stats.wbInsertions := hp
      rw [hwb, List.length_cons] at h'
      change m.stats.farWrites + 1 + m.wb.tail.length = m.stats.wbInsertions
      rw [hwb, List.tail_cons]
      omega
  | responses clk =>
      obtain ⟨due, rest, -, hr⟩ := Manager.releaseResponses_eq clk m.pendingResponses m
      rw [Manager.processPendingResponses, hr]
      exact hp
  | _ => exact hp

def Event.isWarmed : Event → Bool
  | .warmed .. => true
  | _ => false

theorem Event.isWarmed_of_silent {ev : Event} (h : ev.isAdmission = false) :
    ev.isWarmed = false := by
  cases ev <;> first | rfl | exact h

/-- Past warm-up, what touches the tag store is what is admitted. -/
theorem Event.touched?_of_unwarmed {ev : Event} (h : ev.isWarmed = false) :
    ev.touched? = ev.admitted?.map OrbEntry.request := by
  cases ev <;> first | rfl | cases h

section Runs

variable {allow : Op → Prop} {ok : Worklist.Config Sys Call → Prop} {s₀ : Sys}

theorem tallied_of_reaches {x : Worklist.Config Sys Call}
    (hallow : ∀ op, allow op → op.Roi ∧ op ≠ .resetROIStats) (h₀ : s₀.Fresh)
    (hz : s₀.dcm.stats.Zero) (h : ReachesIf machine allow ok s₀ x) :
    Tallied x.1 x.2.dcm.core ∧ WbCounted x.2.dcm.core := by
  refine front_invariant (P := fun K m => Tallied K m ∧ WbCounted m)
    (I := fun K m => CalmTail K ∧ OrbInv (Ctl.of K) m) (fun op ha => (hallow op ha).1) h₀.live
    (fun x hx => orbInv_of_reaches (fun op ha => (hallow op ha).1) h₀ hx) ⟨?_, ?_⟩ ?_ ?_ h
  · intro t
    have hadm : admitted s₀.dcm.core.log = [] := (warmup_silent h₀.log).2
    have hst : t.counter s₀.dcm.core.stats = 0 := by
      change t.counter s₀.dcm.stats.core = 0
      rw [Tally.counter_core, hz]
      cases t <;> rfl
    have hd : t.debt s₀.dcm.core = 0 := by
      change ((values s₀.dcm.orb).map _).sum = 0
      rw [h₀.orb]
      rfl
    rw [hadm, hst, hd]
    rfl
  · change s₀.dcm.stats.farWrites + s₀.dcm.wb.length = s₀.dcm.stats.wbInsertions
    rw [hz, h₀.wb]
    rfl
  · intro op m m' ks ha hstep hinv hp
    refine ⟨hp.1.enter hstep (hallow op ha).2 hinv.2, ?_⟩
    cases hstep with
    | @admitted _ w pkt now hop hc hwb horb =>
        refine hp.2.congr ?_ (Manager.admitEntry_wb ..)
        rw [Manager.admitEntry_stats, Manager.admitStats_writeBacks]
        rfl
    | statsReset => exact absurd rfl (hallow _ ha).2
    | _ => exact hp.2
  · intro c K m m' ks hstep hinv hp
    exact ⟨hp.1.step hstep hinv.2, hstep.wbCounted hp.2⟩

/-- After warm-up, only admission touches the tag store. -/
theorem unwarmed_of_reaches {x : Worklist.Config Sys Call}
    (hroi : ∀ op, allow op → op.Roi) (h₀ : s₀.Fresh) (h : ReachesIf machine allow ok s₀ x) :
    ∃ evs, x.2.dcm.log = s₀.dcm.log ++ evs ∧ ∀ ev ∈ evs, ev.isWarmed = false := by
  have hmore : ∀ {m m' : Manager} {l : List Event}, m'.log = m.log ++ l →
      (∀ ev ∈ l, ev.isWarmed = false) →
      (∃ evs, m.log = s₀.dcm.log ++ evs ∧ ∀ ev ∈ evs, ev.isWarmed = false) →
      ∃ evs, m'.log = s₀.dcm.log ++ evs ∧ ∀ ev ∈ evs, ev.isWarmed = false := by
    rintro m m' l hlog hnew ⟨evs, hm, hevs⟩
    refine ⟨evs ++ l, by rw [hlog, hm, List.append_assoc], fun ev hev => ?_⟩
    rcases List.mem_append.mp hev with hev | hev
    · exact hevs ev hev
    · exact hnew ev hev
  refine front_invariant (I := fun _ _ => True)
    (P := fun _ m => ∃ evs, m.log = s₀.dcm.log ++ evs ∧ ∀ ev ∈ evs, ev.isWarmed = false)
    hroi h₀.live (fun _ _ => trivial) ⟨[], (List.append_nil _).symm, by simp⟩ ?_ ?_ h
  · intro op m m' ks _ hstep _ hp
    rcases hstep.silent_or_request with hs | ⟨w, pkt, now, -, ⟨-, rfl⟩ | ⟨-, rfl⟩⟩
    · obtain ⟨new, hlog, hnew⟩ := hs.log
      exact hmore hlog (fun ev hev => Event.isWarmed_of_silent (hnew ev hev)) hp
    · exact hmore (l := [.accepted w pkt]) rfl (by simp [Event.isWarmed]) hp
    · refine hmore (Manager.admitEntry_log ..) (by simp [Event.isWarmed])
        (hmore (m := m) (l := [.accepted w pkt]) rfl (by simp [Event.isWarmed]) hp)
  · intro c K m m' ks hstep _ hp
    rcases hstep.silent_or_promote with hs | ⟨i, w, now, -, -, rfl⟩
    · obtain ⟨new, hlog, hnew⟩ := hs.log
      exact hmore hlog (fun ev hev => Event.isWarmed_of_silent (hnew ev hev)) hp
    · exact hmore (m := m.takeWaiter i) (Manager.admitEntry_log ..)
        (by simp [Event.isWarmed]) hp

end Runs

/-! ## Outcomes are decided index by index -/

/-- What a slot finds out about a sequence of requests. -/
def TagEntry.outcomes : TagEntry → List Request → List Outcome
  | _, [] => []
  | t, r :: rs => t.outcome r :: (t.touch r).outcomes rs

theorem TagEntry.outcomes_concat (rs : List Request) (r : Request) : ∀ t : TagEntry,
    t.outcomes (rs ++ [r]) = t.outcomes rs ++ [(t.after rs).outcome r] := by
  induction rs with
  | nil => exact fun t => rfl
  | cons r' rs ih =>
      intro t
      rw [List.cons_append, outcomes, ih]
      rfl

/-- Slots look at addresses and at who writes, at nothing else. -/
theorem TagEntry.outcomes_congr : ∀ {rs rs' : List Request} (t : TagEntry),
    rs.map Request.access = rs'.map Request.access →
      t.outcomes rs = t.outcomes rs' ∧ t.after rs = t.after rs'
  | [], [], _, _ => ⟨rfl, rfl⟩
  | [], _ :: _, _, h => by simp at h
  | _ :: _, [], _, h => by simp at h
  | r :: rs, r' :: rs', t, h => by
      obtain ⟨hr, hrs⟩ := List.cons_eq_cons.mp h
      obtain ⟨hw, ha⟩ := Prod.ext_iff.mp hr
      have hw : r.1 = r'.1 := hw
      have ha : r.2.address = r'.2.address := ha
      have htouch : t.touch r = t.touch r' := by
        simp only [touch, Request.indexDC, hw, ha]
      have hout : t.outcome r = t.outcome r' := by simp only [outcome, hw, ha]
      obtain ⟨hos, hts⟩ := outcomes_congr (t.touch r) hrs
      refine ⟨?_, ?_⟩
      · rw [outcomes, outcomes, hout, hos, htouch]
      · change (t.touch r).after rs = (t.touch r').after rs'
        rw [hts, htouch]

/-- Without warm-up, the requests touching an index are those admitted. -/
theorem touched_unwarmed {evs : List Event} (h : ∀ ev ∈ evs, ev.isWarmed = false) :
    touched evs = admittedRequests evs := by
  rw [touched, admittedRequests, admitted, List.map_filterMap]
  exact List.filterMap_congr fun ev hev => Event.touched?_of_unwarmed (h ev hev)

/-- The entries of an index were admitted with the outcomes of its slot. -/
theorem Tracks.outcomesAt {t₀ : Nat → TagEntry} (i : Nat) {evs : List Event} :
    (∀ pre e post, evs = pre ++ .admitted e :: post → e.outcome
      = ((t₀ e.request.indexDC).after (touchedAt e.request.indexDC pre)).outcome e.request) →
    (∀ ev ∈ evs, ev.isWarmed = false) →
      (restrict (fun e => e.request.indexDC) i (admitted evs)).map OrbEntry.outcome
        = (t₀ i).outcomes (touchedAt i evs) := by
  induction evs using List.reverseRecOn with
  | nil => exact fun _ _ => rfl
  | append_singleton evs ev ih =>
      intro hout hwarm
      have ih := ih
        (fun pre e post h => hout pre e (post ++ [ev]) (by rw [h]; simp))
        fun ev' h' => hwarm ev' (List.mem_append_left _ h')
      rw [admitted_append, touchedAt, touched_append, Keyed.restrict_append,
        Keyed.restrict_append, List.map_append, ih]
      have htouch := Event.touched?_of_unwarmed (hwarm ev (by simp))
      cases hev : ev.admitted? with
      | none =>
          have hadm : admitted [ev] = [] := by simp [admitted, hev]
          have ht : touched [ev] = [] := by simp [touched, htouch, hev]
          rw [hadm, ht, Keyed.restrict_nil, Keyed.restrict_nil, List.append_nil]
          exact List.append_nil _
      | some e =>
          obtain rfl : ev = .admitted e := by cases ev <;> cases hev; rfl
          have hadm : admitted [.admitted e] = [e] := rfl
          have ht : touched [.admitted e] = [e.request] := rfl
          rw [hadm, ht]
          by_cases hi : e.request.indexDC = i
          · subst hi
            rw [Keyed.restrict_cons_self (fun e : OrbEntry => e.request.indexDC) rfl,
              Keyed.restrict_cons_self Request.indexDC rfl, Keyed.restrict_nil,
              Keyed.restrict_nil, List.map_singleton, hout evs e [] rfl,
              TagEntry.outcomes_concat]
            rfl
          · rw [Keyed.restrict_cons_ne (fun e : OrbEntry => e.request.indexDC) hi,
              Keyed.restrict_cons_ne Request.indexDC hi, Keyed.restrict_nil,
              Keyed.restrict_nil, List.append_nil]
            exact List.append_nil _

/-! ## Two runs -/

section TwoRuns

variable {allow : Op → Prop} {s₀ s : Sys}

/-- In a run past warm-up, the slot of an index and the outcomes of its
requests are those of the requests admitted. -/
theorem slot_of_reaches (hroi : ∀ op, allow op → op.Roi) (h₀ : s₀.Fresh)
    (h : Reaches machine allow s₀ ([], s)) (i : Nat) :
    s.dcm.tagMetadataStore i = (s₀.dcm.tagMetadataStore i).after
      (restrict Request.indexDC i (admittedRequests s.dcm.log)) ∧
    (restrict (fun e => e.request.indexDC) i (admitted s.dcm.log)).map OrbEntry.outcome
      = (s₀.dcm.tagMetadataStore i).outcomes
        (restrict Request.indexDC i (admittedRequests s.dcm.log)) := by
  obtain ⟨evs, hlog, ht⟩ := tracks_of_reaches h
  obtain ⟨evs', hlog', hw⟩ := unwarmed_of_reaches hroi h₀ h
  obtain rfl : evs = evs' := List.append_cancel_left (hlog.symm.trans hlog')
  have hadm : admitted s.dcm.log = admitted evs := by
    have : s.dcm.log = s₀.dcm.log ++ evs := hlog
    rw [this, admitted_append, (warmup_silent h₀.log).2, List.nil_append]
  have hat : touchedAt i evs = restrict Request.indexDC i (admittedRequests s.dcm.log) := by
    rw [touchedAt, touched_unwarmed hw, admittedRequests, admittedRequests, hadm]
  rw [hadm, ← hat]
  exact ⟨ht.tags i, Tracks.outcomesAt i ht.outcomes hw⟩

/-- A drained system has counted every request it accepted. -/
theorem drained_tally (hallow : ∀ op, allow op → op.Roi ∧ op ≠ .resetROIStats)
    (h₀ : s₀.Fresh) (hz : s₀.dcm.stats.Zero) (h : Reaches machine allow s₀ ([], s))
    (hd : s.Drained) (t : Tally) :
    t.counter s.dcm.stats = (admitted s.dcm.log).countP fun e => t.counts e.outcome := by
  have ht := (tallied_of_reaches hallow h₀ hz h).1 t
  have hdebt : t.debt s.dcm.core = 0 := by
    change ((values s.dcm.orb).map _).sum = 0
    rw [hd.orb]
    rfl
  have hcore : t.counter s.dcm.core.stats = t.counter s.dcm.stats := t.counter_core _
  rw [hdebt, hcore] at ht
  exact ht

/-- A drained system has admitted what it accepted. -/
theorem drained_admitted (hroi : ∀ op, allow op → op.Roi) (h₀ : s₀.Fresh)
    (h : Reaches machine allow s₀ ([], s)) (hd : s.Drained) (i : Nat) :
    restrict Request.indexDC i (accepted s.dcm.log)
      = restrict Request.indexDC i (admittedRequests s.dcm.log) := by
  have hfifo := indexFifo_of_reaches hroi h₀ h i
  have hwait : s.dcm.core.waiting = [] := by
    change s.dcm.crb.map _ = []
    rw [hd.crb]
    rfl
  rw [hwait, Keyed.restrict_nil, List.append_nil] at hfifo
  exact hfifo

end TwoRuns

/-- **Neither policy nor timing shows in the outcome.** Two drained runs
from the same tag store and zero counters, whose accepted requests agree
index by index in address and direction, end with the same tag store, the
same hit and miss counters, the same far reads, near writes and
write-backs, and the same number of tag checks made or avoided. -/
theorem outcome_independent {allow : Op → Prop} {s₁ s₂ x₁ x₂ : Sys}
    (hops : ∀ op, allow op → op.Roi ∧ op ≠ .resetROIStats) (h₁ : s₁.Fresh) (h₂ : s₂.Fresh)
    (hz₁ : s₁.dcm.stats.Zero) (hz₂ : s₂.dcm.stats.Zero)
    (htags : s₁.dcm.tagMetadataStore = s₂.dcm.tagMetadataStore)
    (hr₁ : Reaches machine allow s₁ ([], x₁)) (hr₂ : Reaches machine allow s₂ ([], x₂))
    (hsame : ∀ i,
      (restrict Request.indexDC i (accepted x₁.dcm.log)).map Request.access
        = (restrict Request.indexDC i (accepted x₂.dcm.log)).map Request.access)
    (hd₁ : x₁.Drained) (hd₂ : x₂.Drained) :
    x₁.dcm.tagMetadataStore = x₂.dcm.tagMetadataStore ∧
    x₁.dcm.stats.numTotHits = x₂.dcm.stats.numTotHits ∧
    x₁.dcm.stats.numTotMisses = x₂.dcm.stats.numTotMisses ∧
    x₁.dcm.stats.numColdMisses = x₂.dcm.stats.numColdMisses ∧
    x₁.dcm.stats.numHotMisses = x₂.dcm.stats.numHotMisses ∧
    x₁.dcm.stats.numRdHit = x₂.dcm.stats.numRdHit ∧
    x₁.dcm.stats.numWrHit = x₂.dcm.stats.numWrHit ∧
    x₁.dcm.stats.numRdMissClean = x₂.dcm.stats.numRdMissClean ∧
    x₁.dcm.stats.numRdMissDirty = x₂.dcm.stats.numRdMissDirty ∧
    x₁.dcm.stats.numWrMissClean = x₂.dcm.stats.numWrMissClean ∧
    x₁.dcm.stats.numWrMissDirty = x₂.dcm.stats.numWrMissDirty ∧
    x₁.dcm.stats.farReads = x₂.dcm.stats.farReads ∧
    x₁.dcm.stats.localWrites = x₂.dcm.stats.localWrites ∧
    x₁.dcm.stats.wbInsertions = x₂.dcm.stats.wbInsertions ∧
    x₁.dcm.stats.farWrites = x₂.dcm.stats.farWrites ∧
    x₁.dcm.stats.localReads + x₁.dcm.stats.localTagCheckReadsAvoided
      = x₂.dcm.stats.localReads + x₂.dcm.stats.localTagCheckReadsAvoided := by
  have hroi : ∀ op, allow op → op.Roi := fun op ha => (hops op ha).1
  have hadm : ∀ i,
      (restrict Request.indexDC i (admittedRequests x₁.dcm.log)).map Request.access
        = (restrict Request.indexDC i (admittedRequests x₂.dcm.log)).map Request.access := by
    intro i
    rw [← drained_admitted hroi h₁ hr₁ hd₁, ← drained_admitted hroi h₂ hr₂ hd₂]
    exact hsame i
  have hslots := fun i =>
    TagEntry.outcomes_congr (s₁.dcm.tagMetadataStore i) (hadm i)
  -- index by index the same outcomes, so the same outcomes in some order
  have hperm : ((admitted x₁.dcm.log).map OrbEntry.outcome).Perm
      ((admitted x₂.dcm.log).map OrbEntry.outcome) := by
    refine Keyed.perm_map_of_restrict_eq (fun e => e.request.indexDC) _ fun i => ?_
    rw [(slot_of_reaches hroi h₁ hr₁ i).2, (slot_of_reaches hroi h₂ hr₂ i).2, ← htags]
    exact (hslots i).1
  have htally : ∀ t : Tally, t.counter x₁.dcm.stats = t.counter x₂.dcm.stats := by
    intro t
    rw [drained_tally hops h₁ hz₁ hr₁ hd₁, drained_tally hops h₂ hz₂ hr₂ hd₂]
    have := hperm.countP_eq t.counts
    rw [List.countP_map, List.countP_map] at this
    exact this
  have hwb : ∀ {s x : Sys}, s.Fresh → s.dcm.stats.Zero → Reaches machine allow s ([], x) →
      x.Drained → x.dcm.stats.farWrites = x.dcm.stats.wbInsertions := by
    intro s x hs hz hr hd
    have hc : x.dcm.stats.farWrites + x.dcm.wb.length = x.dcm.stats.wbInsertions :=
      (tallied_of_reaches hops hs hz hr).2
    rwa [hd.wb] at hc
  refine ⟨?_, htally .numTotHits, htally .numTotMisses, htally .numColdMisses,
    htally .numHotMisses, htally .numRdHit, htally .numWrHit, htally .numRdMissClean,
    htally .numRdMissDirty, htally .numWrMissClean, htally .numWrMissDirty, htally .farReads,
    htally .localWrites, htally .wbInsertions, ?_, htally .tagChecks⟩
  · funext i
    rw [(slot_of_reaches hroi h₁ hr₁ i).1, (slot_of_reaches hroi h₂ hr₂ i).1, ← htags]
    exact (hslots i).2
  · rw [hwb h₁ hz₁ hr₁ hd₁, hwb h₂ hz₂ hr₂ hd₂]
    exact htally .wbInsertions

/-- A read miss and a write hit under the baseline and under Oracle. -/
theorem outcome_independent_two_policies :
    let ops := [.addRq (.readOf 5), .operate, .addWq (.readOf 5), .operate, .operate, .operate]
    ∃ x₁ x₂, Worklist.drive machine 60 ops (.cold .baselineCascadeLake 0) = some x₁ ∧
      Worklist.drive machine 60 ops (.cold .oracle 0) = some x₂ ∧
      x₁.dcm.tagMetadataStore = x₂.dcm.tagMetadataStore := by
  intro ops
  have hops : ∀ op ∈ ops, op.Roi ∧ op ≠ .resetROIStats := by
    simp [ops, Op.Roi]
  have hrun : ∀ pol, (Worklist.drive machine 60 ops (.cold pol 0)).any (fun s =>
      decide s.Drained && decide ((accepted s.dcm.log).map Request.access
        = [(false, 5), (true, 5)])) = true →
      ∃ x, Worklist.drive machine 60 ops (.cold pol 0) = some x ∧
        Reaches machine (fun op => op.Roi ∧ op ≠ .resetROIStats) (.cold pol 0) ([], x) ∧ x.Drained ∧
        (accepted x.dcm.log).map Request.access = [(false, 5), (true, 5)] := by
    intro pol h
    obtain ⟨x, hx, hp⟩ := (Option.any_eq_true ..).mp h
    simp only [Bool.and_eq_true, decide_eq_true_eq] at hp
    exact ⟨x, hx, Worklist.drive_reaches hops .refl hx, hp⟩
  obtain ⟨x₁, hx₁, hr₁, hd₁, ha₁⟩ := hrun .baselineCascadeLake (by decide +kernel)
  obtain ⟨x₂, hx₂, hr₂, hd₂, ha₂⟩ := hrun .oracle (by decide +kernel)
  refine ⟨x₁, x₂, hx₁, hx₂, (outcome_independent (fun _ h => h)
    (Sys.cold_fresh .baselineCascadeLake 0) (Sys.cold_fresh .oracle 0) rfl rfl rfl hr₁ hr₂
    (fun i => ?_) hd₁ hd₂).1⟩
  rw [← restrict_access, ← restrict_access, ha₁, ha₂]

end DramCache
