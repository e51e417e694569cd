import Mathlib.Algebra.BigOperators.Group.Multiset.Basic
import Mathlib.Algebra.Order.BigOperators.Group.List
import Mathlib.Algebra.Order.BigOperators.Group.Multiset
import DramCache.Delivery
import DramCache.Ledger
import DramCache.Traffic
import DramCache.WriteBack

/-!
# Table II, request by request

Which near and far operations a request costs is decided at its
admission: `OrbEntry.tableTwo` lists them, from the entry as classified.
`OrbEntry.remaining` lists those still to come in a state. For each
operation the table, the log and the ORB are a ledger, so a request that
has finished has issued its row of the table and nothing else, whatever
happened in between.
-/

namespace DramCache

open Worklist (ReachesIf Reaches)

/-- The kinds of operation Table II counts. -/
inductive SubOp where
  | localRead
  | farRead
  | localWrite
  | farWrite
deriving DecidableEq

/-- An operation on a line, on behalf of a request. -/
structure Issue where
  requestId : Nat
  op : SubOp
  line : Nat
deriving DecidableEq

def Event.issue? : Event → Option Issue
  | .handNear r _ pkt w => some ⟨r, if w then .localWrite else .localRead, pkt.address⟩
  | .handFar (some r) pkt false => some ⟨r, .farRead, pkt.address⟩
  | .wbQueued r a => some ⟨r, .farWrite, a⟩
  | _ => none

/-- The operations issued, a far write where its line is queued in WB. -/
def issues (log : List Event) : List Issue := log.filterMap Event.issue?

theorem issues_append (l₁ l₂ : List Event) : issues (l₁ ++ l₂) = issues l₁ ++ issues l₂ :=
  List.filterMap_append ..

namespace OrbEntry

variable (e : OrbEntry)

/-- A line to write back: a miss over a valid dirty victim. -/
def evicts : Bool := !e.isHit && e.victimWasValid && e.victimWasDirty

/-- The policy saves the tag-check read. -/
def skipsTagCheck : Bool :=
  match e.pol with
  | .baselineCascadeLake => false
  | .bearWrOpt => e.isWriteReq && e.isHit
  | .oracle => e.isWriteReq && e.isHit || !e.isHit && !e.evicts

/-- The row of Table II. -/
def tableTwo : List Issue :=
  (if e.skipsTagCheck then [] else [⟨e.requestId, .localRead, e.pkt.address⟩])
    ++ (if !e.isWriteReq && !e.isHit then [⟨e.requestId, .farRead, e.pkt.address⟩] else [])
    ++ (if e.isWriteReq || !e.isHit then [⟨e.requestId, .localWrite, e.pkt.address⟩] else [])
    ++ (if e.evicts then [⟨e.requestId, .farWrite, e.victimFarAddr⟩] else [])

/-- The operations still to be issued in a state. -/
def remaining : List Issue :=
  (if e.state = .locMemRead then [⟨e.requestId, .localRead, e.pkt.address⟩] else [])
    ++ (if !e.isWriteReq && !e.isHit && decide (e.state ≠ .waitingFarMemReadResp) then
        [⟨e.requestId, .farRead, e.pkt.address⟩] else [])
    ++ (if if e.isWriteReq then decide (e.state ≠ .waitingLocMemWriteResp) else !e.isHit then
        [⟨e.requestId, .localWrite, e.pkt.address⟩] else [])
    ++ (if e.handleDirtyLine
          && (decide (e.state = .locMemRead) || decide (e.state = .waitingLocMemReadResp)) then
        [⟨e.requestId, .farWrite, e.dirtyLineAddr⟩] else [])

end OrbEntry

namespace Manager

/-- The policies save the tag-check read where Table II says so. -/
theorem initialChoice_locMemRead (e : OrbEntry) :
    decide ((initialChoice e).1 = .locMemRead) = !e.skipsTagCheck := by
  cases hp : e.pol <;> cases hw : e.isWriteReq <;> cases hh : e.isHit <;>
    cases hv : e.victimWasValid <;> cases hd : e.victimWasDirty <;>
    simp [initialChoice, isWriteHit, isCleanMiss, OrbEntry.skipsTagCheck, OrbEntry.evicts, hp, hw,
      hh, hv, hd]

/-- An admitted request has its whole row before it. -/
theorem admittedEntry_remaining (m : Manager) (pkt : Packet) (w : Bool) (arr : Option Nat)
    (now : Nat) : (m.admittedEntry pkt w arr now).remaining
      = (m.admittedEntry pkt w arr now).tableTwo := by
  have hstate : decide ((m.admittedEntry pkt w arr now).state = .locMemRead)
      = !(m.admittedEntry pkt w arr now).skipsTagCheck :=
    initialChoice_locMemRead (m.admittedEntry pkt w arr now)
  have hdrive : (m.admittedEntry pkt w arr now).state.drivable = true := initialChoice_drivable _
  obtain ⟨hhandle, haddr⟩ := m.admittedEntry_evicts pkt w arr now
  generalize m.admittedEntry pkt w arr now = e at *
  have hfar : e.state ≠ .waitingFarMemReadResp := fun hs => by
    rw [hs] at hdrive
    cases hdrive
  have hwritten : e.state ≠ .waitingLocMemWriteResp := fun hs => by
    rw [hs] at hdrive
    cases hdrive
  have hnear : e.state ≠ .waitingLocMemReadResp := fun hs => by
    rw [hs] at hdrive
    cases hdrive
  have hevicts : e.handleDirtyLine = e.evicts := by
    rw [hhandle, OrbEntry.evicts]
    cases e.isHit <;> cases e.victimWasValid <;> cases e.victimWasDirty <;> rfl
  have hread : (if e.state = .locMemRead then
      [(⟨e.requestId, .localRead, e.pkt.address⟩ : Issue)] else [])
      = if e.skipsTagCheck then [] else [⟨e.requestId, .localRead, e.pkt.address⟩] := by
    cases hk : e.skipsTagCheck <;> simp_all
  have hwrite : (if e.isWriteReq then decide (e.state ≠ .waitingLocMemWriteResp) else !e.isHit)
      = (e.isWriteReq || !e.isHit) := by
    cases e.isWriteReq <;> simp [hwritten]
  have hvictim : (if e.handleDirtyLine
      && (decide (e.state = .locMemRead) || decide (e.state = .waitingLocMemReadResp)) then
        [(⟨e.requestId, .farWrite, e.dirtyLineAddr⟩ : Issue)] else [])
      = if e.evicts then [⟨e.requestId, .farWrite, e.victimFarAddr⟩] else [] := by
    rw [← hevicts]
    cases hd : e.handleDirtyLine
    · rfl
    · obtain ⟨ha, hs⟩ := haddr hd
      rw [ha]
      simp [hs]
  unfold OrbEntry.remaining OrbEntry.tableTwo
  rw [hread, hwrite, hvictim]
  simp [hfar]

end Manager

namespace Issue

variable (p : Issue)

/-- The account of one operation. -/
def ledger : Ledger where
  balance m := (((admitted m.log).flatMap OrbEntry.tableTwo).count p : ℤ) - (issues m.log).count p
  owes e := e.remaining.count p
  fill rid pkt := [(⟨rid, .localWrite, pkt.address⟩ : Issue)].count p

/-- Events that are neither an admission nor an operation. -/
theorem balance_append {m m' : Manager} {evs : List Event} (hlog : m'.log = m.log ++ evs)
    (hadm : admitted evs = []) : p.ledger.balance m'
      = p.ledger.balance m - (issues evs).count p := by
  show (((admitted m'.log).flatMap OrbEntry.tableTwo).count p : ℤ) - (issues m'.log).count p = _
  rw [hlog, admitted_append, hadm, List.append_nil, issues_append, List.count_append]
  simp only [ledger]
  omega

theorem balance_same {m m' : Manager} (hlog : m'.log = m.log) :
    p.ledger.balance m' = p.ledger.balance m := by
  show (((admitted m'.log).flatMap OrbEntry.tableTwo).count p : ℤ) - (issues m'.log).count p = _
  rw [hlog]
  rfl

theorem balance_admitEntry (m : Manager) (pkt : Packet) (w : Bool) (arr : Option Nat)
    (now : Nat) : p.ledger.balance (m.admitEntry pkt w arr now)
      = p.ledger.balance m + p.ledger.owes (m.admittedEntry pkt w arr now) := by
  have hadm : admitted (m.admitEntry pkt w arr now).log
      = admitted m.log ++ [m.admittedEntry pkt w arr now] := admitted_append ..
  have hissues : issues (m.admitEntry pkt w arr now).log = issues m.log :=
    (issues_append ..).trans (List.append_nil _)
  show (((admitted (m.admitEntry pkt w arr now).log).flatMap OrbEntry.tableTwo).count p : ℤ)
    - (issues (m.admitEntry pkt w arr now).log).count p
    = p.ledger.balance m + ((m.admittedEntry pkt w arr now).remaining.count p : ℤ)
  rw [hadm, hissues, List.flatMap_append, List.count_append, Manager.admittedEntry_remaining,
    List.flatMap_singleton]
  simp only [ledger]
  omega

/-! ### What each piece issues -/

theorem issues_victimEvents (e : OrbEntry) : issues (Manager.victimEvents e)
    = if e.handleDirtyLine then [⟨e.requestId, .farWrite, e.dirtyLineAddr⟩] else [] := by
  unfold Manager.victimEvents
  split <;> rfl

theorem issues_retired (e : OrbEntry) (lat now : Nat) :
    issues (.retired e now :: Manager.respondNow e lat now) = [] :=
  List.filterMap_eq_nil_iff.mpr fun ev hev => by
    rcases List.mem_cons.mp hev with rfl | hev
    · rfl
    · obtain ⟨port, rfl⟩ := Manager.mem_respondNow hev
      rfl

theorem answered_append (m : Manager) (side : Side) (e : OrbEntry) (now : Nat) :
    ((m.emit (.answered side e)).nearAnswered e now).log
      = m.log ++ (.answered side e :: Manager.victimEvents e) := by
  simp [Manager.emit]

/-- A near response issues the write-back of the victim, if there is one. -/
theorem balance_answered (m : Manager) (side : Side) (e : OrbEntry) (now : Nat) :
    p.ledger.balance ((m.emit (.answered side e)).nearAnswered e now) = p.ledger.balance m
      - (if e.handleDirtyLine then
          [(⟨e.requestId, .farWrite, e.dirtyLineAddr⟩ : Issue)] else []).count p := by
  have hadm : admitted (.answered side e :: Manager.victimEvents e) = [] :=
    admitted_silent fun ev hev => by
      rcases List.mem_cons.mp hev with rfl | hev
      · rfl
      · exact victimEvents_silent ev hev
  have hissues : issues (.answered side e :: Manager.victimEvents e)
      = issues (Manager.victimEvents e) := rfl
  rw [p.balance_append (answered_append m side e now) hadm, hissues, issues_victimEvents]

theorem balance_retire (m : Manager) (e : OrbEntry) (lat now : Nat) :
    p.ledger.balance (m.retire e lat now) = p.ledger.balance m := by
  rw [p.balance_append (Manager.retire_log ..) (admitted_silent retired_silent), issues_retired]
  simp

/-- An operation is issued by one event. -/
theorem balance_issue {m m' : Manager} {ev : Event} {q : Issue} (hlog : m'.log = m.log ++ [ev])
    (hev : ev.issue? = some q) : p.ledger.balance m' = p.ledger.balance m - [q].count p := by
  have hadm : admitted [ev] = [] := by cases ev <;> first | rfl | cases hev
  have hissues : issues [ev] = [q] := by simp [issues, hev]
  rw [p.balance_append hlog hadm, hissues]

theorem balance_silent {m m' : Manager} {ev : Event} (hlog : m'.log = m.log ++ [ev])
    (hadm : ev.admitted? = none) (hev : ev.issue? = none) :
    p.ledger.balance m' = p.ledger.balance m := by
  have hadm : admitted [ev] = [] := by simp [admitted, hadm]
  have hissues : issues [ev] = [] := by simp [issues, hev]
  rw [p.balance_append hlog hadm, hissues]
  simp

theorem fair : p.ledger.Fair where
  still _ hlog _ _ := p.balance_same hlog
  aside ha := by
    obtain ⟨evs, hlog, hevs⟩ := ha.log
    have hadm : admitted evs = [] := List.filterMap_eq_nil_iff.mpr fun ev hev => by
      have := hevs ev hev
      cases ev <;> first | rfl | cases this
    have hissues : issues evs = [] := List.filterMap_eq_nil_iff.mpr fun ev hev => by
      have := hevs ev hev
      cases ev with
      | handFar r pkt w => cases r <;> first | rfl | cases this
      | _ => first | rfl | cases this
    rw [p.balance_append hlog hadm, hissues]
    simp
  untracked m side a := p.balance_silent rfl rfl rfl
  stray m side e := p.balance_silent rfl rfl rfl
  bypassed m pkt now := by
    have hadm : admitted (Manager.upcalls .bypass pkt now) = [] := admitted_silent upcalls_silent
    have hissues : issues (Manager.upcalls .bypass pkt now) = [] :=
      List.filterMap_eq_nil_iff.mpr fun ev hev => by
        obtain ⟨port, rfl⟩ := Manager.mem_upcalls hev
        rfl
    have hbal : p.ledger.balance (m.bypassAnswered pkt now) = p.ledger.balance m
        - (issues (Manager.upcalls .bypass pkt now)).count p := p.balance_append rfl hadm
    rw [hbal, hissues]
    simp
  nearEnter m side now e st hs hst := by
    have henter : p.ledger.balance
        (((m.emit (.answered side e)).nearAnswered e now).enterState e st)
        = p.ledger.balance ((m.emit (.answered side e)).nearAnswered e now) :=
      p.balance_same rfl
    rw [henter, balance_answered]
    rcases hst with ⟨rfl, hw⟩ | ⟨rfl, hw, hh⟩
    · simp only [ledger, OrbEntry.remaining, hs, hw, List.count_append, Int.natCast_add]
      simp
    · simp only [ledger, OrbEntry.remaining, hs, hw, hh, List.count_append, Int.natCast_add]
      simp
  nearHit m side lat now e hs hw hh := by
    rw [balance_retire, balance_answered]
    simp only [ledger, OrbEntry.remaining, hs, hw, hh, List.count_append, Int.natCast_add]
    simp
  farDone m side lat now e hs hw hh := by
    have hanswered : p.ledger.balance (m.emit (.answered side e)).farAnswered
        = p.ledger.balance m := p.balance_silent rfl rfl rfl
    rw [balance_retire, hanswered]
    simp only [ledger, OrbEntry.remaining, hs, hw, hh, List.count_append, Int.natCast_add]
    simp [Manager.subRequest]
  readNear m now e hs := by
    have hbal : p.ledger.balance (m.readNear e now) = p.ledger.balance m
        - [(⟨e.requestId, .localRead, e.pkt.address⟩ : Issue)].count p := p.balance_issue rfl rfl
    rw [hbal]
    simp only [ledger, OrbEntry.remaining, hs, List.count_append, Int.natCast_add]
    simp
    omega
  readFar m now e hs hw hh := by
    have hbal : p.ledger.balance (m.readFar e now) = p.ledger.balance m
        - [(⟨e.requestId, .farRead, e.pkt.address⟩ : Issue)].count p := p.balance_issue rfl rfl
    rw [hbal]
    simp only [ledger, OrbEntry.remaining, hs, hw, hh, List.count_append, Int.natCast_add]
    simp
    omega
  writeNear m now e hs hw := by
    have hbal : p.ledger.balance (m.writeNear e now) = p.ledger.balance m
        - [(⟨e.requestId, .localWrite, e.pkt.address⟩ : Issue)].count p := p.balance_issue rfl rfl
    rw [hbal]
    simp only [ledger, OrbEntry.remaining, hs, hw, List.count_append, Int.natCast_add]
    simp
  complete m lat now e hs hw := by
    rw [balance_retire]
    simp only [ledger, OrbEntry.remaining, hs, hw, List.count_append, Int.natCast_add]
    simp
  promote m i now c hw := p.balance_admitEntry ..
  flag e := rfl
  fillNear m rid i pkt := by
    have hbal : p.ledger.balance (m.fillNear rid i pkt) = p.ledger.balance m
        - [(⟨rid, .localWrite, pkt.address⟩ : Issue)].count p := p.balance_issue rfl rfl
    rw [hbal]
    exact Int.sub_add_cancel ..
  drained hwb := p.balance_silent rfl rfl rfl
  responses m clk := by
    obtain ⟨due, rest, -, hr⟩ := Manager.releaseResponses_eq clk m.pendingResponses m
    have hresponse : ∀ ev ∈ due.flatMap fun r =>
        Manager.upcalls .response r.pkt (clk.cycle r.pkt.cpu),
        ev.admitted? = none ∧ ev.issue? = none := by
      intro ev hev
      obtain ⟨r, -, hev⟩ := List.mem_flatMap.mp hev
      obtain ⟨port, rfl⟩ := Manager.mem_upcalls hev
      exact ⟨rfl, rfl⟩
    rw [Manager.processPendingResponses, hr, p.balance_append (m := m) rfl
      (List.filterMap_eq_nil_iff.mpr fun ev hev => (hresponse ev hev).1)]
    rw [issues, List.filterMap_eq_nil_iff.mpr fun ev hev => (hresponse ev hev).2]
    simp
  samples m := p.balance_same rfl
  refused m a b c := p.balance_same rfl
  queued m pkt w now := p.balance_silent rfl rfl rfl
  admitted m pkt w now := by
    rw [balance_admitEntry, p.balance_silent (m := m) rfl rfl rfl]

end Issue

/-! ## One number, one request -/

/-- Admissions number the requests in turn. -/
def Manager.Numbers (m m' : Manager) : Prop :=
  admitted m'.log = admitted m.log ∧ m'.nextRequestId = m.nextRequestId ∨
  ∃ e, admitted m'.log = admitted m.log ++ [e] ∧ e.requestId = m.nextRequestId ∧
    m'.nextRequestId = m.nextRequestId + 1

theorem FrontStep.numbers {m m' : Manager} {c : Call} {ks : List Call}
    (h : FrontStep m c m' ks) : m.Numbers m' := by
  have hadm := h.admitted_eq
  cases h with
  | @promote i w now _ =>
      refine .inr ⟨(m.takeWaiter i).admittedEntry w.pkt w.isWriteReq (some w.arrivalCycle) now, ?_,
        Manager.admittedEntry_requestId .., Manager.admitEntry_nextRequestId ..⟩
      rw [Manager.admitEntry_log, admitted_append]
      rfl
  | nearEnter now => exact .inl ⟨hadm (by simp), by simp [Manager.enterState, Manager.emit]⟩
  | nearHit lat now => exact .inl ⟨hadm (by simp), by simp [Manager.emit]⟩
  | farDone lat now =>
      exact .inl ⟨hadm (by simp), by simp [Manager.emit, Manager.farAnswered, Manager.count]⟩
  | complete now => exact .inl ⟨hadm (by simp), by simp⟩
  | @flag a i =>
      rcases m.flagConflict_eq a i with hf | ⟨e, -, hf⟩ <;> rw [hf] <;> exact .inl ⟨rfl, rfl⟩
  | responses clk =>
      refine .inl ⟨hadm (by simp), ?_⟩
      obtain ⟨due, rest, -, hr⟩ := Manager.releaseResponses_eq clk m.pendingResponses m
      rw [Manager.processPendingResponses, hr]
  | quiet | promoteNone => exact .inl ⟨rfl, rfl⟩
  | _ => exact .inl ⟨hadm (by simp), rfl⟩

theorem FrontEnter.numbers {m m' : Manager} {op : Op} {ks : List Call}
    (h : FrontEnter m op m' ks) : m.Numbers m' := by
  cases h with
  | @admitted _ w pkt now =>
      refine .inr ⟨(m.emit (.accepted w pkt)).admittedEntry pkt w none now, ?_,
        Manager.admittedEntry_requestId .., Manager.admitEntry_nextRequestId ..⟩
      have hacc : DramCache.admitted (m.emit (.accepted w pkt)).log = DramCache.admitted m.log :=
        (admitted_append ..).trans (List.append_nil _)
      rw [Manager.admitEntry_log, admitted_append, hacc]
      rfl
  | queued now => exact .inl ⟨(admitted_append ..).trans (List.append_nil _), rfl⟩
  | _ => exact .inl ⟨rfl, rfl⟩

/-- No two requests have one number. -/
structure Manager.Numbered (m : Manager) : Prop where
  below : ∀ e ∈ admitted m.log, e.requestId < m.nextRequestId
  nodup : ((admitted m.log).map OrbEntry.requestId).Nodup

theorem Manager.Numbered.step {m m' : Manager} (h : m.Numbered) (hn : m.Numbers m') :
    m'.Numbered := by
  rcases hn with ⟨hadm, hnext⟩ | ⟨e, hadm, hid, hnext⟩
  · exact ⟨by rw [hadm, hnext]; exact h.below, by rw [hadm]; exact h.nodup⟩
  · constructor
    · intro f hf
      rw [hadm] at hf
      rw [hnext]
      rcases List.mem_append.mp hf with hf | hf
      · exact Nat.lt_succ_of_lt (h.below f hf)
      · rw [List.mem_singleton.mp hf, hid]
        exact Nat.lt_succ_self _
    · rw [hadm, List.map_append, List.nodup_append]
      refine ⟨h.nodup, by simp, fun r hr r' hr' => ?_⟩
      obtain ⟨f, hf, rfl⟩ := List.mem_map.mp hr
      rw [List.map_singleton, List.mem_singleton, hid] at hr'
      have := h.below f hf
      omega

/-! ## Handed over -/

/-- The victims whose write-back has left WB, and for whom. -/
def writtenBack (log : List Event) : List (Nat × Nat) :=
  (wbQueued log).take (drainedLines log).length

/-- The victims whose write-back is still in WB. -/
def undrained (log : List Event) : List (Nat × Nat) :=
  (wbQueued log).drop (drainedLines log).length

/-- The operation a queued write-back becomes. -/
def writeBackIssue (p : Nat × Nat) : Issue := ⟨p.1, .farWrite, p.2⟩

/-- The operations handed over to near and far memory, request by
request. -/
def handedOver (log : List Event) : List Issue :=
  ((issues log).filter fun p => decide (p.op ≠ .farWrite))
    ++ (writtenBack log).map writeBackIssue

theorem WbFlow.written {m : Manager} (h : WbFlow m) :
    (writtenBack m.log).map Prod.snd = drainedLines m.log ∧
      (undrained m.log).map Prod.snd = m.wb.map fun w => w.pkt.address := by
  have hlen : (drainedLines m.log).length ≤ (wbQueued m.log).length := by
    have := congrArg List.length h.fifo
    simp only [List.length_map, List.length_append] at this
    omega
  unfold writtenBack undrained
  rw [List.map_take, List.map_drop, h.fifo]
  exact ⟨List.take_left .., List.drop_left ..⟩

/-- A far write is issued where its line is queued. -/
theorem issues_farWrite (log : List Event) :
    (issues log).filter (fun p => decide (p.op = .farWrite))
      = (wbQueued log).map writeBackIssue := by
  unfold issues wbQueued
  rw [List.filter_filterMap, List.map_filterMap]
  refine List.filterMap_congr fun ev _ => ?_
  cases ev with
  | handNear r i pkt w => cases w <;> rfl
  | handFar r pkt w => cases r <;> cases w <;> rfl
  | _ => rfl

/-! ## Runs -/

section Run

variable {allow : Op → Prop} {ok : Worklist.Config Sys Call → Prop} {s₀ : Sys}
  {x : Worklist.Config Sys Call}

theorem numbered_of_reaches (hroi : ∀ op, allow op → op.Roi) (h₀ : s₀.Fresh)
    (h : ReachesIf machine allow ok s₀ x) : x.2.dcm.core.Numbered := by
  refine front_invariant (I := fun _ _ => True) (P := fun _ m => m.Numbered) hroi h₀.live
    (fun _ _ => trivial) ?_ ?_ ?_ h
  · have hadm : admitted s₀.dcm.core.log = [] := (warmup_silent h₀.log).2
    exact ⟨by rw [hadm]; simp, by rw [hadm]; simp⟩
  · intro op m m' ks _ hstep _ hp
    exact hp.step hstep.numbers
  · intro c K m m' ks hstep _ hp
    exact hp.step hstep.numbers

/-- What a request has not issued yet, the ORB or a fill under way owes. -/
theorem issues_of_reaches (hroi : ∀ op, allow op → op.Roi) (h₀ : s₀.Fresh)
    (h : ReachesIf machine allow ok s₀ x) (p : Issue) : p.ledger.Kept x.1 x.2.dcm.core := by
  refine front_invariant (I := fun K m => OrbInv (Ctl.of K) m)
    (P := fun K m => p.ledger.Kept K m) hroi h₀.live
    (fun x hx => (orbInv_of_reaches hroi h₀ hx).2) ?_ ?_ ?_ h
  · have hadm : admitted s₀.dcm.core.log = [] := (warmup_silent h₀.log).2
    have hissues : issues s₀.dcm.core.log = [] := List.filterMap_eq_nil_iff.mpr fun ev hev => by
      have := h₀.log ev hev
      cases ev <;> first | rfl | cases this
    have horb : s₀.dcm.core.orb = ∅ := h₀.orb
    unfold Ledger.Kept
    rw [horb, Keyed.total_empty]
    show (((admitted s₀.dcm.core.log).flatMap OrbEntry.tableTwo).count p : ℤ)
      - (issues s₀.dcm.core.log).count p = _
    rw [hadm, hissues]
    rfl
  · intro op m m' ks _ hstep hinv hp
    by_cases hop : op = .resetROIStats
    · cases hstep with
      | statsReset | configured => exact hp
      | refused hreq | queued _ hreq | admitted _ hreq =>
          rw [hop] at hreq
          cases hreq
      | _ => cases hop
    · exact p.fair.enter hstep hop hinv hp
  · intro c K m m' ks hstep hinv hp
    exact p.fair.step hstep hinv hp

end Run

/-! ## The row of a finished request -/

/-- A request has finished: it has left the ORB, and neither its fill nor
its write-back is still to be handed over. -/
structure Finished (K : List Call) (m : Manager) (r : Nat) : Prop where
  retired : ∀ e ∈ Keyed.values m.orb, e.requestId ≠ r
  filled : ∀ rid i pkt, Call.backgroundFill rid i pkt ∈ K → rid ≠ r
  written : ∀ p ∈ undrained m.log, p.1 ≠ r

theorem requestId_of_remaining {e : OrbEntry} {p : Issue} (h : p ∈ e.remaining) :
    p.requestId = e.requestId := by
  simp only [OrbEntry.remaining, List.mem_append, List.mem_ite_nil_right, List.mem_singleton] at h
  rcases h with ((⟨-, rfl⟩ | ⟨-, rfl⟩) | ⟨-, rfl⟩) | ⟨-, rfl⟩ <;> rfl

theorem requestId_of_tableTwo {e : OrbEntry} {p : Issue} (h : p ∈ e.tableTwo) :
    p.requestId = e.requestId := by
  simp only [OrbEntry.tableTwo, List.mem_append, List.mem_ite_nil_right, List.mem_ite_nil_left,
    List.mem_singleton] at h
  rcases h with ((⟨-, rfl⟩ | ⟨-, rfl⟩) | ⟨-, rfl⟩) | ⟨-, rfl⟩ <;> rfl

section Row

variable {K : List Call} {m : Manager} {e : OrbEntry} {p : Issue}

/-- A finished request owes nothing. -/
theorem Finished.nothing_owed (h : Finished K m p.requestId) :
    Keyed.total p.ledger.owes m.orb + (K.map p.ledger.due).sum = 0 := by
  have horb : Keyed.total p.ledger.owes m.orb = 0 := by
    refine Multiset.sum_eq_zero fun n hn => ?_
    obtain ⟨f, hf, rfl⟩ := Multiset.mem_map.mp hn
    have hnot : p ∉ f.remaining := fun hp =>
      h.retired f hf (requestId_of_remaining hp).symm
    exact Int.natCast_eq_zero.mpr (List.count_eq_zero.mpr hnot)
  have hdue : (K.map p.ledger.due).sum = 0 := by
    refine List.sum_eq_zero fun n hn => ?_
    obtain ⟨c, hc, rfl⟩ := List.mem_map.mp hn
    cases c with
    | backgroundFill rid i pkt =>
        have hne : (⟨rid, .localWrite, pkt.address⟩ : Issue) ≠ p := fun heq =>
          h.filled rid i pkt hc (heq ▸ rfl)
        simp [Ledger.due, Issue.ledger, hne]
    | _ => rfl
  rw [horb, hdue]
  rfl

/-- Only its own request has an operation in its row. -/
theorem Manager.Numbered.count_rows (h : m.Numbered) (he : e ∈ admitted m.log)
    (hp : p.requestId = e.requestId) :
    ((admitted m.log).flatMap OrbEntry.tableTwo).count p = e.tableTwo.count p := by
  classical
  have hnodup : (admitted m.log).Nodup := h.nodup.of_map
  have hother : ∀ f ≠ e, f ∈ admitted m.log → f.tableTwo.count p = 0 := fun f hne hf =>
    List.count_eq_zero.mpr fun hmem => hne (List.inj_on_of_nodup_map h.nodup hf he
      ((requestId_of_tableTwo hmem).symm.trans hp))
  rw [List.count_flatMap]
  have hsum := List.sum_map_eq_nsmul_single (l := admitted m.log) e
    (fun f => f.tableTwo.count p) hother
  rw [List.count_eq_one_of_mem hnodup he, one_nsmul] at hsum
  exact hsum

end Row

/-! ## Nothing else is handed over -/

/-- A far read is handed over for its request, a far write for none. -/
def Event.regular : Event → Bool
  | .handFar r _ w => r.isNone == w
  | _ => true

theorem FrontStep.regular {m m' : Manager} {c : Call} {ks : List Call}
    (h : FrontStep m c m' ks) (hm : ∀ ev ∈ m.log, ev.regular) : ∀ ev ∈ m'.log, ev.regular := by
  obtain ⟨evs, hlog, hevs⟩ := h.emits
  intro ev hev
  rw [hlog] at hev
  rcases List.mem_append.mp hev with hev | hev
  · exact hm ev hev
  · have := hevs ev hev
    cases ev with
    | handFar r pkt w => cases c <;> cases r <;> cases w <;> first | rfl | cases this
    | _ => rfl

theorem FrontEnter.regular {m m' : Manager} {op : Op} {ks : List Call}
    (h : FrontEnter m op m' ks) (hm : ∀ ev ∈ m.log, ev.regular) : ∀ ev ∈ m'.log, ev.regular := by
  obtain ⟨evs, hlog, hevs⟩ := h.log_append
  intro ev hev
  rw [hlog] at hev
  rcases List.mem_append.mp hev with hev | hev
  · exact hm ev hev
  · have := hevs ev hev
    cases ev <;> first | rfl | cases this

theorem regular_of_reaches {allow : Op → Prop} {ok : Worklist.Config Sys Call → Prop} {s₀ : Sys}
    {x : Worklist.Config Sys Call} (hroi : ∀ op, allow op → op.Roi) (h₀ : s₀.Fresh)
    (h : ReachesIf machine allow ok s₀ x) : ∀ ev ∈ x.2.dcm.core.log, ev.regular := by
  refine front_invariant (I := fun _ _ => True) (P := fun _ m => ∀ ev ∈ m.log, ev.regular) hroi
    h₀.live (fun _ _ => trivial) ?_ ?_ ?_ h
  · intro ev hev
    have := h₀.log ev hev
    cases ev <;> first | rfl | cases this
  · intro op m m' ks _ hstep _ hp
    exact hstep.regular hp
  · intro c K m m' ks hstep _ hp
    exact hstep.regular hp

/-- The side an operation is for, and what it sends there. -/
def Issue.parcel? (side : Side) (p : Issue) : Option Parcel :=
  match side, p.op with
  | .near, .localRead => some (p.line, false)
  | .near, .localWrite => some (p.line, true)
  | .far, .farRead => some (p.line, false)
  | .far, .farWrite => some (p.line, true)
  | _, _ => none

theorem issues_near (log : List Event) :
    ((issues log).filter fun p => decide (p.op ≠ .farWrite)).filterMap (Issue.parcel? .near)
      = handed .near log := by
  unfold issues handed
  rw [List.filterMap_filter, List.filterMap_filterMap]
  refine List.filterMap_congr fun ev _ => ?_
  cases ev with
  | handNear r i pkt w => cases w <;> rfl
  | handFar r pkt w => cases r <;> cases w <;> rfl
  | _ => rfl

theorem issues_far {log : List Event} (h : ∀ ev ∈ log, ev.regular) :
    ((issues log).filter fun p => decide (p.op ≠ .farWrite)).filterMap (Issue.parcel? .far)
      = (handed .far log).filter fun p => !p.2 := by
  unfold issues handed
  rw [List.filterMap_filter, List.filterMap_filterMap, List.filter_filterMap]
  refine List.filterMap_congr fun ev hev => ?_
  have := h ev hev
  cases ev with
  | handNear r i pkt w => cases w <;> rfl
  | handFar r pkt w => cases r <;> cases w <;> first | rfl | cases this
  | _ => rfl

theorem drained_far (log : List Event) :
    (drainedLines log).map (fun a => (a, true)) = (handed .far log).filter fun p => p.2 := by
  unfold drainedLines handed
  rw [List.map_filterMap, List.filter_filterMap]
  refine List.filterMap_congr fun ev _ => ?_
  cases ev with
  | handFar r pkt w => cases w <;> rfl
  | _ => rfl

/-- The operations handed over are the packets handed over. -/
theorem handedOver_parcels {m : Manager} (hw : WbFlow m) (h : ∀ ev ∈ m.log, ev.regular)
    (side : Side) :
    ((handedOver m.log).filterMap (Issue.parcel? side)).Perm (handed side m.log) := by
  unfold handedOver
  rw [List.filterMap_append]
  cases side with
  | near =>
      have hnone : ((writtenBack m.log).map writeBackIssue).filterMap (Issue.parcel? .near) = [] :=
        List.filterMap_eq_nil_iff.mpr fun p hp => by
          obtain ⟨q, -, rfl⟩ := List.mem_map.mp hp
          rfl
      rw [issues_near, hnone, List.append_nil]
  | far =>
      have hsome : ((writtenBack m.log).map writeBackIssue).filterMap (Issue.parcel? .far)
          = (drainedLines m.log).map fun a => (a, true) := by
        rw [← hw.written.1, List.filterMap_map, List.map_map, ← List.filterMap_eq_map]
        rfl
      rw [issues_far h, hsome, drained_far]
      refine List.perm_append_comm.trans ?_
      exact List.filter_append_perm (fun p : Parcel => p.2) _

/-- Only write-backs still in WB are issued and not handed over. -/
theorem count_issues (log : List Event) (p : Issue) : (issues log).count p
    = (handedOver log).count p + ((undrained log).map writeBackIssue).count p := by
  have hsplit : (issues log).count p
      = ((issues log).filter fun q => decide (q.op ≠ .farWrite)).count p
        + ((issues log).filter fun q => decide (q.op = .farWrite)).count p := by
    have hperm := (List.filter_append_perm (fun q : Issue => decide (q.op = .farWrite))
      (issues log)).count_eq p
    rw [List.count_append] at hperm
    simp only [ne_eq, decide_not]
    omega
  have hqueued : (wbQueued log).map writeBackIssue
      = (writtenBack log).map writeBackIssue ++ (undrained log).map writeBackIssue := by
    rw [← List.map_append, writtenBack, undrained, List.take_append_drop]
  rw [hsplit, issues_farWrite, hqueued, handedOver, List.count_append, List.count_append]
  omega

section Main

variable {allow : Op → Prop} {s₀ : Sys}

/-- **Table II, request by request.** In every configuration of every run
the operations handed over for a finished request are its row; every
operation handed over is in the row of an admitted request; and nothing
else is handed over to either side. -/
theorem table_two (hroi : ∀ op, allow op → op.Roi) (h₀ : s₀.Fresh) {K : List Call} {s : Sys}
    (h : Reaches machine allow s₀ (K, s)) :
    (∀ e ∈ admitted s.dcm.log, Finished K s.dcm.core e.requestId →
      ((handedOver s.dcm.log).filter fun p => p.requestId = e.requestId).Perm e.tableTwo) ∧
    (∀ p ∈ handedOver s.dcm.log, ∃ e ∈ admitted s.dcm.log, p ∈ e.tableTwo) ∧
    ∀ side, ((handedOver s.dcm.log).filterMap (Issue.parcel? side)).Perm
      (handed side s.dcm.log) := by
  have hkept : ∀ p : Issue, p.ledger.Kept K s.dcm.core := issues_of_reaches hroi h₀ h
  have hnum : s.dcm.core.Numbered := numbered_of_reaches hroi h₀ h
  have hflow : WbFlow s.dcm.core := (wbFlow_of_reaches hroi h₀ h).2
  have hregular : ∀ ev ∈ s.dcm.core.log, ev.regular := regular_of_reaches hroi h₀ h
  refine ⟨fun e he hfin => ?_, fun p hp => ?_, fun side => handedOver_parcels hflow hregular side⟩
  · refine List.perm_iff_count.mpr fun p => ?_
    by_cases hp : p.requestId = e.requestId
    · have hrow : ((admitted s.dcm.log).flatMap OrbEntry.tableTwo).count p = e.tableTwo.count p :=
        hnum.count_rows he hp
      have howed := (hp ▸ hfin).nothing_owed
      have hbalance : (((admitted s.dcm.log).flatMap OrbEntry.tableTwo).count p : ℤ)
          - (issues s.dcm.log).count p = _ := (hkept p).trans howed
      have hqueued : ((undrained s.dcm.log).map writeBackIssue).count p = 0 :=
        List.count_eq_zero.mpr fun hmem => by
          obtain ⟨q, hq, rfl⟩ := List.mem_map.mp hmem
          exact hfin.written q hq hp
      have hissues := count_issues s.dcm.log p
      rw [List.count_filter (by simpa using hp)]
      omega
    · have hrow : p ∉ e.tableTwo := fun hmem => hp (requestId_of_tableTwo hmem)
      rw [List.count_eq_zero.mpr hrow, List.count_eq_zero.mpr]
      exact fun hmem => hp (by simpa using (List.mem_filter.mp hmem).2)
  · have hcount : 0 < (issues s.dcm.log).count p := by
      have hissues := count_issues s.dcm.log p
      have := List.count_pos_iff.mpr hp
      omega
    have howes : 0 ≤ Keyed.total p.ledger.owes s.dcm.core.orb := by
      refine Multiset.sum_nonneg fun n hn => ?_
      obtain ⟨f, -, rfl⟩ := Multiset.mem_map.mp hn
      exact Int.natCast_nonneg _
    have hdue : 0 ≤ (K.map p.ledger.due).sum := by
      refine List.sum_nonneg fun n hn => ?_
      obtain ⟨c, -, rfl⟩ := List.mem_map.mp hn
      cases c <;> exact Int.natCast_nonneg _
    have hbalance : (((admitted s.dcm.log).flatMap OrbEntry.tableTwo).count p : ℤ)
        - (issues s.dcm.log).count p = _ := hkept p
    have hpos : 0 < ((admitted s.dcm.log).flatMap OrbEntry.tableTwo).count p := by omega
    exact List.mem_flatMap.mp (List.count_pos_iff.mp hpos)

end Main

/-- A write, then a read that evicts it: both have finished. -/
theorem table_two_eviction :
    ∃ s, Worklist.drive machine 60
        [.addWq (.readOf 5), .operate, .addRq (.readOf (5 + dcmNumLines)), .operate, .operate]
        (.cold .baselineCascadeLake 0) = some s ∧
      (admitted s.dcm.log).map (fun e => e.tableTwo.map Issue.op)
        = [[.localRead, .localWrite], [.localRead, .farRead, .localWrite, .farWrite]] ∧
      ∀ e ∈ admitted s.dcm.log,
        ((handedOver s.dcm.log).filter fun p => p.requestId = e.requestId).Perm e.tableTwo := by
  obtain ⟨s, hs, hconf⟩ := Option.map_eq_some_iff.mp (show (Worklist.drive machine 60
    [.addWq (.readOf 5), .operate, .addRq (.readOf (5 + dcmNumLines)), .operate, .operate]
    (.cold .baselineCascadeLake 0)).map (fun s => ((admitted s.dcm.log).map
        (fun e => e.tableTwo.map Issue.op), s.dcm.orb.entries.length, undrained s.dcm.log))
      = some ([[.localRead, .localWrite], [.localRead, .farRead, .localWrite, .farWrite]], 0, [])
      from by decide +kernel)
  obtain ⟨hrows, horb, hundrained⟩ := Prod.mk.inj hconf |>.imp_right Prod.mk.inj
  have hr : Reaches machine Op.Roi (.cold .baselineCascadeLake 0) ([], s) := by
    refine Worklist.drive_reaches ?_ .refl hs
    simp [Op.Roi]
  refine ⟨s, hs, hrows, fun e he =>
    (table_two (fun _ h => h) (Sys.cold_fresh ..) hr).1 e he ⟨fun f hf => ?_, ?_, ?_⟩⟩
  · have hempty : Keyed.values s.dcm.core.orb = 0 := by
      have hnil : s.dcm.orb.entries = [] := List.length_eq_zero_iff.mp horb
      show ((s.dcm.orb.entries.map fun x => x.2 : List OrbEntry) : Multiset OrbEntry) = 0
      rw [hnil]
      rfl
    rw [hempty] at hf
    exact absurd hf (Multiset.notMem_zero f)
  · intro rid i pkt hmem
    exact absurd hmem (List.not_mem_nil)
  · intro p hp
    have hnil : undrained s.dcm.core.log = [] := hundrained
    rw [hnil] at hp
    exact absurd hp (List.not_mem_nil)

end DramCache
