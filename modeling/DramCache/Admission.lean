import DramCache.History

/-!
# Admission

How requests get in. A request is accepted or refused with -2, and a refusal
moves a reject counter only; requests of one DRAM-cache index are admitted
in the order the port accepted them, through the CRB or past it.
-/

namespace DramCache

open Keyed (restrict)
open Worklist (ReachesIf Reaches)

/-! ## Refused and taken -/

namespace Sys

/-- The request an admission refused left everything but a reject counter
as it was. -/
def OnlyRejected (s s' : Sys) : Prop :=
  ∃ crbFull wbFull orbFull,
    crbFull + wbFull + orbFull = s.dcm.stats.crbFullRejects + s.dcm.stats.wbFullRejects
      + s.dcm.stats.orbFullRejects + 1 ∧
    s' = s.onDcm (·.count fun st =>
      { st with crbFullRejects := crbFull, wbFullRejects := wbFull, orbFullRejects := orbFull })

theorem addRequest_live {s : Sys} (hs : s.Live) (pkt : Packet) (w : Bool) :
    s.addRequest pkt w = s.admission pkt w := by
  have hwarm : ¬ s.allWarmupComplete < numCpus := not_lt.mpr hs.warm
  have hbyp : ¬ s.dcm.bypassDcache = true := by simp [hs.noBypass]
  cases w <;> simp [addRequest, addRq, addWq, hwarm, hbyp]

/-- When an admission is refused, spelled with the comparisons it makes. -/
def Refuses (s : Sys) (address : Nat) : Prop :=
  if s.dcm.checkConflictInORB (returnIndexDC address) then s.dcm.crb.length ≥ dcmCrbMaxSize
  else s.dcm.wb.length ≥ dcmWbPressureThreshold ∨ s.dcm.orbSize ≥ dcmOrbMaxSize

theorem admission_refused {s : Sys} {pkt : Packet} {w : Bool} (h : s.Refuses pkt.address) :
    (s.admission pkt w).2 = (-2, []) ∧ s.OnlyRejected (s.admission pkt w).1 := by
  unfold Refuses at h
  unfold admission
  split
  · rename_i hc
    rw [if_pos hc] at h
    rw [if_pos h]
    exact ⟨rfl, s.dcm.stats.crbFullRejects + 1, s.dcm.stats.wbFullRejects,
      s.dcm.stats.orbFullRejects, by omega, rfl⟩
  · rename_i hc
    rw [if_neg hc] at h
    split
    · exact ⟨rfl, s.dcm.stats.crbFullRejects, s.dcm.stats.wbFullRejects + 1,
        s.dcm.stats.orbFullRejects, by omega, rfl⟩
    · rename_i hwb
      rw [if_pos (h.resolve_left hwb)]
      exact ⟨rfl, s.dcm.stats.crbFullRejects, s.dcm.stats.wbFullRejects,
        s.dcm.stats.orbFullRejects + 1, by omega, rfl⟩

theorem admission_taken {s : Sys} {pkt : Packet} {w : Bool} (h : ¬ s.Refuses pkt.address) :
    (s.admission pkt w).2.1 = -1 ∧
      accepted (s.admission pkt w).1.dcm.log = accepted s.dcm.log ++ [(w, pkt)] := by
  unfold Refuses at h
  unfold admission
  split
  · rename_i hc
    rw [if_pos hc] at h
    rw [if_neg h]
    exact ⟨rfl, accepted_append ..⟩
  · rename_i hc
    rw [if_neg hc, not_or] at h
    rw [if_neg h.1, if_neg h.2]
    refine ⟨rfl, ?_⟩
    simp only [admitRequest, onDcm_dcm, Manager.admitEntry_log, Manager.emit, accepted_append]
    exact List.append_nil _

/-- A request is accepted exactly when the call does not return -2, and a
call that does leaves the log as it is. -/
theorem accepted_of_addRequest {s : Sys} (hs : s.Live) (w : Bool) (pkt : Packet) :
    if (s.addRequest pkt w).2.1 = -2 then (s.addRequest pkt w).1.dcm.log = s.dcm.log
    else accepted (s.addRequest pkt w).1.dcm.log = accepted s.dcm.log ++ [(w, pkt)] := by
  rw [addRequest_live hs]
  by_cases hr : s.Refuses pkt.address
  · obtain ⟨hret, a, b, c, -, hsame⟩ := admission_refused (w := w) hr
    rw [hret, if_pos rfl, hsame]
    rfl
  · obtain ⟨hret, hacc⟩ := admission_taken (w := w) hr
    rw [hret, if_neg (by decide)]
    exact hacc

end Sys

/-! ## One index, one order -/

/-- The requests waiting in the CRB, in order. -/
def Manager.waiting (m : Manager) : List Request := m.crb.map CrbEntry.request

/-- What an index has accepted is what it has admitted and, after that,
what waits for it. -/
def IndexFifo (m : Manager) : Prop :=
  ∀ i, restrict Request.indexDC i (accepted m.log)
    = restrict Request.indexDC i (admittedRequests m.log)
      ++ restrict Request.indexDC i m.waiting

theorem IndexFifo.silent {m m' : Manager} (h : IndexFifo m) (hs : Silent m m') :
    IndexFifo m' := by
  intro i
  rw [hs.accepted, admittedRequests, hs.admitted, Manager.waiting, hs.crb]
  exact h i

theorem IndexFifo.promote {m : Manager} {i : Nat} {w : CrbEntry} (h : IndexFifo m)
    (hw : m.waiter? i = some w) (now : Nat) :
    IndexFifo ((m.takeWaiter i).admitEntry w.pkt w.isWriteReq (some w.arrivalCycle) now) := by
  intro j
  have hadm : admittedRequests ((m.takeWaiter i).admitEntry w.pkt w.isWriteReq
      (some w.arrivalCycle) now).log = admittedRequests m.log ++ [w.request] := by
    rw [Manager.admitEntry_log, admittedRequests_append]
    rfl
  have hacc : accepted ((m.takeWaiter i).admitEntry w.pkt w.isWriteReq
      (some w.arrivalCycle) now).log = accepted m.log := by
    rw [Manager.admitEntry_log, accepted_append]
    exact List.append_nil _
  have hwait : ((m.takeWaiter i).admitEntry w.pkt w.isWriteReq (some w.arrivalCycle) now).waiting
      = (m.crb.eraseP fun c => decide (returnIndexDC c.pkt.address = i)).map
        CrbEntry.request := rfl
  rw [hacc, hadm, hwait, h j, Manager.waiting, Keyed.restrict_append, List.append_assoc]
  congr 1
  rw [Keyed.restrict_map, Keyed.restrict_map]
  by_cases hj : j = i
  · subst hj
    have hwj : Request.indexDC w.request = j := (waiter?_spec hw).2
    rw [Keyed.restrict_find (fun c : CrbEntry => Request.indexDC c.request) hw,
      Keyed.restrict_cons_self Request.indexDC hwj]
    rfl
  · have hwj : Request.indexDC w.request ≠ j := fun h =>
      hj (h.symm.trans (waiter?_spec hw).2)
    rw [Keyed.restrict_cons_ne Request.indexDC hwj]
    exact congrArg _ (Keyed.restrict_eraseP_ne
      (fun c : CrbEntry => Request.indexDC c.request) hj m.crb).symm

theorem IndexFifo.wait {m : Manager} (h : IndexFifo m) (pkt : Packet) (w : Bool) (now : Nat) :
    IndexFifo (m.waitInCRB pkt w now) := by
  intro i
  have hacc : accepted (m.waitInCRB pkt w now).log = accepted m.log ++ [(w, pkt)] :=
    accepted_append ..
  have hadm : admittedRequests (m.waitInCRB pkt w now).log = admittedRequests m.log := by
    change admittedRequests (m.log ++ [Event.accepted w pkt]) = _
    rw [admittedRequests_append]
    exact List.append_nil _
  have hwait : (m.waitInCRB pkt w now).waiting = m.waiting ++ [(w, pkt)] :=
    List.map_append ..
  rw [hacc, hadm, hwait, Keyed.restrict_append, Keyed.restrict_append, h i, List.append_assoc]

/-- Nobody waits for a free index. -/
theorem OrbInv.no_waiter {m : Manager} (h : OrbInv .calm m) {i : Nat}
    (hc : m.checkConflictInORB i = false) : restrict Request.indexDC i m.waiting = [] := by
  refine Keyed.restrict_eq_nil _ fun r hr => ?_
  obtain ⟨c, hmem, rfl⟩ := List.mem_map.mp hr
  rcases h.waits c hmem with ⟨a, e, hl, hi⟩ | hhole
  · exact fun hci => h.free hc hl (hi.trans hci)
  · cases hhole

theorem IndexFifo.admitEntry {m : Manager} (h : IndexFifo m) (hinv : OrbInv .calm m) {pkt : Packet}
    (hc : m.checkConflictInORB (returnIndexDC pkt.address) = false) (w : Bool) (now : Nat) :
    IndexFifo ((m.emit (.accepted w pkt)).admitEntry pkt w none now) := by
  intro i
  have hacc : accepted ((m.emit (.accepted w pkt)).admitEntry pkt w none now).log
      = accepted m.log ++ [(w, pkt)] := by
    rw [Manager.admitEntry_log, accepted_append, Manager.emit, accepted_append]
    exact List.append_nil _
  have hadm : admittedRequests ((m.emit (.accepted w pkt)).admitEntry pkt w none now).log
      = admittedRequests m.log ++ [(w, pkt)] := by
    rw [Manager.admitEntry_log, admittedRequests_append, Manager.emit, admittedRequests_append]
    exact congrArg (· ++ _) (List.append_nil _)
  have hwait : ((m.emit (.accepted w pkt)).admitEntry pkt w none now).waiting = m.waiting := rfl
  rw [hacc, hadm, hwait, Keyed.restrict_append, Keyed.restrict_append, h i]
  by_cases hi : returnIndexDC pkt.address = i
  · rw [← hi, hinv.no_waiter hc, List.append_nil, List.append_nil]
  · have hne : Request.indexDC (w, pkt) ≠ i := hi
    rw [Keyed.restrict_cons_ne _ hne]
    simp

variable {allow : Op → Prop} {ok : Worklist.Config Sys Call → Prop} {s₀ : Sys}

theorem indexFifo_of_reaches {x : Worklist.Config Sys Call}
    (hroi : ∀ op, allow op → op.Roi) (h₀ : s₀.Fresh) (h : ReachesIf machine allow ok s₀ x) :
    IndexFifo x.2.dcm.core := by
  refine front_invariant (P := fun _ m => IndexFifo m)
    (I := fun K m => CalmTail K ∧ OrbInv (Ctl.of K) m) hroi h₀.live
    (fun x hx => orbInv_of_reaches hroi h₀ hx) ?_ ?_ ?_ h
  · intro i
    have hlog := warmup_silent h₀.log
    change restrict _ i (accepted s₀.dcm.log) = restrict _ i (admittedRequests s₀.dcm.log)
      ++ restrict _ i s₀.dcm.waiting
    rw [hlog.1, admittedRequests, hlog.2, Manager.waiting, h₀.crb]
    rfl
  · intro op m m' ks _ hstep hinv hp
    rcases hstep.silent_or_request with hs | ⟨w, pkt, now, -, ⟨-, rfl⟩ | ⟨hc, rfl⟩⟩
    · exact hp.silent hs
    · exact hp.wait pkt w now
    · exact hp.admitEntry hinv.2 hc w now
  · intro c K m m' ks hstep _ hp
    rcases hstep.silent_or_promote with hs | ⟨i, w, now, -, hw, rfl⟩
    · exact hp.silent hs
    · exact hp.promote hw now

/-! ### A completion admits the oldest waiter -/

theorem upcalls_no_retired {why : Upcall} {pkt : Packet} {now : Nat} {e : OrbEntry}
    {cycle : Nat} : Event.retired e cycle ∉ Manager.upcalls why pkt now := by
  intro h
  obtain ⟨port, heq⟩ := Manager.mem_upcalls h
  cases heq

theorem victimEvents_no_retired {e f : OrbEntry} {cycle : Nat} :
    Event.retired f cycle ∉ Manager.victimEvents e := by
  intro h
  cases Manager.mem_victimEvents h

theorem respondNow_no_retired {e f : OrbEntry} {lat now cycle : Nat} :
    Event.retired f cycle ∉ Manager.respondNow e lat now := by
  intro h
  obtain ⟨port, heq⟩ := Manager.mem_respondNow h
  cases heq

/-- How a request comes to be completed: as a read hit, after its near
write, or by a far response. -/
inductive Retires (m : Manager) (e : OrbEntry) (cycle : Nat) : Call → List Event → Prop
  | hit {c : Call} {evs : List Event} (hw : e.isWriteReq = false) (hh : e.isHit = true) :
      Retires m e cycle c evs
  | written {a lat : Nat} {evs : List Event} (hl : m.orb.lookup a = some e) :
      Retires m e cycle (.completeRequest a lat) evs
  | fetched {side : Side} {pkt : Packet} (lat : Nat) (hl : m.orb.lookup pkt.address = some e)
      (hs : e.state = .waitingFarMemReadResp) : Retires m e cycle (.returnData side pkt)
        (.answered side e :: .retired e cycle :: Manager.respondNow e lat cycle)

/-- Whatever call completes a request, the promotion for its index is the
next call. -/
theorem FrontStep.retired {m m' : Manager} {c : Call} {ks : List Call} {e : OrbEntry}
    {cycle : Nat} {evs : List Event} (h : FrontStep m c m' ks) (hlog : m'.log = m.log ++ evs)
    (hmem : Event.retired e cycle ∈ evs) : m'.crb = m.crb ∧
      (∃ ks', ks = .promoteFromCRB e.indexDC :: ks') ∧ Retires m e cycle c evs := by
  have hsame : m'.log = m.log → evs = [] := by
    intro h
    simpa [h] using hlog
  have hevs : ∀ {evs'}, m'.log = m.log ++ evs' → evs = evs' := by
    intro evs' h
    exact List.append_cancel_left (hlog.symm.trans h)
  cases h with
  | bypassed now _ =>
      rw [hevs rfl] at hmem
      exact absurd hmem upcalls_no_retired
  | untracked _ => simp [hevs rfl] at hmem
  | stray _ _ => simp [hevs rfl] at hmem
  | @nearEnter side pkt f st now _ _ _ =>
      have hl : evs = .answered side f :: Manager.victimEvents f := by
        apply hevs
        simp [Manager.enterState, Manager.emit]
      simp [hl, victimEvents_no_retired] at hmem
  | @nearHit side pkt f lat now _ _ hw hh =>
      have hl : evs = .answered side f :: Manager.victimEvents f
          ++ .retired f now :: Manager.respondNow f lat now := by
        apply hevs
        simp [Manager.emit]
      simp only [hl, List.cons_append, List.mem_cons, List.mem_append, reduceCtorEq,
        victimEvents_no_retired, respondNow_no_retired, false_or, or_false] at hmem
      obtain ⟨rfl, -⟩ := Event.retired.inj hmem
      exact ⟨by simp [Manager.emit], ⟨[], rfl⟩, .hit hw hh⟩
  | @farDone side pkt f lat now hlook hs =>
      have hl : evs = .answered side f :: .retired f now :: Manager.respondNow f lat now := by
        apply hevs
        simp [Manager.emit, Manager.farAnswered, Manager.count]
      subst hl
      simp only [List.mem_cons, reduceCtorEq, respondNow_no_retired, false_or,
        or_false] at hmem
      obtain ⟨rfl, rfl⟩ := Event.retired.inj hmem
      exact ⟨by simp [Manager.emit, Manager.farAnswered, Manager.count], ⟨_, rfl⟩,
        .fetched lat hlook hs⟩
  | @complete a lat f now hlook =>
      have hl : evs = .retired f now :: Manager.respondNow f lat now := by
        apply hevs
        simp
      simp only [hl, List.mem_cons, respondNow_no_retired, or_false] at hmem
      obtain ⟨rfl, -⟩ := Event.retired.inj hmem
      exact ⟨by simp, ⟨[], rfl⟩, .written hlook⟩
  | readNear _ _ _ _ => simp [hevs rfl] at hmem
  | readFar _ _ _ _ => simp [hevs rfl] at hmem
  | writeNear _ _ _ => simp [hevs rfl] at hmem
  | promote now hw => simp [hevs (Manager.admitEntry_log ..)] at hmem
  | @flag a i =>
      rcases m.flagConflict_eq a i with hf | ⟨e, -, hf⟩ <;>
        simp [hsame (by rw [hf])] at hmem
  | fill _ => simp [hevs rfl] at hmem
  | drained _ => simp [hevs rfl] at hmem
  | responses clk =>
      obtain ⟨due, rest, -, hr⟩ := Manager.releaseResponses_eq clk m.pendingResponses m
      rw [hevs (by rw [Manager.processPendingResponses, hr])] at hmem
      obtain ⟨r, -, hmem⟩ := List.mem_flatMap.mp hmem
      exact absurd hmem upcalls_no_retired
  | samples => simp [hsame rfl] at hmem
  | quiet _ _ => simp [hsame rfl] at hmem
  | driveIdle _ => simp [hsame rfl] at hmem
  | completeNone _ => simp [hsame rfl] at hmem
  | promoteNone _ => simp [hsame rfl] at hmem

/-- What the promotion for an index does: it admits the oldest CRB entry of
the index, wherever that entry stands, and nothing when there is none. -/
theorem promoteFromCRB_admits (s : Sys) (i : Nat) :
    match s.dcm.waiter? i with
    | none => (s.promoteFromCRB i).1 = s
    | some w => ∃ e, e.request = w.request ∧
        (s.promoteFromCRB i).1.dcm.log = s.dcm.log ++ [.admitted e] ∧
        (s.promoteFromCRB i).1.dcm.crb
          = s.dcm.crb.eraseP fun c => decide (returnIndexDC c.pkt.address = i) := by
  cases hw : s.dcm.waiter? i with
  | none => simp only [Sys.promoteFromCRB, hw]
  | some w =>
      simp only [Sys.promoteFromCRB, hw]
      exact ⟨(s.dcm.takeWaiter i).admittedEntry w.pkt w.isWriteReq (some w.arrivalCycle)
        (s.now w.pkt.cpu), rfl, Manager.admitEntry_log .., Manager.admitEntry_crb ..⟩

/-- **First come, first admitted, index by index.** In every configuration
of a run what an index has accepted is what it has admitted followed by
what waits for it in the CRB; between calls nothing waits for a free
index; a call that completes a request is followed at once by the
admission of the oldest CRB entry of its index; and a request is accepted
exactly when `add_rq` or `add_wq` does not return -2. -/
theorem index_order (hroi : ∀ op, allow op → op.Roi) (h₀ : s₀.Fresh) {K : List Call} {s : Sys}
    (h : Reaches machine allow s₀ (K, s)) :
    (∀ i, restrict Request.indexDC i (accepted s.dcm.log)
      = restrict Request.indexDC i (admittedRequests s.dcm.log)
        ++ restrict Request.indexDC i s.dcm.waiting) ∧
    (K = [] → ∀ w ∈ s.dcm.crb, ∃ a e, s.dcm.orb.lookup a = some e ∧
      e.indexDC = returnIndexDC w.pkt.address) ∧
    (∀ c K' s' ks e cycle, K = c :: K' → machine.exec c s = .ok (s', ks) →
      .retired e cycle ∈ s'.dcm.log.drop s.dcm.log.length →
      s'.dcm.crb = s.dcm.crb ∧
      ∃ ks' s'' ks'', ks = .promoteFromCRB e.indexDC :: ks' ∧
        machine.exec (.promoteFromCRB e.indexDC) s' = .ok (s'', ks'') ∧
        match s.dcm.waiter? e.indexDC with
        | none => s'' = s'
        | some w => ∃ e', e'.request = w.request ∧
            s''.dcm.log = s'.dcm.log ++ [.admitted e'] ∧
            s''.dcm.crb = s.dcm.crb.eraseP
              fun c => decide (returnIndexDC c.pkt.address = e.indexDC)) ∧
    (K = [] → ∀ w pkt,
      if (s.addRequest pkt w).2.1 = -2 then
        (s.addRequest pkt w).1.dcm.log = s.dcm.log
      else accepted (s.addRequest pkt w).1.dcm.log = accepted s.dcm.log ++ [(w, pkt)]) := by
  refine ⟨indexFifo_of_reaches hroi h₀ h, ?_, ?_, ?_⟩
  · rintro rfl w hw
    rcases (orbInv_of_reaches hroi h₀ h).2.waits w hw with hbusy | hhole
    · exact hbusy
    · cases hhole
  · rintro c K' s' ks e cycle rfl he hmem
    obtain ⟨evs, hlog⟩ := (Sys.exec_frontStep he).log_append
    have hdrop : s'.dcm.log.drop s.dcm.log.length = evs := by
      change s'.dcm.log = s.dcm.log ++ evs at hlog
      rw [hlog, List.drop_left]
    rw [hdrop] at hmem
    obtain ⟨hcrb, ⟨ks', rfl⟩, -⟩ := (Sys.exec_frontStep he).retired hlog hmem
    have hprom := promoteFromCRB_admits s' e.indexDC
    have hwait : s'.dcm.waiter? e.indexDC = s.dcm.waiter? e.indexDC := by
      have hcrb' : s'.dcm.crb = s.dcm.crb := hcrb
      rw [Manager.waiter?, Manager.waiter?, hcrb']
    have hcrb' : s'.dcm.crb = s.dcm.crb := hcrb
    rw [hwait, hcrb'] at hprom
    exact ⟨hcrb, ks', _, _, rfl, rfl, hprom⟩
  · rintro rfl w pkt
    exact Sys.accepted_of_addRequest (live_of_reaches hroi h₀.live h) w pkt

/-- Two reads of one index, the second through the CRB. -/
theorem index_order_two_reads :
    ∃ s, Worklist.drive machine 60
        [.addRq (.readOf 5), .addRq (.readOf (5 + dcmNumLines)), .operate]
        (.cold .baselineCascadeLake 0) = some s ∧
      ∀ i, restrict Request.indexDC i (accepted s.dcm.log)
        = restrict Request.indexDC i (admittedRequests s.dcm.log)
          ++ restrict Request.indexDC i s.dcm.waiting := by
  obtain ⟨s, hs⟩ := Option.isSome_iff_exists.mp (show (Worklist.drive machine 60
    [.addRq (.readOf 5), .addRq (.readOf (5 + dcmNumLines)), .operate]
    (.cold .baselineCascadeLake 0)).isSome from by decide +kernel)
  have hr : Reaches machine Op.Roi (.cold .baselineCascadeLake 0) ([], s) :=
    Worklist.drive_reaches (by simp [Op.Roi]) .refl hs
  exact ⟨s, hs, (index_order (fun _ h => h) (Sys.cold_fresh ..) hr).1⟩

end DramCache
