import DramCache.History
import DramCache.Modes

/-!
# Response timing

A completed read is held for the controller latency: `f + b` cycles for a
hit, `f + b + b` after a far fetch. `processPendingResponses` releases the
held responses from the front of one queue, in the order in which the
reads completed. `responses` reads off the log what is to be delivered
and when; `Timely` is the equation between it, what was delivered and
what is held.

The two delays differ, so a hit may complete behind a far fetch whose
response is due later, and is then held past its own target. A run in
which this does not happen delivers every response on time.
-/

namespace DramCache

open Worklist (ReachesIf)

/-- How long the response of a read is held. -/
def OrbEntry.responseDelay (f b : Nat) (e : OrbEntry) : Nat := if e.isHit then f + b else f + b + b

/-- The response of a completed read, and when it is due. -/
def Event.response? (f b : Nat) : Event → Option PendingResponse
  | .retired e now =>
      if e.isWriteReq then none
      else some { targetCycle := now + e.responseDelay f b, pkt := e.pkt }
  | _ => none

/-- The responses of the completed reads, in the order of completion. -/
def responses (f b : Nat) (log : List Event) : List PendingResponse :=
  log.filterMap (Event.response? f b)

def Event.isResponse : Event → Bool
  | .upcall .response .. => true
  | _ => false

/-- The calls of the upper level with a response. -/
def responseCalls (log : List Event) : List Event := log.filter Event.isResponse

theorem responses_append (f b : Nat) (l₁ l₂ : List Event) :
    responses f b (l₁ ++ l₂) = responses f b l₁ ++ responses f b l₂ := List.filterMap_append ..

theorem responseCalls_append (l₁ l₂ : List Event) :
    responseCalls (l₁ ++ l₂) = responseCalls l₁ ++ responseCalls l₂ := List.filter_append ..

/-- What was delivered and when: everything due comes in the order of
completion, first what was delivered, then what is held; and nothing was
delivered before it was due. -/
structure Timely (f b : Nat) (m : Manager) (delivered : List (PendingResponse × Nat)) : Prop where
  order : responses f b m.log = delivered.map Prod.fst ++ m.pendingResponses
  calls : responseCalls m.log
    = delivered.flatMap fun p => Manager.upcalls .response p.1.pkt p.2
  notEarly : ∀ p ∈ delivered, p.1.targetCycle ≤ p.2

/-! ## What one call does to the responses -/

/-- Events that neither complete a read nor deliver one. -/
def Event.timeless : Event → Bool
  | .retired e _ => e.isWriteReq
  | .upcall .response .. => false
  | _ => true

theorem responses_timeless {evs : List Event} (h : ∀ ev ∈ evs, ev.timeless) (f b : Nat) :
    responses f b evs = [] ∧ responseCalls evs = [] := by
  constructor
  · refine List.filterMap_eq_nil_iff.mpr fun ev hev => ?_
    have := h ev hev
    cases ev with
    | retired e now => exact if_pos this
    | _ => rfl
  · refine List.filter_eq_nil_iff.mpr fun ev hev => ?_
    have := h ev hev
    cases ev with
    | upcall why port pkt now => cases why <;> first | exact Bool.false_ne_true | cases this
    | _ => exact Bool.false_ne_true

/-- The responses on their way after a call. -/
inductive ResponseStep (s : Sys) : Call → Manager → Prop
  | quiet {c : Call} {m' : Manager} (evs : List Event)
      (hheld : m'.pendingResponses = s.dcm.pendingResponses) (hlog : m'.log = s.dcm.log ++ evs)
      (hevs : ∀ ev ∈ evs, ev.timeless) : ResponseStep s c m'
  | completed {side : Side} {pkt : Packet} {m' : Manager} {e : OrbEntry} (evs : List Event)
      (hl : s.dcm.orb.lookup pkt.address = some e) (hw : e.isWriteReq = false)
      (hs : e.state = .waitingLocMemReadResp ∧ e.isHit = true ∨ e.isHit = false)
      (hheld : m'.pendingResponses = s.dcm.pendingResponses
        ++ [{ targetCycle := s.now e.pkt.cpu + e.responseDelay s.dcm.frontendLatencyCycles
                s.dcm.backendLatencyCycles,
              pkt := e.pkt }])
      (hlog : m'.log = s.dcm.log ++ (evs ++ [.retired e (s.now e.pkt.cpu)]))
      (hevs : ∀ ev ∈ evs, ev.timeless) : ResponseStep s (.returnData side pkt) m'
  | released : ResponseStep s .processPendingResponses (s.dcm.processPendingResponses s.clock)

theorem respondNow_nil {e : OrbEntry} {lat : Nat} (h : lat ≠ 0) (now : Nat) :
    Manager.respondNow e lat now = [] := if_neg fun hc => h hc.2

theorem responseDelay_ne {f b : Nat} (hfb : 0 < f + b) (e : OrbEntry) :
    e.responseDelay f b ≠ 0 := by
  unfold OrbEntry.responseDelay
  split <;> omega

theorem victimEvents_timeless {e : OrbEntry} : ∀ ev ∈ Manager.victimEvents e, ev.timeless := by
  intro ev hev
  rw [Manager.mem_victimEvents hev]
  rfl

/-- The completion of a read holds its response for its delay. -/
theorem retire_responseStep {s : Sys} {m : Manager} (side : Side) {pkt : Packet} {e : OrbEntry}
    {evs : List Event} (hfb : 0 < s.dcm.frontendLatencyCycles + s.dcm.backendLatencyCycles)
    (hl : s.dcm.orb.lookup pkt.address = some e) (hw : e.isWriteReq = false)
    (hs : e.state = .waitingLocMemReadResp ∧ e.isHit = true ∨ e.isHit = false)
    (hheld : m.pendingResponses = s.dcm.pendingResponses) (hlog : m.log = s.dcm.log ++ evs)
    (hevs : ∀ ev ∈ evs, ev.timeless) :
    ResponseStep s (.returnData side pkt) (m.retire e (e.responseDelay
      s.dcm.frontendLatencyCycles s.dcm.backendLatencyCycles) (s.now e.pkt.cpu)) := by
  have hdelay := responseDelay_ne hfb e
  refine .completed evs hl hw hs ?_ ?_ hevs
  · rw [Manager.retire_pendingResponses, hheld, Manager.respondLater, if_pos ⟨hw, hdelay⟩]
  · rw [Manager.retire_log, respondNow_nil hdelay, hlog, List.append_assoc]

theorem returnData_responseStep {s : Sys} {side : Side} {pkt : Packet}
    (hfb : 0 < s.dcm.frontendLatencyCycles + s.dcm.backendLatencyCycles)
    {ctl : Ctl} (hinv : OrbInv ctl s.dcm.core) :
    ResponseStep s (.returnData side pkt) (s.returnData side pkt).1.dcm := by
  unfold Sys.returnData
  split
  · refine .quiet (Manager.upcalls .bypass pkt (s.now pkt.cpu)) rfl rfl fun ev hev => ?_
    obtain ⟨port, rfl⟩ := Manager.mem_upcalls hev
    rfl
  cases hl : s.dcm.orb.lookup pkt.address with
  | none => exact .quiet [.untracked side pkt.address] rfl rfl (by simp [Event.timeless])
  | some e =>
      have he := hinv.entry hl
      have hanswered : ∀ ev ∈ Event.answered side e :: Manager.victimEvents e, ev.timeless := by
        intro ev hev
        rcases List.mem_cons.mp hev with rfl | hev
        · rfl
        · exact victimEvents_timeless ev hev
      have hlog : ((s.dcm.emit (.answered side e)).nearAnswered e (s.now e.pkt.cpu)).log
          = s.dcm.log ++ (.answered side e :: Manager.victimEvents e) := by
        simp [Manager.emit]
      have hheld : ((s.dcm.emit (.answered side e)).nearAnswered e
          (s.now e.pkt.cpu)).pendingResponses = s.dcm.pendingResponses := by
        simp [Manager.emit]
      cases hs : e.state
      case waitingLocMemReadResp =>
        simp only [hs, Sys.nearResponse]
        cases hw : e.isWriteReq
        · cases hh : e.isHit
          · exact .quiet _ hheld hlog hanswered
          · have hstep := retire_responseStep side hfb hl hw (.inl ⟨hs, hh⟩) hheld hlog
              hanswered
            rw [OrbEntry.responseDelay, if_pos hh] at hstep
            show ResponseStep s _ (((s.dcm.emit (.answered side e)).nearAnswered e
              (s.now e.pkt.cpu)).retire e
                (((s.dcm.emit (.answered side e)).nearAnswered e
                    (s.now e.pkt.cpu)).frontendLatencyCycles
                  + ((s.dcm.emit (.answered side e)).nearAnswered e
                    (s.now e.pkt.cpu)).backendLatencyCycles) (s.now e.pkt.cpu))
            rw [Manager.nearAnswered_frontendLatencyCycles,
              Manager.nearAnswered_backendLatencyCycles]
            exact hstep
        · exact .quiet _ hheld hlog hanswered
      case waitingFarMemReadResp =>
        simp only [hs, Sys.farResponse]
        obtain ⟨hw, hh⟩ := he.farRead (.inr hs)
        have hstep := retire_responseStep side
          (m := (s.dcm.emit (.answered side e)).farAnswered) hfb hl hw (.inr hh) rfl rfl
          (by simp [Event.timeless])
        rw [OrbEntry.responseDelay, hh] at hstep
        exact hstep
      all_goals
        simp only [hs]
        exact .quiet [.answered side e] rfl rfl (by simp [Event.timeless])

/-- What a call that neither answers nor releases does to the responses:
nothing. -/
theorem FrontStep.responses_quiet {m m' : Manager} {c : Call} {ks K : List Call}
    (h : FrontStep m c m' ks) (hinv : OrbInv (Ctl.of (c :: K)) m)
    (hreturn : ∀ side pkt, c ≠ .returnData side pkt) (hrelease : c ≠ .processPendingResponses) :
    m'.pendingResponses = m.pendingResponses ∧
      ∃ evs, m'.log = m.log ++ evs ∧ ∀ ev ∈ evs, ev.timeless := by
  have hsame : m'.log = m.log → ∃ evs, m'.log = m.log ++ evs ∧ ∀ ev ∈ evs, ev.timeless :=
    fun hlog => ⟨[], by rw [hlog, List.append_nil], by simp⟩
  cases h with
  | bypassed | untracked | stray | nearEnter | nearHit | farDone => exact absurd rfl (hreturn _ _)
  | readNear => exact ⟨rfl, [_], rfl, by simp [Event.timeless]⟩
  | readFar => exact ⟨rfl, [_], rfl, by simp [Event.timeless]⟩
  | writeNear => exact ⟨rfl, [_], rfl, by simp [Event.timeless]⟩
  | @complete a lat e now hl =>
      obtain ⟨e', hl', hs⟩ := hinv.focus (a := a) rfl
      obtain rfl : e = e' := by simpa [hl] using hl'
      have hw : e.isWriteReq = true := (hinv.entry hl).nearWrite (.inr hs)
      have hnow : Manager.respondNow e lat now = [] := if_neg fun hc => by simp [hw] at hc
      have hlater : Manager.respondLater e lat now = [] := if_neg fun hc => by simp [hw] at hc
      refine ⟨?_, [.retired e now], ?_, by simp [Event.timeless, hw]⟩
      · rw [Manager.retire_pendingResponses, hlater, List.append_nil]
      · rw [Manager.retire_log, hnow]
  | promote now =>
      refine ⟨?_, _, Manager.admitEntry_log .., by simp [Event.timeless]⟩
      rw [Manager.admitEntry_pendingResponses]
      rfl
  | @flag a i =>
      rcases m.flagConflict_eq a i with hf | ⟨e, -, hf⟩ <;> rw [hf] <;> exact ⟨rfl, [], by simp⟩
  | fill => exact ⟨rfl, [_], rfl, by simp [Event.timeless]⟩
  | drained => exact ⟨rfl, [_], rfl, by simp [Event.timeless]⟩
  | responses => exact absurd rfl hrelease
  | _ => exact ⟨rfl, hsame rfl⟩

theorem exec_responseStep {s s' : Sys} {c : Call} {K ks : List Call}
    (hfb : 0 < s.dcm.frontendLatencyCycles + s.dcm.backendLatencyCycles)
    (hinv : OrbInv (Ctl.of (c :: K)) s.dcm.core) (he : s.exec c = .ok (s', ks)) :
    ResponseStep s c s'.dcm := by
  by_cases hreturn : ∃ side pkt, c = .returnData side pkt
  · obtain ⟨side, pkt, rfl⟩ := hreturn
    obtain rfl : (s.returnData side pkt).1 = s' := congrArg Prod.fst (Except.ok.inj he)
    exact returnData_responseStep hfb hinv
  · by_cases hrelease : c = .processPendingResponses
    · subst hrelease
      obtain rfl : s.onDcm (·.processPendingResponses s.clock) = s' :=
        congrArg Prod.fst (Except.ok.inj he)
      exact .released
    · obtain ⟨hheld, evs, hlog, hevs⟩ := (Sys.exec_frontStep he).responses_quiet hinv
        (fun side pkt hc => hreturn ⟨side, pkt, hc⟩) hrelease
      exact .quiet evs hheld hlog hevs

/-! ## One clock, and no hit ahead of a far fetch -/

/-- The controller latency is set before the run, and there is one clock. -/
def Op.Timed : Op → Prop
  | .setControllerLatency .. => False
  | .tick clk => ∀ cpu, clk.cycle cpu = clk.cycle 0
  | _ => True

/-- The clock does not go back. -/
def Op.onward (op : Op) (s : Sys) : Bool :=
  match op with
  | .tick clk => decide (s.clock.cycle 0 ≤ clk.cycle 0)
  | _ => true

/-- The next call completes a read hit while the response of a far fetch
that is due later is held. -/
def Sys.overtakes (s : Sys) : Call → Bool
  | .returnData _ pkt =>
      match s.dcm.orb.lookup pkt.address with
      | some e =>
          decide (e.state = .waitingLocMemReadResp) && !e.isWriteReq && e.isHit &&
            s.dcm.pendingResponses.any fun r => decide (s.now e.pkt.cpu
              + (s.dcm.frontendLatencyCycles + s.dcm.backendLatencyCycles) < r.targetCycle)
      | none => false
  | _ => false

def InTurn (x : Worklist.Config Sys Call) : Prop := ∀ c ∈ x.1.head?, x.2.overtakes c = false

/-- The held responses are due in the order in which they are held, and
none later than a far fetch completed now. -/
structure Held (s : Sys) : Prop where
  sorted : s.dcm.pendingResponses.Pairwise fun r r' => r.targetCycle ≤ r'.targetCycle
  soon : ∀ r ∈ s.dcm.pendingResponses, r.targetCycle
    ≤ s.clock.cycle 0 + (s.dcm.frontendLatencyCycles + s.dcm.backendLatencyCycles
      + s.dcm.backendLatencyCycles)

/-- With one clock, what is due is in front, and is released. -/
theorem Held.release {s : Sys} (h : Held s) (hclk : ∀ cpu, s.clock.cycle cpu = s.clock.cycle 0) :
    ∃ due rest, s.dcm.pendingResponses = due ++ rest ∧
      (∀ r ∈ due, r.targetCycle ≤ s.now r.pkt.cpu) ∧
      (∀ r ∈ rest, s.now r.pkt.cpu < r.targetCycle) ∧
      s.dcm.processPendingResponses s.clock =
        { s.dcm with
          pendingResponses := rest
          log := s.dcm.log ++ due.flatMap fun r =>
            Manager.upcalls .response r.pkt (s.now r.pkt.cpu) } := by
  obtain ⟨due, rest, hrs, hdue, hrest, heq⟩ :=
    Manager.releaseResponses_split s.clock s.dcm.pendingResponses s.dcm
  refine ⟨due, rest, hrs, hdue, fun r hr => ?_, heq⟩
  have hsorted := h.sorted
  rw [hrs] at hsorted
  have hrest' := (List.pairwise_append.mp hsorted).2.1
  cases rest with
  | nil => cases hr
  | cons first rest =>
      have hfirst := hrest first rfl
      rcases List.mem_cons.mp hr with rfl | hr
      · exact hfirst
      · have := (List.pairwise_cons.mp hrest').1 r hr
        rw [hclk] at hfirst
        rw [Sys.now, hclk]
        omega

/-! ## Runs -/

theorem FrontEnter.responses {m m' : Manager} {op : Op} {ks : List Call}
    (h : FrontEnter m op m' ks) : m'.pendingResponses = m.pendingResponses := by
  cases h with
  | admitted now => exact Manager.admitEntry_pendingResponses ..
  | _ => rfl

theorem enter_clock (s : Sys) (op : Op) :
    (s.enter op).1.clock = s.clock ∨ ∃ clk, op = .tick clk ∧ (s.enter op).1.clock = clk := by
  have hadm : ∀ pkt w, (s.admission pkt w).1.clock = s.clock := fun pkt w =>
    congrArg Prod.fst (admission_env s pkt w)
  have hpass : ∀ (s' : Sys) pkt w, (s'.dispatchToFarGuaranteed pkt w).1.clock = s'.clock :=
    fun s' pkt w => congrArg Prod.fst (s'.dispatchToFarGuaranteed_env pkt w)
  cases op with
  | addRq pkt =>
      left
      simp only [Sys.enter, Sys.addRq]
      split
      · split <;> rfl
      · split
        · exact hpass ..
        · exact hadm ..
  | addWq pkt =>
      left
      simp only [Sys.enter, Sys.addWq]
      split
      · split <;> rfl
      · split
        · exact hpass ..
        · exact hadm ..
  | tick clk => exact .inr ⟨clk, rfl, rfl⟩
  | _ => exact .inl rfl

/-- Entering an operation moves no response, in any mode. -/
theorem enter_quiet (s : Sys) (op : Op) :
    (s.enter op).1.dcm.pendingResponses = s.dcm.pendingResponses ∧
      ∃ evs, (s.enter op).1.dcm.log = s.dcm.log ++ evs ∧ ∀ ev ∈ evs, ev.timeless := by
  rcases s.enter_open op with hf | ⟨ha, -⟩
  · obtain ⟨evs, hlog, hevs⟩ := hf.log_append
    refine ⟨hf.responses, evs, hlog, fun ev hev => ?_⟩
    have := hevs ev hev
    cases ev <;> first | rfl | cases this
  · obtain ⟨evs, hlog, hevs⟩ := ha.log
    refine ⟨ha.responses, evs, hlog, fun ev hev => ?_⟩
    have := hevs ev hev
    cases ev with
    | upcall why port pkt now => cases why <;> first | rfl | cases this
    | _ => first | rfl | cases this

/-- What a run on time keeps. -/
structure OnTime (f b : Nat) (s : Sys) : Prop where
  frontend : s.dcm.frontendLatencyCycles = f
  backend : s.dcm.backendLatencyCycles = b
  clock : ∀ cpu, s.clock.cycle cpu = s.clock.cycle 0
  held : Held s
  timely : ∃ delivered, Timely f b s.dcm delivered

namespace OnTime

variable {f b : Nat} {s s' : Sys}

/-- No response moves while the clock goes on. -/
theorem quiet (h : OnTime f b s) (hl : s'.dcm.latencies.2 = s.dcm.latencies.2)
    (hclk : ∀ cpu, s'.clock.cycle cpu = s'.clock.cycle 0)
    (hon : s.clock.cycle 0 ≤ s'.clock.cycle 0)
    (hheld : s'.dcm.pendingResponses = s.dcm.pendingResponses) {evs : List Event}
    (hlog : s'.dcm.log = s.dcm.log ++ evs) (hevs : ∀ ev ∈ evs, ev.timeless) : OnTime f b s' := by
  have hf : s'.dcm.frontendLatencyCycles = s.dcm.frontendLatencyCycles := congrArg Prod.fst hl
  have hb : s'.dcm.backendLatencyCycles = s.dcm.backendLatencyCycles := congrArg Prod.snd hl
  obtain ⟨delivered, ht⟩ := h.timely
  obtain ⟨hr, hc⟩ := responses_timeless hevs f b
  refine ⟨hf.trans h.frontend, hb.trans h.backend, hclk, ⟨?_, fun r hr => ?_⟩, delivered, ?_, ?_,
    ht.notEarly⟩
  · rw [hheld]
    exact h.held.sorted
  · rw [hheld] at hr
    have := h.held.soon r hr
    rw [hf, hb]
    omega
  · rw [hlog, responses_append, hr, List.append_nil, hheld]
    exact ht.order
  · rw [hlog, responseCalls_append, hc, List.append_nil]
    exact ht.calls

/-- A completed read puts its response last. -/
theorem completed {side : Side} {pkt : Packet} {e : OrbEntry} {evs : List Event}
    (h : OnTime f b s) (hl : s'.dcm.latencies = s.dcm.latencies) (hclock : s'.clock = s.clock)
    (hturn : s.overtakes (.returnData side pkt) = false)
    (hlook : s.dcm.orb.lookup pkt.address = some e) (hw : e.isWriteReq = false)
    (hs : e.state = .waitingLocMemReadResp ∧ e.isHit = true ∨ e.isHit = false)
    (hheld : s'.dcm.pendingResponses = s.dcm.pendingResponses
      ++ [{ targetCycle := s.now e.pkt.cpu + e.responseDelay s.dcm.frontendLatencyCycles
              s.dcm.backendLatencyCycles,
            pkt := e.pkt }])
    (hlog : s'.dcm.log = s.dcm.log ++ (evs ++ [.retired e (s.now e.pkt.cpu)]))
    (hevs : ∀ ev ∈ evs, ev.timeless) : OnTime f b s' := by
  obtain ⟨delivered, ht⟩ := h.timely
  obtain ⟨hr, hc⟩ := responses_timeless hevs f b
  have hlast : ∀ r ∈ s.dcm.pendingResponses,
      r.targetCycle ≤ s.now e.pkt.cpu + e.responseDelay f b := by
    intro r hmem
    rcases hs with ⟨hs, hh⟩ | hh
    · -- a hit is completed in turn only
      have hnot := hturn
      simp only [Sys.overtakes, hlook, hs, hw, hh, decide_true, Bool.not_false,
        Bool.true_and, List.any_eq_false, decide_eq_true_eq] at hnot
      have := hnot r hmem
      rw [h.frontend, h.backend] at this
      rw [OrbEntry.responseDelay, if_pos hh]
      omega
    · have := h.held.soon r hmem
      rw [h.frontend, h.backend] at this
      rw [OrbEntry.responseDelay, hh, Sys.now, h.clock]
      simpa using this
  have hdelay : e.responseDelay f b ≤ f + b + b := by
    unfold OrbEntry.responseDelay
    split <;> omega
  rw [h.frontend, h.backend] at hheld
  have hf : s'.dcm.frontendLatencyCycles = f :=
    (congrArg (fun l => l.2.1) hl).trans h.frontend
  have hb : s'.dcm.backendLatencyCycles = b :=
    (congrArg (fun l => l.2.2) hl).trans h.backend
  refine ⟨hf, hb, hclock ▸ h.clock, ⟨?_, fun r hmem => ?_⟩, delivered, ?_, ?_, ht.notEarly⟩
  · rw [hheld, List.pairwise_append]
    refine ⟨h.held.sorted, List.pairwise_singleton .., fun r hmem r' hmem' => ?_⟩
    rw [List.mem_singleton.mp hmem']
    exact hlast r hmem
  · rw [hheld] at hmem
    rw [hf, hb, hclock]
    rcases List.mem_append.mp hmem with hmem | hmem
    · have := h.held.soon r hmem
      rwa [h.frontend, h.backend] at this
    · rw [List.mem_singleton.mp hmem, Sys.now, h.clock]
      exact Nat.add_le_add_left hdelay _
  · rw [hheld, hlog, responses_append, responses_append, hr, ht.order, List.nil_append,
      List.append_assoc]
    congr 2
    simp [responses, Event.response?, hw]
  · rw [hlog, responseCalls_append, responseCalls_append, hc, ht.calls]
    exact List.append_nil _

/-- What is due is delivered. -/
theorem released (h : OnTime f b s) (hl : s'.dcm.latencies = s.dcm.latencies)
    (hclock : s'.clock = s.clock) (hm : s'.dcm = s.dcm.processPendingResponses s.clock) :
    OnTime f b s' := by
  obtain ⟨delivered, ht⟩ := h.timely
  obtain ⟨due, rest, hrs, hdue, -, heq⟩ := h.held.release h.clock
  have hsorted := h.held.sorted
  have hsoon := h.held.soon
  have horder := ht.order
  rw [hrs] at hsorted hsoon horder
  have hcalls : ∀ r : PendingResponse,
      responses f b (Manager.upcalls .response r.pkt (s.now r.pkt.cpu)) = [] ∧
      responseCalls (Manager.upcalls .response r.pkt (s.now r.pkt.cpu))
        = Manager.upcalls .response r.pkt (s.now r.pkt.cpu) := by
    intro r
    refine ⟨List.filterMap_eq_nil_iff.mpr fun ev hev => ?_,
      List.filter_eq_self.mpr fun ev hev => ?_⟩ <;>
    · obtain ⟨port, rfl⟩ := Manager.mem_upcalls hev
      rfl
  have hpending : s'.dcm.pendingResponses = rest := by rw [hm, heq]
  have hlog : s'.dcm.log = s.dcm.log ++ due.flatMap fun r =>
      Manager.upcalls .response r.pkt (s.now r.pkt.cpu) := by rw [hm, heq]
  have hf : s'.dcm.frontendLatencyCycles = s.dcm.frontendLatencyCycles :=
    congrArg (fun l => l.2.1) hl
  have hb : s'.dcm.backendLatencyCycles = s.dcm.backendLatencyCycles :=
    congrArg (fun l => l.2.2) hl
  refine ⟨hf.trans h.frontend, hb.trans h.backend, hclock ▸ h.clock, ⟨?_, fun r hmem => ?_⟩,
    delivered ++ due.map fun r => (r, s.now r.pkt.cpu), ?_, ?_, fun p hp => ?_⟩
  · rw [hpending]
    exact (List.pairwise_append.mp hsorted).2.1
  · rw [hpending] at hmem
    rw [hf, hb, hclock]
    exact hsoon r (List.mem_append_right _ hmem)
  · have hnone : responses f b (due.flatMap fun r =>
        Manager.upcalls .response r.pkt (s.now r.pkt.cpu)) = [] := by
      rw [responses, List.filterMap_flatMap]
      exact List.flatMap_eq_nil_iff.mpr fun r _ => (hcalls r).1
    rw [hpending, hlog, responses_append, hnone, List.append_nil, horder, List.map_append,
      List.map_map, List.append_assoc]
    congr 2
    exact (List.map_id _).symm
  · have hsame : responseCalls (due.flatMap fun r =>
        Manager.upcalls .response r.pkt (s.now r.pkt.cpu))
        = due.flatMap fun r => Manager.upcalls .response r.pkt (s.now r.pkt.cpu) := by
      rw [responseCalls, List.filter_flatMap]
      exact List.flatMap_congr fun r _ => (hcalls r).2
    rw [hlog, responseCalls_append, ht.calls, hsame, List.flatMap_append, List.flatMap_map]
  · rcases List.mem_append.mp hp with hp | hp
    · exact ht.notEarly p hp
    · obtain ⟨r, hr, rfl⟩ := List.mem_map.mp hp
      exact hdue r hr

theorem step {c : Call} {K ks : List Call} (h : OnTime f b s) (hfb : 0 < f + b)
    (hinv : OrbInv (Ctl.of (c :: K)) s.dcm.core) (hturn : s.overtakes c = false)
    (he : s.exec c = .ok (s', ks)) : OnTime f b s' := by
  have hl : s'.dcm.latencies = s.dcm.latencies := (Sys.exec_frontStep he).latencies
  have hclock : s'.clock = s.clock := congrArg Prod.fst (Sys.exec_env he)
  have hstep := exec_responseStep (by rwa [h.frontend, h.backend]) hinv he
  generalize hm : s'.dcm = m' at hstep
  cases hstep with
  | quiet evs hheld hlog hevs =>
      exact h.quiet (congrArg Prod.snd hl) (hclock ▸ h.clock) (hclock ▸ le_refl _)
        (hm ▸ hheld) (hm ▸ hlog) hevs
  | completed evs hlook hw hs hheld hlog hevs =>
      exact h.completed hl hclock hturn hlook hw hs (hm ▸ hheld) (hm ▸ hlog) hevs
  | released => exact h.released hl hclock hm

theorem enter {op : Op} (h : OnTime f b s) (hop : op.Timed) (hon : op.onward s = true) :
    OnTime f b (s.enter op).1 := by
  have hl : (s.enter op).1.dcm.latencies.2 = s.dcm.latencies.2 := by
    rw [enter_latencies s op]
    cases op with
    | setControllerLatency => cases hop
    | _ => rfl
  have hclk : (∀ cpu, (s.enter op).1.clock.cycle cpu = (s.enter op).1.clock.cycle 0) ∧
      s.clock.cycle 0 ≤ (s.enter op).1.clock.cycle 0 := by
    rcases enter_clock s op with hclock | ⟨clk, rfl, hclock⟩
    · rw [hclock]
      exact ⟨h.clock, le_refl _⟩
    · rw [hclock]
      exact ⟨hop, of_decide_eq_true hon⟩
  obtain ⟨hheld, evs, hlog, hevs⟩ := enter_quiet s op
  exact h.quiet hl hclk.1 hclk.2 hheld hlog hevs

end OnTime

section Run

variable {allow : Op → Prop} {near far : MemoryController} {clk : Clock} {f b : Nat}
  {x : Worklist.Config Sys Call}

theorem onTime_of_boot (hallow : ∀ op, allow op → op.Timed)
    (hclk : ∀ cpu, clk.cycle cpu = clk.cycle 0) (hfb : 0 < f + b)
    (h : ReachesIf (machine.gated Op.onward) allow InTurn (.boot near far clk f b) x) :
    OnTime f b x.2 := by
  refine (ReachesIf.gated_invariant (M := machine) (P := fun x => OnTime f b x.2) ?_ ?_ ?_ h).2
  · exact ⟨rfl, rfl, hclk, ⟨List.Pairwise.nil, by simp [Sys.boot]⟩, [], rfl, rfl, by simp⟩
  · intro op s ha hg _ hp
    exact hp.enter (hallow op ha) hg
  · intro c K s s' ks hok hr hp he
    exact hp.step hfb (orbInv_of_boot hr).2 (hok c rfl) he

/-- What is still to be called before the responses are released, or else
that nothing due is held. -/
def Releasing (x : Worklist.Config Sys Call) : Prop :=
  (∃ K, x.1 = K ++ [.processPendingResponses, .recordOccupancySamples]) ∨
  (x.1 = [] ∨ x.1 = [.recordOccupancySamples]) ∧
    ∀ r ∈ x.2.dcm.pendingResponses, x.2.now r.pkt.cpu < r.targetCycle

theorem Releasing.step {c : Call} {K ks : List Call} {s s' : Sys} (h : Releasing (c :: K, s))
    (hheld : Held s) (hclk : ∀ cpu, s.clock.cycle cpu = s.clock.cycle 0)
    (he : s.exec c = .ok (s', ks)) : Releasing (ks ++ K, s') := by
  rcases h with ⟨K', hK⟩ | ⟨hK, hlater⟩
  · cases K' with
    | nil =>
        obtain ⟨rfl, rfl⟩ := List.cons.inj hK
        obtain ⟨rfl, rfl⟩ := Prod.mk.inj (Except.ok.inj he)
        obtain ⟨due, rest, -, -, hrest, heq⟩ := hheld.release hclk
        refine .inr ⟨.inr rfl, fun r hr => ?_⟩
        have hpending : (s.onDcm (·.processPendingResponses s.clock)).dcm.pendingResponses
            = rest := by rw [Sys.onDcm_dcm, heq]
        rw [hpending] at hr
        exact hrest r hr
    | cons c' K' =>
        obtain ⟨rfl, rfl⟩ := List.cons.inj hK
        exact .inl ⟨ks ++ K', (List.append_assoc ..).symm⟩
  · rcases hK with hK | hK
    · cases hK
    · obtain ⟨rfl, rfl⟩ := List.cons.inj hK
      obtain ⟨rfl, rfl⟩ := Prod.mk.inj (Except.ok.inj he)
      exact .inr ⟨.inl rfl, hlater⟩

/-- **Responses are on time** in a run that completes no hit while a later
response is held: every response is delivered once, in the order of
completion and not before it is due, and after each `operate` nothing that
is due is held any more. -/
theorem responses_on_time (hallow : ∀ op, allow op → op.Timed)
    (hclk : ∀ cpu, clk.cycle cpu = clk.cycle 0) (hfb : 0 < f + b) :
    (∀ x, ReachesIf (machine.gated Op.onward) allow InTurn (.boot near far clk f b) x →
      ∃ delivered, Timely f b x.2.dcm delivered) ∧
    ∀ s s', ReachesIf (machine.gated Op.onward) allow InTurn (.boot near far clk f b)
        (Sys.operateCalls, s) →
      Worklist.Executes machine InTurn (Sys.operateCalls, s) ([], s') →
      ∀ r ∈ s'.dcm.pendingResponses, s'.now r.pkt.cpu < r.targetCycle := by
  refine ⟨fun x hr => (onTime_of_boot hallow hclk hfb hr).timely, fun s s' hr hrun => ?_⟩
  have hstart : Releasing (Sys.operateCalls, s) :=
    .inl ⟨[.processPendingFarDispatches, .drainWB, .processPendingNearDispatches,
      .operateController .near, .operateController .far], rfl⟩
  have hend := Worklist.Executes.invariant hrun
    (P := fun x => ReachesIf (machine.gated Op.onward) allow InTurn (.boot near far clk f b) x ∧
      Releasing x) ⟨hr, hstart⟩ ?_
  · rcases hend.2 with ⟨K, hK⟩ | ⟨-, hlater⟩
    · simp at hK
    · exact hlater
  · rintro c K s s' ks hok ⟨hr, hp⟩ he
    have htime := onTime_of_boot hallow hclk hfb hr
    exact ⟨hr.call hok he, hp.step htime.held htime.clock he⟩

end Run

/-! ## A hit behind a far fetch -/

instance InTurn.decidable (x : Worklist.Config Sys Call) : Decidable (InTurn x) :=
  inferInstanceAs (Decidable (∀ c ∈ x.1.head?, x.2.overtakes c = false))

/-- A line is fetched and delivered, then read again. -/
theorem responses_on_time_miss_hit :
    ∃ s s', Worklist.driveIf (machine.gated Op.onward) InTurn 60
        [.finishWarmup, .addRq (.readOf 7), .tick (.at 1 (by decide)), .operate,
          .tick (.at 5 (by decide)), .operate, .addRq (.readOf 7), .tick (.at 7 (by decide))]
        (.boot (.new 0 0 0 0) (.new 0 0 0 0) .zero 0 2) = some s ∧
      Worklist.exhaustIf machine InTurn 60 Sys.operateCalls s = some s' ∧
      s'.dcm.stats.completedReadsToLLC = 2 ∧ (∃ delivered, Timely 0 2 s'.dcm delivered) ∧
      ∀ r ∈ s'.dcm.pendingResponses, s'.now r.pkt.cpu < r.targetCycle := by
  obtain ⟨s, hs, hrun⟩ := Option.bind_eq_some_iff.mp (show (Worklist.driveIf
    (machine.gated Op.onward) InTurn 60
    [.finishWarmup, .addRq (.readOf 7), .tick (.at 1 (by decide)), .operate,
      .tick (.at 5 (by decide)), .operate, .addRq (.readOf 7), .tick (.at 7 (by decide))]
    (.boot (.new 0 0 0 0) (.new 0 0 0 0) .zero 0 2)).bind (fun s =>
        (Worklist.exhaustIf machine InTurn 60 Sys.operateCalls s).map fun s' =>
          s'.dcm.stats.completedReadsToLLC) = some 2 from by decide +kernel)
  obtain ⟨s', hs', hcount⟩ := Option.map_eq_some_iff.mp hrun
  have hr : ReachesIf (machine.gated Op.onward) Op.Timed InTurn
      (.boot (.new 0 0 0 0) (.new 0 0 0 0) .zero 0 2) ([], s) := by
    refine Worklist.driveIf_reaches ?_ .refl hs
    simp [Op.Timed, Clock.at]
  have hop : Op.Timed .operate := trivial
  have hoperate : ReachesIf (machine.gated Op.onward) Op.Timed InTurn
      (.boot (.new 0 0 0 0) (.new 0 0 0 0) .zero 0 2) (Sys.operateCalls, s) :=
    hr.enter hop fun _ h => by cases h
  have hexec : Worklist.Executes machine InTurn (Sys.operateCalls, s) ([], s') :=
    Worklist.exhaustIf_executes .refl hs'
  have hallow : ∀ op : Op, op.Timed → op.Timed := fun _ h => h
  have hclk : ∀ cpu, Clock.zero.cycle cpu = Clock.zero.cycle 0 := fun _ => rfl
  have hfb : 0 < 0 + 2 := by decide
  exact ⟨s, s', hs, hs', hcount,
    (responses_on_time hallow hclk hfb).1 _ (hoperate.executes hexec.gated),
    (responses_on_time hallow hclk hfb).2 s s' hoperate hexec⟩

/-- A line is fetched and read again at once: the response of the hit is
due first and held behind the other. -/
theorem late_response :
    ∃ s s', Worklist.Reaches (machine.gated Op.onward) Op.Timed
        (.boot (.new 0 0 0 0) (.new 0 0 0 0) .zero 0 2) (Sys.operateCalls, s) ∧
      Worklist.Executes machine (fun _ => True) (Sys.operateCalls, s) ([], s') ∧
      ∃ r ∈ s'.dcm.pendingResponses, r.targetCycle ≤ s'.now r.pkt.cpu := by
  obtain ⟨s, hs, hrun⟩ := Option.bind_eq_some_iff.mp (show (Worklist.drive
    (machine.gated Op.onward) 60
    [.finishWarmup, .addRq (.readOf 7), .tick (.at 1 (by decide)), .operate,
      .addRq (.readOf 7), .tick (.at 3 (by decide))]
    (.boot (.new 0 0 0 0) (.new 0 0 0 0) .zero 0 2)).bind (fun s =>
        (Worklist.exhaust machine 60 Sys.operateCalls s).bind fun r => r.toOption.map fun s' =>
          s'.dcm.pendingResponses.any fun r => decide (r.targetCycle ≤ s'.now r.pkt.cpu))
    = some true from by decide +kernel)
  obtain ⟨res, hres, hrun⟩ := Option.bind_eq_some_iff.mp hrun
  obtain ⟨s', hs', hany⟩ := Option.map_eq_some_iff.mp hrun
  have hr : Worklist.Reaches (machine.gated Op.onward) Op.Timed
      (.boot (.new 0 0 0 0) (.new 0 0 0 0) .zero 0 2) ([], s) := by
    refine Worklist.drive_reaches ?_ .refl hs
    simp [Op.Timed, Clock.at]
  have hexec : Worklist.Executes machine (fun _ => True) (Sys.operateCalls, s) ([], s') := by
    cases res with
    | error a => cases hs'
    | ok s₁ =>
        obtain rfl : s₁ = s' := Option.some.inj hs'
        exact Worklist.exhaust_executes .refl hres
  have hop : Op.Timed .operate := trivial
  obtain ⟨r, hmem, hdue⟩ := List.any_eq_true.mp hany
  exact ⟨s, s', hr.enter hop trivial, hexec, r, hmem, of_decide_eq_true hdue⟩

end DramCache
