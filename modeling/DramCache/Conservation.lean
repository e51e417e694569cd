import Mathlib.Algebra.Order.Group.Multiset
import Mathlib.Tactic.Abel
import DramCache.Admission

/-!
# Request conservation

Every accepted request is in exactly one place: waiting in the CRB, worked
on in the ORB, held for the controller latency, or finished. A read is
finished when the upper level's `return_data` has been called for it, a
write when it is completed. The accounting is an equation of multisets of
requests that every step keeps.
-/

namespace DramCache

open Keyed (values)
open Worklist (ReachesIf Reaches)

/-- The port a read with one flag asks for. -/
def Packet.port (pkt : Packet) : Port := if pkt.instruction then .icache else .dcache

/-- A request finished: a read handed to the port it asked for, or a write
completed. -/
def Event.finished? : Event → Option Request
  | .upcall .response port pkt _ => if port = pkt.port then some (false, pkt) else none
  | .retired e _ => if e.isWriteReq then some (true, e.pkt) else none
  | _ => none

/-- A call of the upper level that is no response to a read. -/
def Event.stray? : Event → Option Event
  | .upcall .response port pkt c =>
      if port = pkt.port then none else some (.upcall .response port pkt c)
  | .upcall why port pkt c => some (.upcall why port pkt c)
  | _ => none

def finished (log : List Event) : List Request := log.filterMap Event.finished?

def strays (log : List Event) : List Event := log.filterMap Event.stray?

@[simp] theorem finished_append (l₁ l₂ : List Event) :
    finished (l₁ ++ l₂) = finished l₁ ++ finished l₂ := List.filterMap_append ..

@[simp] theorem strays_append (l₁ l₂ : List Event) :
    strays (l₁ ++ l₂) = strays l₁ ++ strays l₂ := List.filterMap_append ..

def PendingResponse.request (r : PendingResponse) : Request := (false, r.pkt)

namespace Manager

/-- The requests worked on. -/
def working (m : Manager) : Multiset Request := (values m.orb).map OrbEntry.request

/-- The reads whose response is held back. -/
def held (m : Manager) : List Request := m.pendingResponses.map PendingResponse.request

/-- Every place a request can be in. -/
def placed (m : Manager) : Multiset Request :=
  ↑m.waiting + m.working + ↑m.held + ↑(finished m.log)

end Manager

/-! ## Responses -/

theorem upcalls_response {pkt : Packet} (h : pkt.SingleFlag) (now : Nat) :
    Manager.upcalls .response pkt now = [.upcall .response pkt.port pkt now] := by
  unfold Packet.SingleFlag at h
  unfold Manager.upcalls Packet.port
  cases hi : pkt.instruction <;> cases hd : pkt.isData <;> simp_all

theorem finished_upcalls {pkt : Packet} (h : pkt.SingleFlag) (now : Nat) :
    finished (Manager.upcalls .response pkt now) = [(false, pkt)] ∧
      strays (Manager.upcalls .response pkt now) = [] := by
  rw [upcalls_response h]
  simp [finished, strays, Event.finished?, Event.stray?]

/-- A completed request is finished or held, once. -/
theorem retire_finishes {e : OrbEntry} (h : e.isWriteReq = false → e.pkt.SingleFlag)
    (lat now : Nat) :
    (↑((Manager.respondLater e lat now).map PendingResponse.request)
      + ↑(finished (.retired e now :: Manager.respondNow e lat now)) : Multiset Request)
      = {e.request} ∧
    strays (.retired e now :: Manager.respondNow e lat now) = [] := by
  cases hw : e.isWriteReq
  · have hf := finished_upcalls (h hw) now
    by_cases hlat : lat = 0
    · have hnow : Manager.respondNow e lat now = Manager.upcalls .response e.pkt now := by
        simp [Manager.respondNow, hw, hlat]
      have hlater : Manager.respondLater e lat now = [] := by
        simp [Manager.respondLater, hlat]
      rw [hnow, hlater, ← List.singleton_append, finished_append, strays_append, hf.1, hf.2]
      simp [finished, strays, Event.finished?, Event.stray?, hw, OrbEntry.request]
    · simp [Manager.respondLater, Manager.respondNow, finished, strays, Event.finished?,
        Event.stray?, hw, hlat, OrbEntry.request, PendingResponse.request]
  · simp [Manager.respondLater, Manager.respondNow, finished, strays, Event.finished?,
      Event.stray?, hw, OrbEntry.request]

theorem released_finished (clk : Clock) {due : List PendingResponse}
    (h : ∀ r ∈ due, r.pkt.SingleFlag) :
    finished (due.flatMap fun r => Manager.upcalls .response r.pkt (clk.cycle r.pkt.cpu))
      = due.map PendingResponse.request ∧
    strays (due.flatMap fun r => Manager.upcalls .response r.pkt (clk.cycle r.pkt.cpu))
      = [] := by
  induction due with
  | nil => exact ⟨rfl, rfl⟩
  | cons r due ih =>
      have hr := finished_upcalls (h r (List.mem_cons_self ..)) (clk.cycle r.pkt.cpu)
      have hrest := ih fun r hr => h r (List.mem_cons_of_mem _ hr)
      rw [List.flatMap_cons, finished_append, strays_append, hr.1, hr.2, hrest.1, hrest.2]
      exact ⟨rfl, rfl⟩

/-- Events that neither admit nor finish a request, nor call the upper
level. -/
def Event.internal : Event → Bool
  | .accepted .. | .warmed .. | .admitted _ | .retired .. | .upcall .. => false
  | _ => true

theorem internal_silent {evs : List Event} (h : ∀ ev ∈ evs, ev.internal) :
    ∀ ev ∈ evs, ev.isAdmission = false := by
  intro ev hev
  have := h ev hev
  cases ev <;> simp_all [Event.internal, Event.isAdmission]

theorem internal_unheard {evs : List Event} (h : ∀ ev ∈ evs, ev.internal) :
    finished evs = [] ∧ strays evs = [] := by
  constructor <;> refine List.filterMap_eq_nil_iff.mpr fun ev hev => ?_ <;>
    have := h ev hev <;>
    cases ev <;> simp_all [Event.internal, Event.finished?, Event.stray?]

theorem victimEvents_internal (e : OrbEntry) : ∀ ev ∈ Manager.victimEvents e, ev.internal := by
  intro ev hev
  unfold Manager.victimEvents at hev
  split at hev <;> simp_all [Event.internal]

/-! ## The accounts balance -/

structure Balanced (strays₀ : List Event) (m : Manager) : Prop where
  single : ∀ r ∈ accepted m.log, r.1 = false → r.2.SingleFlag
  balance : (accepted m.log : Multiset Request) = m.placed
  noStray : strays m.log = strays₀

namespace Balanced

variable {m m' : Manager} {strays₀ : List Event}

/-- Requests stay where they are. -/
theorem still (h : Balanced strays₀ m) {evs : List Event} (hlog : m'.log = m.log ++ evs)
    (hevs : ∀ ev ∈ evs, ev.internal) (hwait : m'.waiting = m.waiting)
    (hwork : m'.working = m.working) (hheld : m'.held = m.held) : Balanced strays₀ m' := by
  have ha : accepted m'.log = accepted m.log := by
    rw [hlog, accepted_append, accepted_silent (internal_silent hevs), List.append_nil]
  have hun := internal_unheard hevs
  refine ⟨by rw [ha]; exact h.single, ?_, ?_⟩
  · rw [ha, h.balance, Manager.placed, Manager.placed, hwait, hwork, hheld, hlog,
      finished_append, hun.1, List.append_nil]
  · rw [hlog, strays_append, hun.2, List.append_nil, h.noStray]

/-- An entry changes in place. -/
theorem change (h : Balanced strays₀ m) {a : Nat} {e : OrbEntry}
    (hl : m.orb.lookup a = some e) (e' : OrbEntry) (evs : List Event) (horb : m'.orb = m.orb.insert a e')
    (hreq : e'.request = e.request) (hlog : m'.log = m.log ++ evs)
    (hevs : ∀ ev ∈ evs, ev.internal) (hcrb : m'.crb = m.crb)
    (hpend : m'.pendingResponses = m.pendingResponses) : Balanced strays₀ m' := by
  refine h.still hlog hevs (by rw [Manager.waiting, hcrb]; rfl) ?_
    (by rw [Manager.held, hpend]; rfl)
  rw [Manager.working, horb, Keyed.map_values_insert _ hl hreq, Manager.working]

/-- The flags of a read the manager still has. -/
theorem singleFlag (h : Balanced strays₀ m) {pkt : Packet} (hp : (false, pkt) ∈ m.placed) :
    pkt.SingleFlag := by
  rw [← h.balance] at hp
  exact h.single _ (Multiset.mem_coe.mp hp) rfl

/-- A request completes. -/
theorem retire (h : Balanced strays₀ m) {a : Nat} {e : OrbEntry}
    (hl : m.orb.lookup a = some e) (lat now : Nat) (evs : List Event)
    (hlog : m'.log = m.log ++ evs ++ .retired e now :: Manager.respondNow e lat now)
    (hevs : ∀ ev ∈ evs, ev.internal) (horb : m'.orb = m.orb.erase a)
    (hcrb : m'.crb = m.crb)
    (hpend : m'.pendingResponses = m.pendingResponses ++ Manager.respondLater e lat now) :
    Balanced strays₀ m' := by
  have hwork : m.working = e.request ::ₘ m'.working := by
    rw [Manager.working, Keyed.values_erase hl, Multiset.map_cons, Manager.working, horb]
  have hwait : m'.waiting = m.waiting := by rw [Manager.waiting, hcrb, Manager.waiting]
  have hsingle : e.isWriteReq = false → e.pkt.SingleFlag := by
    intro hw
    refine h.singleFlag ?_
    have : (false, e.pkt) = e.request := by rw [OrbEntry.request, hw]
    rw [this, Manager.placed, hwork]
    simp
  have hfin := retire_finishes hsingle lat now
  have ha : accepted m'.log = accepted m.log := by
    rw [hlog, accepted_append, accepted_append, accepted_silent (internal_silent hevs),
      accepted_silent retired_silent, List.append_nil, List.append_nil]
  have hun := internal_unheard hevs
  refine ⟨by rw [ha]; exact h.single, ?_, ?_⟩
  · rw [ha, h.balance, Manager.placed, Manager.placed, hwait, hwork, Manager.held, Manager.held,
      hpend, List.map_append, hlog, finished_append, finished_append, hun.1,
      List.append_nil, ← Multiset.coe_add, ← Multiset.coe_add, ← Multiset.singleton_add,
      ← hfin.1]
    abel
  · rw [hlog, strays_append, strays_append, hun.2, hfin.2, List.append_nil, List.append_nil,
      h.noStray]

/-- A request enters the ORB, from outside or from the CRB. -/
theorem admitEntry (h : Balanced strays₀ m) {pkt : Packet} {w : Bool} {arr : Option Nat}
    {now : Nat}
    {acc : List Request} (hm : m'.orb = m.orb)
    (hl : m.orb.lookup pkt.address = none) (hpend : m'.pendingResponses = m.pendingResponses)
    (hlog : accepted m'.log = accepted m.log ++ acc) (hfin : finished m'.log = finished m.log)
    (hstr : strays m'.log = strays m.log) (hacc : ∀ r ∈ acc, r.1 = false → r.2.SingleFlag)
    (hwait : (↑m'.waiting + {(w, pkt)} : Multiset Request) = ↑m.waiting + ↑acc) :
    Balanced strays₀ (m'.admitEntry pkt w arr now) := by
  have ha : accepted (m'.admitEntry pkt w arr now).log = accepted m.log ++ acc := by
    rw [Manager.admitEntry_log, accepted_append, hlog]
    exact List.append_nil _
  have hf : finished (m'.admitEntry pkt w arr now).log = finished m.log := by
    rw [Manager.admitEntry_log, finished_append, hfin]
    exact List.append_nil _
  have hw : (m'.admitEntry pkt w arr now).working = (w, pkt) ::ₘ m.working := by
    rw [Manager.working, Manager.admitEntry_orb, hm, Keyed.values_insert_new hl, Multiset.map_cons]
    rfl
  have hheld : (m'.admitEntry pkt w arr now).held = m.held := by
    rw [Manager.held, Manager.admitEntry_pendingResponses, hpend, Manager.held]
  have hwt : (m'.admitEntry pkt w arr now).waiting = m'.waiting := by
    rw [Manager.waiting, Manager.admitEntry_crb, Manager.waiting]
  refine ⟨?_, ?_, ?_⟩
  · rw [ha]
    intro r hr
    rcases List.mem_append.mp hr with hr | hr
    · exact h.single r hr
    · exact hacc r hr
  · rw [ha, Manager.placed, hf, hw, hheld, hwt, ← Multiset.coe_add, h.balance, Manager.placed,
      ← Multiset.singleton_add]
    calc (m.waiting : Multiset Request) + m.working + ↑m.held + ↑(finished m.log) + ↑acc
        = (↑m.waiting + ↑acc) + m.working + ↑m.held + ↑(finished m.log) := by abel
      _ = (↑m'.waiting + {(w, pkt)}) + m.working + ↑m.held + ↑(finished m.log) := by rw [hwait]
      _ = ↑m'.waiting + ({(w, pkt)} + m.working) + ↑m.held + ↑(finished m.log) := by abel
  · rw [Manager.admitEntry_log, strays_append, hstr]
    exact (List.append_nil _).trans h.noStray

/-- The waiter of a hole is admitted. -/
theorem promote (h : Balanced strays₀ m) {i : Nat} {w : CrbEntry} (now : Nat)
    (hinv : OrbInv (.hole i) m) (hw : m.waiter? i = some w) : Balanced strays₀
      ((m.takeWaiter i).admitEntry w.pkt w.isWriteReq (some w.arrivalCycle) now) := by
  refine h.admitEntry rfl (hinv.waiter_none hw) rfl (List.append_nil _).symm rfl rfl (by simp) ?_
  have hperm : (m.crb : Multiset CrbEntry) = w ::ₘ ↑(m.takeWaiter i).crb :=
    Multiset.coe_eq_coe.mpr (Keyed.perm_of_find hw)
  have := congrArg (Multiset.map CrbEntry.request) hperm
  simp only [Multiset.map_coe, Multiset.map_cons] at this
  rw [Manager.waiting, Manager.waiting, this, ← Multiset.singleton_add, add_comm]
  simp
  rfl

/-- Held responses are delivered. -/
theorem release (h : Balanced strays₀ m) (clk : Clock) :
    Balanced strays₀ (m.processPendingResponses clk) := by
  obtain ⟨due, rest, hsplit, hr⟩ := Manager.releaseResponses_eq clk m.pendingResponses m
  rw [Manager.processPendingResponses, hr]
  have hheld : m.held = due.map PendingResponse.request ++ rest.map PendingResponse.request := by
    rw [Manager.held, hsplit, List.map_append]
  have hsingle : ∀ r ∈ due, r.pkt.SingleFlag := by
    intro r hr
    refine h.singleFlag ?_
    have : PendingResponse.request r ∈ m.held := by
      rw [hheld]
      exact List.mem_append_left _ (List.mem_map_of_mem hr)
    rw [Manager.placed]
    simp only [Multiset.mem_add, Multiset.mem_coe]
    exact .inl (.inr this)
  have hrel := released_finished clk hsingle
  have hacc : ∀ {l : List PendingResponse}, accepted (l.flatMap fun r =>
      Manager.upcalls .response r.pkt (clk.cycle r.pkt.cpu)) = [] := by
    intro l
    refine accepted_silent fun ev hev => ?_
    obtain ⟨r, -, hev⟩ := List.mem_flatMap.mp hev
    exact upcalls_silent ev hev
  have ha : ∀ evs, accepted evs = [] → accepted (m.log ++ evs) = accepted m.log := by
    intro evs hevs
    rw [accepted_append, hevs, List.append_nil]
  refine ⟨?_, ?_, ?_⟩
  · rw [ha _ hacc]
    exact h.single
  · rw [ha _ hacc, h.balance, Manager.placed, Manager.placed, hheld, finished_append, hrel.1,
      ← Multiset.coe_add, ← Multiset.coe_add]
    simp only [Manager.held, Manager.waiting, Manager.working]
    abel
  · rw [strays_append, hrel.2, List.append_nil, h.noStray]

theorem step {c : Call} {ks K : List Call} (h : Balanced strays₀ m)
    (hinv : OrbInv (Ctl.of (c :: K)) m) (hstep : FrontStep m c m' ks)
    (hbyp : m.bypassOutstandingReads = 0) : Balanced strays₀ m' := by
  cases hstep with
  | bypassed now hmem => simp [hbyp] at hmem
  | untracked _ => exact h.still rfl (by simp [Event.internal]) rfl rfl rfl
  | stray _ _ => exact h.still rfl (by simp [Event.internal]) rfl rfl rfl
  | @nearEnter side pkt e st now hl _ _ =>
      rw [← (hinv.entry hl).addr] at hl
      refine h.change hl { e with state := st } (.answered side e :: Manager.victimEvents e)
        ?_ rfl ?_ ?_ ?_ ?_
      · simp [Manager.enterState, Manager.emit]
      · simp [Manager.enterState, Manager.emit]
      · simpa using ⟨rfl, victimEvents_internal e⟩
      · simp [Manager.enterState, Manager.emit]
      · simp [Manager.enterState, Manager.emit]
  | @nearHit side pkt e lat now hl _ _ _ =>
      rw [← (hinv.entry hl).addr] at hl
      refine h.retire hl lat now (.answered side e :: Manager.victimEvents e) ?_ ?_ ?_ ?_ ?_
      · simp [Manager.emit]
      · simpa using ⟨rfl, victimEvents_internal e⟩
      all_goals simp [Manager.emit]
  | @farDone side pkt e lat now hl _ =>
      rw [← (hinv.entry hl).addr] at hl
      refine h.retire hl lat now [.answered side e] ?_ ?_ ?_ ?_ ?_
      · simp [Manager.emit, Manager.farAnswered, Manager.count]
      · simp [Event.internal]
      all_goals simp [Manager.emit, Manager.farAnswered, Manager.count]
  | @readNear a e ks now hl _ _ =>
      rw [← (hinv.entry hl).addr] at hl
      exact h.change hl _ _ rfl rfl rfl (by simp [Event.internal]) rfl rfl
  | @readFar a e ks now hl _ _ =>
      rw [← (hinv.entry hl).addr] at hl
      exact h.change hl _ _ rfl rfl rfl (by simp [Event.internal]) rfl rfl
  | @writeNear a e now hl _ =>
      rw [← (hinv.entry hl).addr] at hl
      exact h.change hl _ _ rfl rfl rfl (by simp [Event.internal]) rfl rfl
  | @complete a lat e now hl =>
      rw [← (hinv.entry hl).addr] at hl
      refine h.retire hl lat now [] ?_ (by simp) ?_ ?_ ?_ <;> simp
  | @promote i w now hw => exact h.promote now hinv hw
  | @flag a i =>
      rcases m.flagConflict_eq a i with hf | ⟨e, hl, hf⟩ <;> rw [hf]
      · exact h
      · exact h.change hl _ [] rfl rfl (List.append_nil _).symm (by simp) rfl rfl
  | fill _ => exact h.still rfl (by simp [Event.internal]) rfl rfl rfl
  | drained _ => exact h.still rfl (by simp [Event.internal]) rfl rfl rfl
  | responses clk => exact h.release clk
  | samples => exact ⟨h.single, h.balance, h.noStray⟩
  | quiet _ _ => exact h
  | driveIdle _ => exact h
  | completeNone _ => exact h
  | promoteNone _ => exact h

theorem enter {op : Op} {ks : List Call} (h : Balanced strays₀ m) (hinv : OrbInv .calm m)
    (hop : op.SingleFlag) (hstep : FrontEnter m op m' ks) : Balanced strays₀ m' := by
  have hflag : ∀ {w pkt}, op.request? = some (w, pkt) → ∀ r ∈ [((w, pkt) : Request)],
      r.1 = false → r.2.SingleFlag := by
    intro w pkt hreq r hr hrd
    obtain rfl := List.mem_singleton.mp hr
    obtain rfl : w = false := hrd
    exact hop pkt hreq
  cases hstep with
  | @queued _ w pkt now hreq hc hroom =>
      refine ⟨?_, ?_, ?_⟩
      · intro r hr
        rw [Manager.waitInCRB, Manager.emit, accepted_append] at hr
        rcases List.mem_append.mp hr with hr | hr
        · exact h.single r hr
        · exact hflag hreq r hr
      · have hacc : accepted (m.waitInCRB pkt w now).log = accepted m.log ++ [(w, pkt)] :=
          accepted_append ..
        have hwait : (m.waitInCRB pkt w now).waiting = m.waiting ++ [(w, pkt)] :=
          List.map_append ..
        have hfin : finished (m.waitInCRB pkt w now).log = finished m.log :=
          (finished_append ..).trans (List.append_nil _)
        rw [hacc, Manager.placed, hwait, hfin, ← Multiset.coe_add, ← Multiset.coe_add,
          h.balance, Manager.placed]
        change _ = ↑m.waiting + _ + m.working + ↑m.held + _
        abel
      · rw [Manager.waitInCRB, Manager.emit, strays_append]
        exact (List.append_nil _).trans h.noStray
  | @admitted _ w pkt now hreq hc hwb horb =>
      refine h.admitEntry rfl (hinv.lookup_none hc) rfl (accepted_append ..) ?_ ?_ (hflag hreq) ?_
      · exact (finished_append ..).trans (List.append_nil _)
      · exact (strays_append ..).trans (List.append_nil _)
      · rfl
  | operate => exact h
  | _ => exact ⟨h.single, h.balance, h.noStray⟩

end Balanced

variable {allow : Op → Prop} {ok : Worklist.Config Sys Call → Prop} {s₀ : Sys}

/-- A warm-up log has finished nothing. -/
theorem warmup_unfinished {log : List Event} (h : ∀ ev ∈ log, ev.isWarmup = true) :
    finished log = [] := by
  refine List.filterMap_eq_nil_iff.mpr fun ev hev => ?_
  have := h ev hev
  cases ev with
  | upcall why port pkt c => cases why <;> simp_all [Event.isWarmup, Event.finished?]
  | _ => simp_all [Event.isWarmup, Event.finished?]

theorem balanced_of_reaches {x : Worklist.Config Sys Call}
    (hallow : ∀ op, allow op → op.Roi ∧ op.SingleFlag) (h₀ : s₀.Fresh)
    (h : ReachesIf machine allow ok s₀ x) : Balanced (strays s₀.dcm.log) x.2.dcm.core := by
  have hroi : ∀ op, allow op → op.Roi := fun op ha => (hallow op ha).1
  refine front_invariant (P := fun _ m => Balanced (strays s₀.dcm.log) m)
    (I := fun K m => OrbInv (Ctl.of K) m ∧ m.bypassOutstandingReads = 0) hroi h₀.live
    (fun x hx => ⟨(orbInv_of_reaches hroi h₀ hx).2,
      (live_of_reaches hroi h₀.live hx).noBypassReads⟩) ?_ ?_ ?_ h
  · have hacc : accepted s₀.dcm.core.log = [] := (warmup_silent h₀.log).1
    refine ⟨by simp [hacc], ?_, rfl⟩
    have hfin : finished s₀.dcm.core.log = [] := warmup_unfinished h₀.log
    have hcrb : s₀.dcm.core.crb = [] := h₀.crb
    have horb : s₀.dcm.core.orb = ∅ := h₀.orb
    have hpend : s₀.dcm.core.pendingResponses = [] := h₀.responses
    rw [hacc, Manager.placed, hfin, Manager.waiting, hcrb, Manager.working, horb, Manager.held,
      hpend]
    rfl
  · intro op m m' ks ha hstep hinv hp
    exact hp.enter hinv.1 (hallow op ha).2 hstep
  · intro c K m m' ks hstep hinv hp
    exact hp.step hinv.1 hstep hinv.2

/-- **Requests are conserved.** In every configuration of a run, call
boundaries among them, the requests accepted are, each as often as it was
accepted, the ones waiting in the CRB, worked on in the ORB, held for the
controller latency and finished; nothing else has reached the upper level
since the start; and a request is accepted exactly when `add_rq` or
`add_wq` does not return -2. -/
theorem requests_conserved (hallow : ∀ op, allow op → op.Roi ∧ op.SingleFlag) (h₀ : s₀.Fresh)
    {K : List Call} {s : Sys} (h : Reaches machine allow s₀ (K, s)) :
    (accepted s.dcm.log : Multiset Request)
      = ↑s.dcm.waiting + s.dcm.working + ↑s.dcm.held + ↑(finished s.dcm.log) ∧
    strays s.dcm.log = strays s₀.dcm.log ∧
    (K = [] → ∀ w pkt,
      if (s.addRequest pkt w).2.1 = -2 then
        (s.addRequest pkt w).1.dcm.log = s.dcm.log
      else accepted (s.addRequest pkt w).1.dcm.log = accepted s.dcm.log ++ [(w, pkt)]) := by
  have hbal := balanced_of_reaches hallow h₀ h
  refine ⟨hbal.balance, hbal.noStray, ?_⟩
  rintro rfl w pkt
  have hs : s.Live := live_of_reaches (fun op ha => (hallow op ha).1) h₀.live h
  exact Sys.accepted_of_addRequest hs w pkt

/-- A read miss with a conflicting read behind it, run to the end. -/
theorem requests_conserved_two_reads :
    ∃ s, Worklist.drive machine 60
        [.addRq (.readOf 5), .addRq (.readOf (5 + dcmNumLines)), .operate, .operate]
        (.cold .baselineCascadeLake 0) = some s ∧
      (accepted s.dcm.log : Multiset Request)
        = ↑s.dcm.waiting + s.dcm.working + ↑s.dcm.held + ↑(finished s.dcm.log) := by
  obtain ⟨s, hs⟩ := Option.isSome_iff_exists.mp (show (Worklist.drive machine 60
    [.addRq (.readOf 5), .addRq (.readOf (5 + dcmNumLines)), .operate, .operate]
    (.cold .baselineCascadeLake 0)).isSome from by decide +kernel)
  have hr : Reaches machine (fun op => op.Roi ∧ op.SingleFlag)
      (.cold .baselineCascadeLake 0) ([], s) := by
    refine Worklist.drive_reaches ?_ .refl hs
    simp [Op.Roi, Op.SingleFlag, Op.request?, Packet.readOf, Packet.SingleFlag]
  exact ⟨s, hs, (requests_conserved (fun _ h => h) (Sys.cold_fresh ..) hr).1⟩

end DramCache
