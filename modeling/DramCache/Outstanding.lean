import Mathlib.Algebra.BigOperators.Group.Multiset.Basic
import DramCache.Modes
import DramCache.Conservation
import DramCache.TwoRuns

/-!
# The reads the manager still owes

A read the manager has taken is in its ORB, waits in its CRB, is held for
the controller latency, or went round the DRAM cache in bypass mode. In any
mode, across the end of warm-up and whatever is switched when, a step calls
the upper level only for lines the manager owes, and owes them no more
afterwards: `Settles` is that account, `FrontStep.settles` and
`Sys.enter_settles` keep it.
-/

namespace DramCache

open Keyed (total)

/-- A delivery counts once, at the first port the packet asks for. -/
def answeredLine? (d : Port × Packet) : Option Nat := if d.1 = d.2.port then some d.2.address else none

/-- The lines delivered to the upper level. -/
def answeredLines (log : List Event) : Multiset Nat := ↑((deliveries log).filterMap answeredLine?)

@[simp] theorem answeredLines_append (l₁ l₂ : List Event) :
    answeredLines (l₁ ++ l₂) = answeredLines l₁ + answeredLines l₂ := by
  simp [answeredLines]

/-- Every call of the upper level is for a line that is answered. -/
def Sober (evs : List Event) : Prop := ∀ d ∈ deliveries evs, d.2.address ∈ answeredLines evs

theorem Sober.append {l₁ l₂ : List Event} (h₁ : Sober l₁) (h₂ : Sober l₂) : Sober (l₁ ++ l₂) := by
  intro d hd
  rw [deliveries_append] at hd
  rw [answeredLines_append]
  exact (List.mem_append.mp hd).elim (fun h => Multiset.mem_add.mpr (.inl (h₁ d h)))
    fun h => Multiset.mem_add.mpr (.inr (h₂ d h))

theorem answered_silent {evs : List Event} (h : deliveries evs = []) :
    answeredLines evs = 0 ∧ Sober evs := by
  refine ⟨by rw [answeredLines, h]; rfl, fun d hd => ?_⟩
  rw [h] at hd
  cases hd

theorem answered_upcalls (why : Upcall) (pkt : Packet) (now : Nat) :
    answeredLines (Manager.upcalls why pkt now) ≤ {pkt.address} ∧
      Sober (Manager.upcalls why pkt now) := by
  unfold Sober answeredLines
  rw [deliveries_upcalls]
  cases hi : pkt.instruction <;> cases hd : pkt.isData <;>
    simp [handovers, answeredLine?, Packet.port, hi, hd]

/-! ## What is owed -/

def OrbEntry.owedRead (e : OrbEntry) : Multiset Nat := if e.isWriteReq then 0 else {e.pkt.address}

def CrbEntry.owedRead (c : CrbEntry) : Multiset Nat := if c.isWriteReq then 0 else {c.pkt.address}

/-- The lines of the reads taken and not yet answered. -/
def Manager.outstanding (m : Manager) : Multiset Nat :=
  total OrbEntry.owedRead m.orb + ((m.crb : Multiset CrbEntry).map CrbEntry.owedRead).sum
    + ↑(m.pendingResponses.map fun r => r.pkt.address) + m.bypassOutstandingReads

/-- A step that takes the reads of `extra` and answers what it no longer
owes. -/
def Settles (m m' : Manager) (extra : Multiset Nat) : Prop :=
  ∃ evs, m'.log = m.log ++ evs ∧ Sober evs ∧
    answeredLines evs + m'.outstanding ≤ m.outstanding + extra

namespace Settles

variable {m m' m'' : Manager} {extra : Multiset Nat}

/-- Nothing is delivered. -/
theorem silent (evs : List Event) (hlog : m'.log = m.log ++ evs) (hevs : deliveries evs = [])
    (hout : m'.outstanding ≤ m.outstanding + extra) : Settles m m' extra := by
  refine ⟨evs, hlog, (answered_silent hevs).2, ?_⟩
  rw [(answered_silent hevs).1, zero_add]
  exact hout

theorem refl (m : Manager) : Settles m m 0 :=
  .silent [] (List.append_nil _).symm rfl (by rw [add_zero])

theorem congr (m' : Manager) (h : Settles m m' extra) (hc : m''.core = m'.core) : Settles m m'' extra := by
  have : Settles m.core m''.core extra := hc ▸ h
  exact this

/-- An entry of the ORB changes in place. -/
theorem change {a : Nat} {e : OrbEntry} (e' : OrbEntry) (evs : List Event) (hl : m.orb.lookup a = some e)
    (horb : m'.orb = m.orb.insert a e') (hreq : e'.owedRead = e.owedRead)
    (hcrb : m'.crb = m.crb) (hresp : m'.pendingResponses = m.pendingResponses)
    (hbyp : m'.bypassOutstandingReads = m.bypassOutstandingReads)
    (hlog : m'.log = m.log ++ evs) (hevs : deliveries evs = []) : Settles m m' 0 := by
  refine .silent evs hlog hevs ?_
  rw [add_zero, Manager.outstanding, Manager.outstanding, horb, hcrb, hresp, hbyp,
    Keyed.total_insert_same OrbEntry.owedRead hl hreq]

/-- A request is retired: a read is answered or held. -/
theorem retire {e : OrbEntry} (hl : m.orb.lookup e.pkt.address = some e) (lat now : Nat)
    (evs : List Event) (hevs : deliveries evs = []) (horb : m'.orb = m.orb.erase e.pkt.address)
    (hcrb : m'.crb = m.crb)
    (hresp : m'.pendingResponses = m.pendingResponses ++ Manager.respondLater e lat now)
    (hbyp : m'.bypassOutstandingReads = m.bypassOutstandingReads)
    (hlog : m'.log = m.log ++ (evs ++ .retired e now :: Manager.respondNow e lat now)) :
    Settles m m' 0 := by
  have hnow : answeredLines (Manager.respondNow e lat now)
      + ↑((Manager.respondLater e lat now).map fun r => r.pkt.address) ≤ e.owedRead ∧
      Sober (Manager.respondNow e lat now) := by
    have hup := answered_upcalls .response e.pkt now
    have hnil : answeredLines [] ≤ 0 ∧ Sober [] := ⟨le_rfl, (answered_silent rfl).2⟩
    unfold Manager.respondNow Manager.respondLater OrbEntry.owedRead
    cases e.isWriteReq <;> by_cases hlat : lat = 0
    · simpa [hlat] using hup
    · simpa [hlat] using hnil
    · simpa [hlat] using hnil
    · simpa [hlat] using hnil
  have hev : deliveries (evs ++ [.retired e now]) = [] := by
    rw [deliveries_append, hevs]
    rfl
  have hlog' : m'.log = m.log ++ (evs ++ [.retired e now] ++ Manager.respondNow e lat now) := by
    rw [hlog, List.append_assoc, List.singleton_append]
  refine ⟨_, hlog', (answered_silent hev).2.append hnow.2, ?_⟩
  rw [answeredLines_append, (answered_silent hev).1, zero_add, add_zero, Manager.outstanding,
    Manager.outstanding, horb, hcrb, hresp, hbyp, Keyed.total_erase OrbEntry.owedRead hl,
    List.map_append, ← Multiset.coe_add]
  calc answeredLines (Manager.respondNow e lat now) + (total OrbEntry.owedRead (m.orb.erase e.pkt.address)
        + ((m.crb : Multiset CrbEntry).map CrbEntry.owedRead).sum
        + (↑(m.pendingResponses.map fun r => r.pkt.address)
          + ↑((Manager.respondLater e lat now).map fun r => r.pkt.address))
        + m.bypassOutstandingReads)
      = (answeredLines (Manager.respondNow e lat now)
          + ↑((Manager.respondLater e lat now).map fun r => r.pkt.address))
        + total OrbEntry.owedRead (m.orb.erase e.pkt.address)
        + ((m.crb : Multiset CrbEntry).map CrbEntry.owedRead).sum
        + ↑(m.pendingResponses.map fun r => r.pkt.address) + m.bypassOutstandingReads := by abel
    _ ≤ _ := by gcongr; exact hnow.1

/-- A request is admitted, from outside or from the CRB. -/
theorem admitEntry {pkt : Packet} {w : Bool} {arr : Option Nat} {now : Nat} (evs : List Event)
    (hl : m'.orb.lookup pkt.address = none) (hlog : m'.log = m.log ++ evs)
    (hevs : deliveries evs = [])
    (hout : (if w then 0 else {pkt.address}) + m'.outstanding ≤ m.outstanding + extra) :
    Settles m (m'.admitEntry pkt w arr now) extra := by
  have hlog' : (m'.admitEntry pkt w arr now).log
      = m.log ++ (evs ++ [.admitted (m'.admittedEntry pkt w arr now)]) := by
    rw [Manager.admitEntry_log, hlog, List.append_assoc]
  refine .silent _ hlog' ?_ ?_
  · rw [deliveries_append, hevs]
    rfl
  · refine le_trans (le_of_eq ?_) hout
    have hread : (m'.admittedEntry pkt w arr now).owedRead = if w then 0 else {pkt.address} := by
      rw [OrbEntry.owedRead, Manager.admittedEntry_isWriteReq, Manager.admittedEntry_pkt]
    rw [Manager.outstanding, Manager.outstanding, Manager.admitEntry_orb,
      Keyed.total_insert_new OrbEntry.owedRead hl, Manager.admitEntry_crb,
      Manager.admitEntry_pendingResponses, Manager.admitEntry_bypassOutstandingReads, hread]
    abel

end Settles

/-! ## One call -/

theorem answered_responses (clk : Clock) : ∀ due : List PendingResponse,
    answeredLines (due.flatMap fun r => Manager.upcalls .response r.pkt (clk.cycle r.pkt.cpu))
      ≤ ↑(due.map fun r => r.pkt.address) ∧
    Sober (due.flatMap fun r => Manager.upcalls .response r.pkt (clk.cycle r.pkt.cpu))
  | [] => ⟨le_rfl, (answered_silent rfl).2⟩
  | r :: due => by
      have hr := answered_upcalls .response r.pkt (clk.cycle r.pkt.cpu)
      have hrest := answered_responses clk due
      rw [List.flatMap_cons, answeredLines_append, List.map_cons, ← Multiset.cons_coe,
        ← Multiset.singleton_add]
      exact ⟨add_le_add hr.1 hrest.1, hr.2.append hrest.2⟩

theorem processPendingResponses_settles (m : Manager) (clk : Clock) :
    Settles m (m.processPendingResponses clk) 0 := by
  obtain ⟨due, rest, hsplit, hr⟩ := Manager.releaseResponses_eq clk m.pendingResponses m
  rw [Manager.processPendingResponses, hr]
  have hdue := answered_responses clk due
  refine ⟨_, rfl, hdue.2, ?_⟩
  rw [add_zero, Manager.outstanding, Manager.outstanding, hsplit, List.map_append,
    ← Multiset.coe_add]
  calc answeredLines (due.flatMap fun r =>
          Manager.upcalls .response r.pkt (clk.cycle r.pkt.cpu)) + (total OrbEntry.owedRead m.orb
        + ((m.crb : Multiset CrbEntry).map CrbEntry.owedRead).sum
        + ↑(rest.map fun r => r.pkt.address) + m.bypassOutstandingReads)
      ≤ ↑(due.map fun r => r.pkt.address) + (total OrbEntry.owedRead m.orb
        + ((m.crb : Multiset CrbEntry).map CrbEntry.owedRead).sum
        + ↑(rest.map fun r => r.pkt.address) + m.bypassOutstandingReads) := by
        gcongr
        exact hdue.1
    _ = _ := by abel

theorem bypassAnswered_settles {m : Manager} {pkt : Packet} (now : Nat)
    (h : pkt.address ∈ m.bypassOutstandingReads) : Settles m (m.bypassAnswered pkt now) 0 := by
  have hup := answered_upcalls .bypass pkt now
  refine ⟨_, rfl, hup.2, ?_⟩
  have hout : m.outstanding = {pkt.address} + (m.bypassAnswered pkt now).outstanding := by
    rw [Manager.outstanding, ← Multiset.cons_erase h, ← Multiset.singleton_add]
    show _ = {pkt.address} + (total OrbEntry.owedRead m.orb
      + ((m.crb : Multiset CrbEntry).map CrbEntry.owedRead).sum
      + ↑(m.pendingResponses.map fun r => r.pkt.address)
      + m.bypassOutstandingReads.erase pkt.address)
    abel
  rw [hout, add_zero]
  gcongr
  exact hup.1

/-- A near response changes nothing that is owed. -/
theorem nearAnswered_deliveries (side : Side) (e : OrbEntry) :
    deliveries (.answered side e :: Manager.victimEvents e) = [] := by
  refine List.filterMap_eq_nil_iff.mpr fun ev hev => ?_
  rcases List.mem_cons.mp hev with rfl | hev
  · rfl
  · rw [Manager.mem_victimEvents hev]
    rfl

theorem promote_settles {m : Manager} {i : Nat} {c : CrbEntry} (now : Nat)
    (hinv : OrbInv (.hole i) m) (hc : m.waiter? i = some c) :
    Settles m ((m.takeWaiter i).admitEntry c.pkt c.isWriteReq (some c.arrivalCycle) now) 0 := by
  refine .admitEntry [] (hinv.waiter_none hc) (List.append_nil _).symm rfl ?_
  have hperm : (m.crb : Multiset CrbEntry) = c ::ₘ ↑(m.takeWaiter i).crb :=
    Multiset.coe_eq_coe.mpr (Keyed.perm_of_find hc)
  refine le_of_eq ?_
  rw [add_zero, Manager.outstanding, Manager.outstanding, hperm, Multiset.map_cons,
    Multiset.sum_cons]
  show c.owedRead + (total OrbEntry.owedRead m.orb
    + ((m.takeWaiter i).crb.map CrbEntry.owedRead : Multiset (Multiset Nat)).sum
    + ↑(m.pendingResponses.map fun r => r.pkt.address) + m.bypassOutstandingReads) = _
  rw [← Multiset.map_coe]
  abel

/-- **One call settles.** What it answers it owed, and owes no more. -/
theorem FrontStep.settles {m m' : Manager} {c : Call} {ks K : List Call}
    (h : FrontStep m c m' ks) (hinv : OrbInv (Ctl.of (c :: K)) m) : Settles m m' 0 := by
  have hkey : ∀ {a e}, m.orb.lookup a = some e → m.orb.lookup e.pkt.address = some e :=
    fun hl => by rwa [(hinv.entry hl).addr]
  have hsame : ∀ evs, m'.log = m.log ++ evs → deliveries evs = [] → m'.outstanding = m.outstanding →
      Settles m m' 0 := fun evs hlog hevs hout => .silent evs hlog hevs (by rw [hout, add_zero])
  cases h with
  | bypassed now hmem => exact bypassAnswered_settles now hmem
  | untracked _ => exact hsame _ rfl rfl rfl
  | stray _ _ => exact hsame _ rfl rfl rfl
  | @nearEnter side _ e st now hl _ _ =>
      refine .change { e with state := st } (.answered side e :: Manager.victimEvents e) (hkey hl)
        ?_ rfl ?_ ?_ ?_ ?_ (nearAnswered_deliveries side e)
      · simp [Manager.enterState, Manager.emit]
      · simp [Manager.enterState, Manager.emit]
      · simp [Manager.enterState, Manager.emit]
      · rw [Manager.nearAnswered_eq]
        rfl
      · simp [Manager.enterState, Manager.emit]
  | @nearHit side _ e lat now hl _ _ _ =>
      refine .retire (hkey hl) lat now (.answered side e :: Manager.victimEvents e)
        (nearAnswered_deliveries side e) ?_ ?_ ?_ ?_ ?_
      · simp [Manager.emit]
      · simp [Manager.emit]
      · simp [Manager.emit]
      · rw [Manager.retire_eq, Manager.nearAnswered_eq]
        rfl
      · simp [Manager.emit]
  | @farDone side _ e lat now hl _ =>
      refine .retire (hkey hl) lat now [.answered side e] rfl ?_ ?_ ?_ ?_ ?_
      · simp [Manager.emit, Manager.farAnswered, Manager.count]
      · simp [Manager.emit, Manager.farAnswered, Manager.count]
      · simp [Manager.emit, Manager.farAnswered, Manager.count]
      · rw [Manager.retire_eq]
        rfl
      · simp [Manager.emit, Manager.farAnswered, Manager.count]
  | readNear now hl _ _ => exact .change _ _ (hkey hl) rfl rfl rfl rfl rfl rfl rfl
  | readFar now hl _ _ => exact .change _ _ (hkey hl) rfl rfl rfl rfl rfl rfl rfl
  | writeNear now hl _ => exact .change _ _ (hkey hl) rfl rfl rfl rfl rfl rfl rfl
  | @complete _ lat e now hl =>
      refine .retire (hkey hl) lat now [] rfl (by simp) (by simp) (by simp) ?_ (by simp)
      rw [Manager.retire_eq]
  | promote now hw => exact promote_settles now hinv hw
  | @flag a i =>
      rcases m.flagConflict_eq a i with hf | ⟨e, hl, hf⟩ <;> rw [hf]
      · exact .refl m
      · exact .change _ [] hl rfl rfl rfl rfl rfl (List.append_nil _).symm rfl
  | fill _ => exact hsame _ rfl rfl rfl
  | drained _ => exact hsame _ rfl rfl rfl
  | responses clk => exact processPendingResponses_settles m clk
  | samples => exact hsame [] (List.append_nil _).symm rfl rfl
  | quiet _ _ => exact .refl m
  | driveIdle _ => exact .refl m
  | completeNone _ => exact .refl m
  | promoteNone _ => exact .refl m

/-! ## Entering an operation -/

namespace Sys

variable {s : Sys}

theorem admission_settles (hinv : OrbInv .calm s.dcm.core) (pkt : Packet) (w : Bool) :
    Settles s.dcm (s.admission pkt w).1.dcm
      (if w = false ∧ (s.admission pkt w).2.1 = -1 then {pkt.address} else 0) := by
  have hsame : ∀ f : Stats → Stats, Settles s.dcm (s.onDcm (·.count f)).dcm 0 :=
    fun f => .silent [] (List.append_nil _).symm rfl (by rw [add_zero]; rfl)
  unfold admission
  split
  · split
    · simpa using hsame _
    · refine .silent [.accepted w pkt] rfl rfl ?_
      show total OrbEntry.owedRead s.dcm.orb
        + (((s.dcm.crb ++ [_] : List CrbEntry) : Multiset CrbEntry).map CrbEntry.owedRead).sum
        + ↑(s.dcm.pendingResponses.map fun r => r.pkt.address) + s.dcm.bypassOutstandingReads ≤ _
      rw [← Multiset.coe_add, Multiset.map_add, Multiset.sum_add, Manager.outstanding]
      refine le_of_eq ?_
      cases w <;> simp [CrbEntry.owedRead]
      abel
  · rename_i hc
    split
    · simpa using hsame _
    · split
      · simpa using hsame _
      · refine .admitEntry [.accepted w pkt] ?_ rfl rfl ?_
        · exact hinv.lookup_none (Bool.eq_false_iff.mpr hc)
        · refine le_of_eq ?_
          show _ + s.dcm.outstanding = _
          cases w <;> simp [add_comm]

theorem addRq_settles (hinv : OrbInv .calm s.dcm.core) (pkt : Packet) :
    Settles s.dcm (s.addRq pkt).1.dcm (if (s.addRq pkt).2.1 = -1 then {pkt.address} else 0) := by
  unfold addRq
  split
  · have hup := answered_upcalls .warmup pkt (s.now pkt.cpu)
    have hle : ∀ m : Manager, m.outstanding = s.dcm.outstanding →
        answeredLines (Manager.upcalls .warmup pkt (s.now pkt.cpu)) + m.outstanding
          ≤ s.dcm.outstanding + {pkt.address} := by
      intro m hm
      rw [hm, add_comm]
      gcongr
      exact hup.1
    split
    · refine ⟨.warmed false pkt :: Manager.upcalls .warmup pkt (s.now pkt.cpu), ?_, ?_, ?_⟩
      · simp [onDcm, Manager.callUpper, Manager.warmupTagUpdate, Manager.emit, Manager.count,
          now]
      · have hwarmed : Sober [.warmed false pkt] := (answered_silent rfl).2
        exact hwarmed.append hup.2
      · exact hle _ rfl
    · exact ⟨_, rfl, hup.2, hle _ rfl⟩
  · split
    · refine .congr (({ s.dcm with
        bypassOutstandingReads := pkt.address ::ₘ s.dcm.bypassOutstandingReads }.emit
          (.handFar none { pkt with eventCycle := s.now pkt.cpu } false)).count fun st =>
            { st with bypassReads := st.bypassReads + 1 }) ?_
        (dispatchToFarGuaranteed_core ..)
      refine .silent [_] rfl rfl ?_
      show total OrbEntry.owedRead s.dcm.orb
        + ((s.dcm.crb : Multiset CrbEntry).map CrbEntry.owedRead).sum
        + ↑(s.dcm.pendingResponses.map fun r => r.pkt.address)
        + (pkt.address ::ₘ s.dcm.bypassOutstandingReads) ≤ _
      rw [if_pos rfl, Manager.outstanding, ← Multiset.singleton_add]
      refine le_of_eq ?_
      abel
    · simpa using admission_settles hinv pkt false

theorem addWq_settles (hinv : OrbInv .calm s.dcm.core) (pkt : Packet) :
    Settles s.dcm (s.addWq pkt).1.dcm 0 := by
  unfold addWq
  split
  · split
    · exact .silent [.warmed true pkt] rfl rfl (by rw [add_zero]; rfl)
    · exact .refl _
  · split
    · refine .congr ((s.dcm.emit (.handFar none { pkt with eventCycle := s.now pkt.cpu } true)).count
        fun st => { st with bypassWrites := st.bypassWrites + 1 }) ?_ (dispatchToFarGuaranteed_core ..)
      exact .silent [_] rfl rfl (by rw [add_zero]; rfl)
    · simpa using admission_settles hinv pkt true

/-- The line of the read an operation makes the manager take. -/
def takesRead (s : Sys) (op : Op) : Multiset Nat :=
  match op with
  | .addRq pkt => if (s.addRq pkt).2.1 = -1 then {pkt.address} else 0
  | _ => 0

/-- **Entering an operation settles**, in every mode. -/
theorem enter_settles (hinv : OrbInv .calm s.dcm.core) (op : Op) :
    Settles s.dcm (s.enter op).1.dcm (s.takesRead op) := by
  have hset : ∀ f : Manager → Manager, (f s.dcm).outstanding = s.dcm.outstanding →
      (f s.dcm).log = s.dcm.log → Settles s.dcm (s.onDcm f).dcm 0 := by
    intro f hout hlog
    exact .silent [] (hlog.trans (List.append_nil _).symm) rfl (by rw [add_zero]; exact hout.le)
  cases op with
  | addRq pkt => exact addRq_settles hinv pkt
  | addWq pkt => exact addWq_settles hinv pkt
  | operate => exact .refl _
  | tick clk => exact .refl _
  | setPolicy pol => exact hset _ rfl rfl
  | setLinkLatency n => exact hset _ rfl rfl
  | setControllerLatency f b => exact hset _ rfl rfl
  | setBypassDcache b => exact hset _ rfl rfl
  | finishWarmup => exact .refl _
  | resetROIStats => exact hset _ rfl rfl

end Sys

end DramCache
