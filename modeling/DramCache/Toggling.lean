import Mathlib.Data.Multiset.Bind
import DramCache.Ownership

/-!
# Switching bypass mode on and off

`return_data` tells by the address alone whether a response is a bypass
read's or an ORB entry's. The account of the reads on their way (`Owned`)
says whose they are: near memory's are the ORB's tag checks, far memory's
are the ORB's fetches and the bypass reads. While a bypass read of a line
is outstanding, every response for the line is taken for its; `untangled`
is when that is right, and `toggling_routes` says that then each response
meets its own request.
-/

namespace DramCache

open Worklist (ReachesIf Reaches)

/-! ## Whose reads they are -/

/-- The read an ORB entry waits for. -/
def OrbEntry.fetch (e : OrbEntry) : Packet := (Manager.subRequest e .load 0).payload

theorem OrbEntry.fetch_address (e : OrbEntry) : e.fetch.address = e.pkt.address := rfl

/-- What an entry owes a side. -/
def OrbEntry.owed (side : Side) (e : OrbEntry) : Multiset Packet :=
  if e.state = side.awaits then {e.fetch} else 0

/-- The reads of a side the ORB waits for. -/
def Manager.due (m : Manager) (side : Side) : Multiset Packet :=
  Keyed.total (OrbEntry.owed side) m.orb

theorem OrbEntry.owed_idle {e : OrbEntry} (h : e.state.waiting = false) (side : Side) :
    e.owed side = 0 := if_neg (not_awaits h side)

theorem mem_due {m : Manager} {side : Side} {p : Packet} :
    p ∈ m.due side ↔ ∃ a e, m.orb.lookup a = some e ∧ e.state = side.awaits ∧ p = e.fetch := by
  show p ∈ Multiset.join ((Keyed.values m.orb).map (OrbEntry.owed side)) ↔ _
  rw [Multiset.mem_join]
  constructor
  · rintro ⟨x, hx, hp⟩
    obtain ⟨e, he, rfl⟩ := Multiset.mem_map.mp hx
    obtain ⟨a, hl⟩ := Keyed.mem_values.mp he
    unfold OrbEntry.owed at hp
    split at hp
    · rename_i hs
      exact ⟨a, e, hl, hs, Multiset.mem_singleton.mp hp⟩
    · cases hp
  · rintro ⟨a, e, hl, hs, rfl⟩
    refine ⟨_, Multiset.mem_map_of_mem _ (Keyed.mem_values.mpr ⟨a, hl⟩), ?_⟩
    rw [OrbEntry.owed, if_pos hs]
    exact Multiset.mem_singleton_self _

/-- A line has one entry, so a read is due once. -/
theorem count_due_le {m : Manager} (haddr : ∀ a e, m.orb.lookup a = some e → e.pkt.address = a)
    (side : Side) (p : Packet) : (m.due side).count p ≤ 1 := by
  by_cases hp : p ∈ m.due side
  · obtain ⟨a, e, hl, hs, rfl⟩ := mem_due.mp hp
    have hrest : e.fetch ∉ Keyed.total (OrbEntry.owed side) (m.orb.erase a) := by
      intro hmem
      obtain ⟨b, f, hf, -, heq⟩ :=
        (mem_due (m := { m with orb := m.orb.erase a })).mp hmem
      have hf : (m.orb.erase a).lookup b = some f := hf
      rw [Keyed.lookup_erase] at hf
      split at hf
      · cases hf
      · rename_i hne
        refine hne ?_
        rw [← haddr b f hf, ← haddr a e hl, ← OrbEntry.fetch_address, ← heq,
          OrbEntry.fetch_address]
    rw [Manager.due, Keyed.total_erase _ hl, Multiset.count_add, Multiset.count_eq_zero.mpr hrest,
      OrbEntry.owed, if_pos hs, Multiset.count_singleton_self]
  · rw [Multiset.count_eq_zero.mpr hp]
    exact Nat.zero_le _

/-! ## Bypass reads in the log -/

/-- A read handed over in bypass mode. -/
def Event.passed? : Event → Option Packet
  | .handFar none pkt false => some pkt.payload
  | _ => none

/-- A bypass read's response, delivered to the one port it asks for. -/
def Event.returned? : Event → Option Packet
  | .upcall .bypass _ pkt _ => some pkt.payload
  | _ => none

def passed (log : List Event) : Multiset Packet := ↑(log.filterMap Event.passed?)

def returned (log : List Event) : Multiset Packet := ↑(log.filterMap Event.returned?)

@[simp] theorem passed_append (l₁ l₂ : List Event) : passed (l₁ ++ l₂) = passed l₁ + passed l₂ := by
  simp [passed]

@[simp] theorem returned_append (l₁ l₂ : List Event) :
    returned (l₁ ++ l₂) = returned l₁ + returned l₂ := by simp [returned]

/-- The bypass reads that have not come back. -/
def bypassing (log : List Event) : Multiset Packet := passed log - returned log

/-- The account of the bypass reads stands still. -/
structure BypassStill (m m' : Manager) : Prop where
  passed : passed m'.log = passed m.log
  returned : returned m'.log = returned m.log
  reads : m'.bypassOutstandingReads = m.bypassOutstandingReads

theorem BypassStill.of_events {m m' : Manager} (evs : List Event) (hlog : m'.log = m.log ++ evs)
    (hevs : ∀ ev ∈ evs, ev.passed? = none ∧ ev.returned? = none)
    (hreads : m'.bypassOutstandingReads = m.bypassOutstandingReads) : BypassStill m m' := by
  have hp : DramCache.passed evs = 0 :=
    congrArg _ (List.filterMap_eq_nil_iff.mpr fun ev hev => (hevs ev hev).1)
  have hr : DramCache.returned evs = 0 :=
    congrArg _ (List.filterMap_eq_nil_iff.mpr fun ev hev => (hevs ev hev).2)
  refine ⟨?_, ?_, hreads⟩
  · rw [hlog, passed_append, hp, add_zero]
  · rw [hlog, returned_append, hr, add_zero]

theorem BypassStill.same {m m' : Manager} (hlog : m'.log = m.log)
    (hreads : m'.bypassOutstandingReads = m.bypassOutstandingReads) : BypassStill m m' :=
  ⟨by rw [hlog], by rw [hlog], hreads⟩

/-- Of the responses only a bypass read's counts. -/
theorem response_events {ev : Event} {why : Upcall} {pkt : Packet} {now : Nat}
    (h : ev ∈ Manager.upcalls why pkt now) (hwhy : why ≠ .bypass) :
    ev.passed? = none ∧ ev.returned? = none := by
  obtain ⟨port, rfl⟩ := Manager.mem_upcalls h
  cases why <;> first | exact ⟨rfl, rfl⟩ | exact absurd rfl hwhy

theorem retired_events {e : OrbEntry} {lat now : Nat} {ev : Event}
    (h : ev ∈ Event.retired e now :: Manager.respondNow e lat now) :
    ev.passed? = none ∧ ev.returned? = none := by
  rcases List.mem_cons.mp h with rfl | h
  · exact ⟨rfl, rfl⟩
  · obtain ⟨port, rfl⟩ := Manager.mem_respondNow h
    exact ⟨rfl, rfl⟩

theorem victim_events {e : OrbEntry} {ev : Event} (h : ev ∈ Manager.victimEvents e) :
    ev.passed? = none ∧ ev.returned? = none := by
  rw [Manager.mem_victimEvents h]
  exact ⟨rfl, rfl⟩

theorem FrontStep.bypassStill {m m' : Manager} {c : Call} {ks : List Call}
    (hstep : FrontStep m c m' ks)
    (hno : ∀ side pkt, c = .returnData side pkt → pkt.address ∉ m.bypassOutstandingReads) :
    BypassStill m m' := by
  have hone : ∀ {ev : Event}, m'.log = m.log ++ [ev] → ev.passed? = none ∧ ev.returned? = none →
      m'.bypassOutstandingReads = m.bypassOutstandingReads → BypassStill m m' :=
    fun hlog hev => .of_events _ hlog fun ev h => by rwa [List.mem_singleton.mp h]
  cases hstep with
  | quiet => exact .same rfl rfl
  | bypassed now h => exact absurd h (hno _ _ rfl)
  | untracked => exact hone rfl ⟨rfl, rfl⟩ rfl
  | stray => exact hone rfl ⟨rfl, rfl⟩ rfl
  | @nearEnter side pkt e st now =>
      refine .of_events (.answered side e :: Manager.victimEvents e) ?_ (fun ev hev => ?_) ?_
      · simp [Manager.enterState, Manager.emit]
      · rcases List.mem_cons.mp hev with rfl | hev
        · exact ⟨rfl, rfl⟩
        · exact victim_events hev
      · rw [Manager.enterState, Manager.nearAnswered_eq]
        rfl
  | @nearHit side pkt e lat now =>
      refine .of_events (.answered side e :: (Manager.victimEvents e
        ++ .retired e now :: Manager.respondNow e lat now)) ?_ (fun ev hev => ?_) ?_
      · simp [Manager.emit]
      · rcases List.mem_cons.mp hev with rfl | hev
        · exact ⟨rfl, rfl⟩
        · exact (List.mem_append.mp hev).elim victim_events retired_events
      · rw [Manager.retire_eq, Manager.nearAnswered_eq]
        rfl
  | @farDone side pkt e lat now =>
      refine .of_events (.answered side e :: .retired e now :: Manager.respondNow e lat now)
        ?_ (fun ev hev => ?_) ?_
      · simp [Manager.emit, Manager.farAnswered, Manager.count]
      · rcases List.mem_cons.mp hev with rfl | hev
        · exact ⟨rfl, rfl⟩
        · exact retired_events hev
      · rw [Manager.retire_eq]
        rfl
  | driveIdle => exact .same rfl rfl
  | readNear => exact hone rfl ⟨rfl, rfl⟩ rfl
  | readFar => exact hone rfl ⟨rfl, rfl⟩ rfl
  | writeNear => exact hone rfl ⟨rfl, rfl⟩ rfl
  | completeNone => exact .same rfl rfl
  | complete now =>
      refine .of_events _ (Manager.retire_log ..) (fun ev => retired_events) ?_
      rw [Manager.retire_eq]
  | promoteNone => exact .same rfl rfl
  | promote now =>
      exact hone (Manager.admitEntry_log ..) ⟨rfl, rfl⟩
        (Manager.admitEntry_bypassOutstandingReads ..)
  | @flag a i =>
      rcases m.flagConflict_eq a i with hf | ⟨e, -, hf⟩ <;>
        exact .same (by rw [hf]) (by rw [hf])
  | fill => exact hone rfl ⟨rfl, rfl⟩ rfl
  | drained => exact hone rfl ⟨rfl, rfl⟩ rfl
  | responses clk =>
      obtain ⟨due, rest, -, hr⟩ := Manager.releaseResponses_eq clk m.pendingResponses m
      rw [Manager.processPendingResponses, hr]
      refine .of_events _ rfl (fun ev hev => ?_) rfl
      obtain ⟨r, -, hev⟩ := List.mem_flatMap.mp hev
      exact response_events hev (by decide)
  | samples => exact .same rfl rfl

theorem handedReads_append (side : Side) (l₁ l₂ : List Event) :
    handedReads side (l₁ ++ l₂) = handedReads side l₁ + handedReads side l₂ := by
  rw [handedReads, handedAs_append, readsIn_append, handedReads, handedReads]

/-! ### What a call makes the ORB wait for -/

section Due

variable {m m' : Manager} {c : Call} {ks K : List Call} {a : Nat} {e f : OrbEntry} {x : Side}

/-- An entry is put in the place of another. -/
theorem due_insert (hl : m.orb.lookup a = some e) (horb : m'.orb = m.orb.insert a f) :
    m'.due x + e.owed x = m.due x + f.owed x := by
  rw [Manager.due, horb]
  exact Keyed.total_insert _ hl f

theorem due_erase (hl : m.orb.lookup a = some e) (horb : m'.orb = m.orb.erase a) :
    m.due x = e.owed x + m'.due x := by
  rw [Manager.due, Manager.due, horb]
  exact Keyed.total_erase _ hl

theorem FrontStep.handedReads (hstep : FrontStep m c m' ks) (hc : c.dispatches = false) :
    DramCache.handedReads x m'.log = DramCache.handedReads x m.log := by
  obtain ⟨evs, hlog, hemit⟩ := hstep.emits
  have hsilent : handedAs Packet.payload x evs = [] :=
    Sys.handedAs_silent fun ev hev => Sys.handedAs_of_emits hc (hemit ev hev) x
  rw [hlog, handedReads_append, DramCache.handedReads, DramCache.handedReads, hsilent, readsIn_nil,
    add_zero]

/-- `driveState` lets an entry wait for the read that it hands over. -/
theorem due_issued {st : ReqState} {ev : Event} (hl : m.orb.lookup a = some e)
    (haddr : e.pkt.address = a) (hs : e.state.waiting = false)
    (horb : m'.orb = m.orb.insert e.pkt.address { e with state := st, issued := true })
    (hlog : m'.log = m.log ++ [ev])
    (hev : handedReads x [ev] = OrbEntry.owed x { e with state := st, issued := true }) :
    m'.due x + 0 + handedReads x m.log = m.due x + handedReads x m'.log := by
  rw [haddr] at horb
  have hentry := due_insert (x := x) hl horb
  rw [OrbEntry.owed_idle hs, add_zero] at hentry
  rw [hentry, hlog, handedReads_append, hev]
  abel

/-- A callback ends the wait of its entry. -/
theorem FrontStep.due_answered {side : Side} {pkt : Packet}
    (hstep : FrontStep m (.returnData side pkt) m' ks) (hs : e.state = side.awaits)
    (hfetch : pkt.payload = e.fetch) (hdue : m.due x = e.owed x + m'.due x) :
    m'.due x + (Call.returnData side pkt).returns x + DramCache.handedReads x m.log
      = m.due x + DramCache.handedReads x m'.log := by
  have hret : (Call.returnData side pkt).returns x = e.owed x := by
    rw [Call.returns, OrbEntry.owed, hs, hfetch]
    cases side <;> cases x <;> rfl
  rw [hstep.handedReads rfl, hdue, hret, add_comm (m'.due x)]

/-- A new entry waits for nothing. -/
theorem due_promote {i now : Nat} {w : CrbEntry} (hinv : OrbInv (.hole i) m)
    (hw : m.waiter? i = some w) :
    ((m.takeWaiter i).admitEntry w.pkt w.isWriteReq (some w.arrivalCycle) now).due x
      = m.due x := by
  have hdrive : ((m.takeWaiter i).admittedEntry w.pkt w.isWriteReq (some w.arrivalCycle)
      now).state.drivable = true := Manager.initialChoice_drivable _
  have horb : (m.takeWaiter i).orb = m.orb := rfl
  rw [Manager.due, Manager.admitEntry_orb, horb, Keyed.total_insert_new _ (hinv.waiter_none hw),
    OrbEntry.owed_idle (not_waiting_of_drivable hdrive), zero_add, Manager.due]

/-- **What a call makes the ORB wait for is what it hands over**, and a
callback that meets its entry ends a wait. -/
theorem FrontStep.due (hstep : FrontStep m c m' ks) (hinv : OrbInv (Ctl.of (c :: K)) m)
    (hno : ∀ side pkt, c = .returnData side pkt → pkt.address ∉ m.bypassOutstandingReads)
    (hans : ∀ side pkt, c = .returnData side pkt → ∃ e, m.orb.lookup pkt.address = some e ∧
      e.state = side.awaits ∧ pkt.payload = e.fetch) (x : Side) :
    m'.due x + c.returns x + DramCache.handedReads x m.log
      = m.due x + DramCache.handedReads x m'.log := by
  -- nothing is waited for or handed over
  have hsame : m'.due x = m.due x → DramCache.handedReads x m'.log = DramCache.handedReads x m.log →
      c.returns x = 0 → m'.due x + c.returns x + DramCache.handedReads x m.log
        = m.due x + DramCache.handedReads x m'.log := by
    intro hdue hlog hret
    rw [hdue, hret, hlog, add_zero]
  have hwrite : ∀ ev, m'.log = m.log ++ [ev] → DramCache.handedReads x [ev] = 0 →
      DramCache.handedReads x m'.log = DramCache.handedReads x m.log := by
    intro ev hlog hev
    rw [hlog, handedReads_append, hev, add_zero]
  cases hstep with
  | @quiet _ _ hc _ hr =>
      refine hsame rfl rfl ?_
      cases c <;> first | rfl | exact absurd rfl (hr _ _)
  | bypassed now h => exact absurd h (hno _ _ rfl)
  | untracked hl =>
      obtain ⟨e, hl', -⟩ := hans _ _ rfl
      cases hl.symm.trans hl'
  | stray hl hs =>
      obtain ⟨e, hl', hs', -⟩ := hans _ _ rfl
      obtain rfl : _ = e := by simpa [hl] using hl'
      rw [hs', Side.awaits_waiting] at hs
      cases hs
  | @nearEnter side pkt e st now hl hs hst =>
      obtain ⟨e', hl', hs', hfetch⟩ := hans _ _ rfl
      obtain rfl : e = e' := by simpa [hl] using hl'
      refine FrontStep.due_answered (.nearEnter now hl hs hst) hs' hfetch ?_
      have hidle : (OrbEntry.owed x { e with state := st }) = 0 :=
        OrbEntry.owed_idle (by rcases hst with ⟨rfl, -⟩ | ⟨rfl, -⟩ <;> rfl) x
      have horb : (((m.emit (.answered side e)).nearAnswered e now).enterState e st).orb
          = m.orb.insert pkt.address { e with state := st } := by
        rw [← (hinv.entry hl).addr]
        simp [Manager.enterState, Manager.emit]
      have hentry := due_insert (x := x) hl horb
      rw [hidle, add_zero] at hentry
      rw [← hentry, add_comm]
  | @nearHit side pkt e lat now hl hs hw hh =>
      obtain ⟨e', hl', hs', hfetch⟩ := hans _ _ rfl
      obtain rfl : e = e' := by simpa [hl] using hl'
      refine FrontStep.due_answered (.nearHit lat now hl hs hw hh) hs' hfetch (due_erase hl ?_)
      rw [← (hinv.entry hl).addr]
      simp [Manager.emit]
  | @farDone side pkt e lat now hl hs =>
      obtain ⟨e', hl', hs', hfetch⟩ := hans _ _ rfl
      obtain rfl : e = e' := by simpa [hl] using hl'
      refine FrontStep.due_answered (.farDone lat now hl hs) hs' hfetch (due_erase hl ?_)
      rw [← (hinv.entry hl).addr]
      simp [Manager.emit, Manager.farAnswered, Manager.count]
  | driveIdle => exact hsame rfl rfl rfl
  | readNear now hl hs =>
      exact due_issued hl (hinv.entry hl).addr (by rw [hs]; rfl) rfl rfl (by cases x <;> rfl)
  | readFar now hl hs =>
      exact due_issued hl (hinv.entry hl).addr (by rw [hs]; rfl) rfl rfl (by cases x <;> rfl)
  | writeNear now hl hs =>
      exact due_issued hl (hinv.entry hl).addr (by rw [hs]; rfl) rfl rfl (by cases x <;> rfl)
  | completeNone => exact hsame rfl rfl rfl
  | @complete a lat e now hl =>
      obtain ⟨e', hl', hfit⟩ := hinv.focus (a := a) rfl
      obtain rfl : e = e' := by simpa [hl] using hl'
      have hs : e.state = .waitingLocMemWriteResp := hfit
      have horb : (m.retire e lat now).orb = m.orb.erase a := by
        rw [← (hinv.entry hl).addr]
        exact Manager.retire_orb ..
      have hout := due_erase (x := x) hl horb
      rw [OrbEntry.owed_idle (by rw [hs]; rfl), zero_add] at hout
      exact hsame hout.symm (FrontStep.handedReads (.complete now hl) rfl) rfl
  | promoteNone => exact hsame rfl rfl rfl
  | promote now hw =>
      exact hsame (due_promote hinv hw) (FrontStep.handedReads (.promote now hw) rfl) rfl
  | @flag a i =>
      refine hsame ?_ (FrontStep.handedReads .flag rfl) rfl
      rcases m.flagConflict_eq a i with hf | ⟨e, hl, hf⟩
      · rw [hf]
      · have horb : (m.flagConflict a i).orb = m.orb.insert a { e with conflict := true } := by
          rw [hf]
        have hentry := due_insert (x := x) hl horb
        exact add_right_cancel hentry
  | fill => exact hsame rfl (hwrite _ rfl (by cases x <;> rfl)) rfl
  | drained => exact hsame rfl (hwrite _ rfl (by cases x <;> rfl)) rfl
  | responses clk =>
      obtain ⟨due, rest, -, hr⟩ := Manager.releaseResponses_eq clk m.pendingResponses m
      refine hsame ?_ (FrontStep.handedReads (.responses clk) rfl) rfl
      rw [Manager.processPendingResponses, hr]
      rfl
  | samples => exact hsame rfl rfl rfl

end Due

/-! ## The account -/

namespace Sys

/-- **Whose the reads on their way are.** Near memory's are those the ORB
waits for, far memory's these and the bypass reads `B`. -/
structure Owned (B : Multiset Packet) (K : List Call) (s : Sys) : Prop where
  near : s.onWay (hook K) .near + returning .near K = s.dcm.due .near
  far : s.onWay (hook K) .far + returning .far K = s.dcm.due .far + B
  lines : B.map Packet.address = s.dcm.bypassOutstandingReads
  log : passed s.dcm.log = returned s.dcm.log + B
  flag : ∀ p ∈ B, p.SingleFlag

namespace Owned

variable {B : Multiset Packet} {s s' : Sys} {op : Op} {c : Call} {K ks : List Call}

theorem bypassing (h : Owned B K s) : DramCache.bypassing s.dcm.log = B := by
  rw [DramCache.bypassing, h.log, add_tsub_cancel_left]

/-- Where nothing is on its way. -/
theorem start (horb : s.dcm.orb = ∅) (hpend : ∀ x, s.dcm.pending x = [])
    (hmc : ∀ x, ∃ tRP tRCD tCAS dbus, s.mc x = .new tRP tRCD tCAS dbus)
    (hreads : s.dcm.bypassOutstandingReads = 0)
    (hlog : DramCache.passed s.dcm.log = 0 ∧ returned s.dcm.log = 0) : Owned 0 [] s := by
  have hway : ∀ x, s.onWay none x = 0 := fun x => by
    obtain ⟨_, _, _, _, hnew⟩ := hmc x
    have hlive : s.live none x = [] := (if_neg (by simp)).trans (hpend x)
    rw [onWay, queuedReads_new hnew, pendingReads, hlive]
    rfl
  have hdue : ∀ x, s.dcm.due x = 0 := fun x => by rw [Manager.due, horb, Keyed.total_empty]
  have hnone : hook ([] : List Call) = none := rfl
  refine ⟨?_, ?_, hreads.symm, by rw [hlog.1, hlog.2, add_zero], by simp⟩
  · rw [hnone, hway, hdue, returning_nil, add_zero]
  · rw [hnone, hway, hdue, returning_nil]

/-- Every read on its way is an entry's or went round the cache. -/
theorem owner (h : Owned B K s) {side : Side} {p : Packet}
    (hp : p ∈ s.onWay (hook K) side + returning side K) :
    p ∈ s.dcm.due side ∨ side = .far ∧ p ∈ B := by
  cases side with
  | near => exact .inl (h.near ▸ hp)
  | far =>
      rw [h.far] at hp
      exact (Multiset.mem_add.mp hp).imp_right fun hB => ⟨rfl, hB⟩

theorem askOne (h : Owned B (c :: K) s) (hp : Poised (c :: K) s) (hfl : Flagged s.dcm.core) :
    AskOne c s := by
  refine ⟨fun a e hl => hfl.orb hl, fun side hc p hpend => ?_⟩
  subst hc
  have hhook : hook (side.process :: K) = none := hp.stacked.hook_phase (by simp) (by simp)
  have hmem : p.payload ∈ s.pendingReads none side := by
    rw [pendingReads, mem_readsIn]
    exact List.mem_map_of_mem (f := fun q : Packet × Bool => (q.1.payload, q.2)) hpend
  have hway : p.payload ∈ s.onWay (hook (side.process :: K)) side
      + returning side (side.process :: K) := by
    rw [hhook]
    exact Multiset.mem_add.mpr (.inl (Multiset.mem_add.mpr (.inl hmem)))
  show p.payload.SingleFlag
  rcases h.owner hway with hdue | ⟨-, hB⟩
  · obtain ⟨a, e, hl, -, hfetch⟩ := mem_due.mp hdue
    have he : e.fetch.SingleFlag := hfl.orb hl
    rwa [hfetch]
  · exact h.flag _ hB

/-- A response that is not a bypass read's is the one its entry waits
for. -/
theorem answered {side : Side} {pkt : Packet} (h : Owned B (.returnData side pkt :: K) s)
    (hinv : OrbInv (Ctl.of (.returnData side pkt :: K)) s.dcm.core)
    (hno : pkt.address ∉ s.dcm.bypassOutstandingReads) :
    ∃ e, s.dcm.orb.lookup pkt.address = some e ∧ e.state = side.awaits ∧
      pkt.payload = e.fetch := by
  have hret : pkt.payload ∈ returning side (.returnData side pkt :: K) := by
    rw [returning_cons, Call.returns, if_pos rfl]
    exact Multiset.mem_add.mpr (.inl (Multiset.mem_singleton_self _))
  rcases h.owner (Multiset.mem_add.mpr (.inr hret)) with hdue | ⟨-, hB⟩
  · obtain ⟨a, e, hl, hs, hfetch⟩ := mem_due.mp hdue
    have ha : e.pkt.address = a := (hinv.entry hl).addr
    have hpkt : pkt.payload.address = e.fetch.address := congrArg Packet.address hfetch
    have hpkt : pkt.address = e.pkt.address := hpkt
    exact ⟨e, by rw [hpkt, ha]; exact hl, hs, hfetch⟩
  · refine absurd ?_ hno
    show pkt.payload.address ∈ _
    rw [← h.lines]
    exact Multiset.mem_map_of_mem Packet.address hB

/-- A call that is not a bypass read's response. -/
theorem step (h : Owned B (c :: K) s) (hb : Braced (c :: K) s) (hp : Poised (c :: K) s)
    (ha : Awake (c :: K) s) (hinv : OrbInv (Ctl.of (c :: K)) s.dcm.core) (hask : AskOne c s)
    (hno : ∀ side pkt, c = .returnData side pkt → pkt.address ∉ s.dcm.bypassOutstandingReads)
    (he : s.exec c = .ok (s', ks)) : Owned B (ks ++ K) s' := by
  have hfront := exec_frontStep he
  have hstill := hfront.bypassStill hno
  have hdue := hfront.due hinv hno fun side pkt hc => by
    subst hc
    exact h.answered hinv (hno side pkt rfl)
  -- what a side's reads are compared with
  have hside : ∀ x (D : Multiset Packet),
      s.onWay (hook (c :: K)) x + returning x (c :: K) = s.dcm.due x + D →
      s'.onWay (hook (ks ++ K)) x + returning x (ks ++ K) = s'.dcm.due x + D := by
    intro x D hx
    have hway := exec_onWay hb hp ha hask he x
    have hdue : s'.dcm.due x + c.returns x + handedReads x s.dcm.log
        = s.dcm.due x + handedReads x s'.dcm.log := hdue x
    refine Multiset.ext.mpr fun p => ?_
    have h1 := congrArg (Multiset.count p) hway
    have h2 := congrArg (Multiset.count p) hdue
    have h3 := congrArg (Multiset.count p) hx
    simp only [returning_cons, returning_append, Multiset.count_add] at h1 h2 h3 ⊢
    omega
  refine ⟨?_, hside .far B h.far, h.lines.trans hstill.reads.symm, ?_, h.flag⟩
  · have hnear := hside .near 0 (h.near.trans (add_zero _).symm)
    rwa [add_zero] at hnear
  · exact hstill.passed.trans (h.log.trans (congrArg (· + B) hstill.returned.symm))

/-- The response of a bypass read. -/
theorem bypassed {pkt : Packet} (h : Owned B (.returnData .far pkt :: K) s)
    (hmem : pkt.address ∈ s.dcm.bypassOutstandingReads) (hB : pkt.payload ∈ B)
    (he : s.exec (.returnData .far pkt) = .ok (s', ks)) :
    Owned (B.erase pkt.payload) (ks ++ K) s' := by
  have hexec : s.returnData .far pkt
      = (s.onDcm (·.bypassAnswered pkt (s.now pkt.cpu)), []) := by
    rw [returnData, if_pos hmem]
  obtain ⟨rfl, rfl⟩ : s.onDcm (·.bypassAnswered pkt (s.now pkt.cpu)) = s' ∧ [] = ks := by
    obtain ⟨h1, h2⟩ := ok_pair he
    rw [hexec] at h1 h2
    exact ⟨h1.symm, h2.symm⟩
  have hflag : pkt.payload.SingleFlag := h.flag _ hB
  have hflag : pkt.SingleFlag := hflag
  have hlog : (s.dcm.bypassAnswered pkt (s.now pkt.cpu)).log
      = s.dcm.log ++ Manager.upcalls .bypass pkt (s.now pkt.cpu) := rfl
  have hevs : returned (Manager.upcalls .bypass pkt (s.now pkt.cpu)) = {pkt.payload} ∧
      passed (Manager.upcalls .bypass pkt (s.now pkt.cpu)) = 0 := by
    unfold Packet.SingleFlag at hflag
    unfold Manager.upcalls
    cases hi : pkt.instruction <;> cases hd : pkt.isData <;> simp_all <;> exact ⟨rfl, rfl⟩
  have hkeep : ∀ x, s.onWay (hook ([] ++ K)) x = s.onWay (hook (.returnData .far pkt :: K)) x :=
    fun x => by rw [List.nil_append, hook_cons (by simp [Call.rank])]
  refine ⟨?_, ?_, ?_, ?_, fun p hp => h.flag p (Multiset.mem_of_mem_erase hp)⟩
  · have hnear := h.near
    rw [returning_cons, Call.returns, if_neg (by decide), zero_add,
      ← hkeep] at hnear
    exact hnear
  · have hfar := h.far
    rw [returning_cons, Call.returns, if_pos rfl, ← hkeep, ← Multiset.cons_erase hB,
      ← Multiset.singleton_add, add_left_comm, add_left_comm (s.dcm.due .far)] at hfar
    exact add_left_cancel hfar
  · rw [Multiset.map_erase_of_mem _ _ hB, h.lines]
    rfl
  · have hpass := h.log
    rw [onDcm_dcm, hlog, passed_append, returned_append, hevs.1, hevs.2, add_zero, hpass,
      add_assoc, Multiset.singleton_add, Multiset.cons_erase hB]

theorem enter (h : Owned B [] s) (hs : s.Sound) (hinv : OrbInv .calm s.dcm.core)
    (hop : op.SingleFlag) : ∃ B', Owned B' (s.enter op).2 (s.enter op).1 := by
  have hstep := enter_openEnter (fun x => (hs x).ok) op
  have hway := enter_onWay hs hop
  have hhook := hstep.hook_eq
  generalize s.enter op = r at hstep hway hhook
  obtain ⟨s', ks⟩ := r
  have hnone : hook ([] : List Call) = none := rfl
  have hnear := h.near
  have hfar := h.far
  rw [hnone, returning_nil, add_zero] at hnear hfar
  -- the ORB waits for what it waited for, and nothing is handed over
  have hsame : s'.dcm.core.orb = s.dcm.core.orb ∨ (∀ x, s'.dcm.core.due x = s.dcm.core.due x) →
      (∀ x, handedReads x s'.dcm.log = handedReads x s.dcm.log) →
      BypassStill s.dcm.core s'.dcm.core → Owned B ks s' := by
    intro horb hhand hstill
    have hdue : ∀ x, s'.dcm.due x = s.dcm.due x := fun x =>
      horb.elim (fun horb => congrArg (Keyed.total (OrbEntry.owed x)) horb) fun hdue => hdue x
    have hside : ∀ x, s'.onWay none x + returning x ks = s.onWay none x := fun x =>
      add_right_cancel ((hway x).trans (congrArg (s.onWay none x + ·) (hhand x)))
    refine ⟨?_, ?_, h.lines.trans hstill.reads.symm, ?_, h.flag⟩
    · rw [hhook, hside, hdue, hnear]
    · rw [hhook, hside, hdue, hfar]
    · exact hstill.passed.trans (h.log.trans (congrArg (· + B) hstill.returned.symm))
  cases hstep with
  | front hf =>
      obtain ⟨evs, hlog, hevs⟩ := hf.front.log_append
      refine ⟨B, hsame (.inr fun x => ?_) (fun x => ?_) (.of_events _ hlog (fun ev hev => ?_)
        hf.front.bypass.2)⟩
      · have hfront := hf.front
        generalize s'.dcm.core = m' at hfront
        cases hfront with
        | @admitted _ w pkt now _ hc =>
            rw [Manager.due, Manager.admitEntry_orb]
            have horb : (s.dcm.core.emit (.accepted w pkt)).orb = s.dcm.core.orb := rfl
            rw [horb, Keyed.total_insert_new _ (hinv.lookup_none hc), OrbEntry.owed_idle
              (not_waiting_of_drivable (Manager.initialChoice_drivable _)), zero_add, Manager.due]
        | _ => rfl
      · exact congrArg readsIn (hf.handedAs x).1
      · have hadm := hevs ev hev
        cases ev <;> first | exact ⟨rfl, rfl⟩ | cases hadm
  | aside haside hmc hcalm hlog hreads =>
      obtain ⟨evs, hlog, hevs⟩ := hlog
      refine ⟨B, hsame (.inl haside.orb) (fun x => ?_) (.of_events _ hlog (fun ev hev => ?_) hreads)⟩
      · exact congrArg readsIn (warmup_handedAs hcalm ⟨evs, hlog, hevs⟩ x).1
      · have hwarm := hevs ev hev
        cases ev with
        | upcall why => cases why <;> first | exact ⟨rfl, rfl⟩ | cases hwarm
        | _ => first | exact ⟨rfl, rfl⟩ | cases hwarm
  | @bypass _ w pkt hreq hwarm hmode hcore hd =>
      have horb : s'.dcm.core.orb = s.dcm.core.orb := by
        rw [hcore, Manager.bypass_eq]
      have hlog : s'.dcm.core.log = s.dcm.core.log ++ [.handFar none (s.stamp pkt) w] := by
        rw [hcore, Manager.bypass_eq]
      have hreads : s'.dcm.core.bypassOutstandingReads = if w then s.dcm.core.bypassOutstandingReads
          else (s.stamp pkt).address ::ₘ s.dcm.core.bypassOutstandingReads := by
        rw [hcore, Manager.bypass_eq]
      cases w with
      | true =>
          refine ⟨B, hsame (.inl horb) (fun x => ?_) (.of_events _ hlog (by simp [Event.passed?,
            Event.returned?]) hreads)⟩
          have hlog : s'.dcm.log = s.dcm.log ++ [.handFar none (s.stamp pkt) true] := hlog
          rw [hlog, handedReads_append]
          cases x <;> exact add_zero _
      | false =>
          have hflag : pkt.SingleFlag := hop pkt hreq
          have hlog : s'.dcm.log = s.dcm.log ++ [.handFar none (s.stamp pkt) false] := hlog
          have hdue : ∀ x, s'.dcm.due x = s.dcm.due x := fun x =>
            congrArg (Keyed.total (OrbEntry.owed x)) horb
          refine ⟨pkt.payload ::ₘ B, ?_, ?_, ?_, ?_, ?_⟩
          · have hx := hway .near
            rw [hlog, handedReads_append, hnear, ← hdue] at hx
            rw [hhook]
            exact add_right_cancel (hx.trans (congrArg (s'.dcm.due .near + ·) (add_zero _)))
          · have hx := hway .far
            have hone : handedReads .far [.handFar none (s.stamp pkt) false] = {pkt.payload} := rfl
            rw [hlog, handedReads_append, hone, hfar, ← hdue] at hx
            rw [hhook]
            refine add_right_cancel (b := handedReads .far s.dcm.log) (hx.trans ?_)
            rw [← Multiset.singleton_add]
            abel
          · rw [Multiset.map_cons, h.lines]
            exact hreads.symm
          · have hpass : passed [.handFar none (s.stamp pkt) false] = {pkt.payload} := rfl
            have hret : returned [.handFar none (s.stamp pkt) false] = 0 := rfl
            rw [hlog, passed_append, returned_append, hpass, hret, h.log, add_zero,
              ← Multiset.singleton_add]
            abel
          · intro p hp
            rcases Multiset.mem_cons.mp hp with rfl | hp
            · exact hflag
            · exact h.flag p hp

end Owned

/-! ## Responses and requests -/

/-- A response meets its own request: far memory's answer to a bypass read
goes to the upper level, any other response to the entry that asked for
it. -/
def MeetsOwn (s : Sys) (side : Side) (pkt : Packet) : Prop :=
  if pkt.address ∈ s.dcm.bypassOutstandingReads then
    side = .far ∧ pkt.payload ∈ bypassing s.dcm.log ∧
      (s.returnData side pkt).1.dcm.log
        = s.dcm.log ++ Manager.upcalls .bypass pkt (s.now pkt.cpu)
  else
    ∃ e, s.dcm.orb.lookup pkt.address = some e ∧ e.state = side.awaits ∧ pkt.payload = e.fetch

/-- The entry of a line waits for far memory, and not for a fetch that is
still pending. -/
def fetching (h : Option Call) (s : Sys) (address : Nat) : Bool :=
  match s.dcm.orb.lookup address with
  | some e => decide (e.state = .waitingFarMemReadResp) && !decide (e.fetch ∈ s.pendingReads h .far)
  | none => false

end Sys

open Sys (Poised Awake Braced Owned MeetsOwn)

/-- A response for a line with a bypass read outstanding comes from far
memory, and the line's entry has not sent a fetch there. -/
def untangled (x : Worklist.Config Sys Call) : Bool :=
  match x.1 with
  | .returnData side pkt :: K =>
      !decide (pkt.address ∈ x.2.dcm.bypassOutstandingReads)
        || (decide (side = .far) && !x.2.fetching (hook K) pkt.address)
  | _ => true

theorem untangled_response {side : Side} {pkt : Packet} {K : List Call} {s : Sys}
    (h : untangled (.returnData side pkt :: K, s) = true)
    (hmem : pkt.address ∈ s.dcm.bypassOutstandingReads) :
    side = .far ∧ ∀ e, s.dcm.orb.lookup pkt.address = some e → e.state = .waitingFarMemReadResp →
      e.fetch ∈ s.pendingReads (hook K) .far := by
  simp only [untangled, hmem, decide_true, Bool.not_true, Bool.false_or, Bool.and_eq_true,
    decide_eq_true_eq, Bool.not_eq_true'] at h
  refine ⟨h.1, fun e hl hs => ?_⟩
  have hf := h.2
  simpa [Sys.fetching, hl, hs] using hf

theorem Op.OneFlag.single {op : Op} (h : op.OneFlag) : op.SingleFlag := fun pkt => h false pkt

/-- A response from far memory while the entry's fetch is pending is a
bypass read's. -/
theorem Sys.Owned.untangled {B : Multiset Packet} {s : Sys} {side : Side} {pkt : Packet}
    {K : List Call} (h : Owned B (.returnData side pkt :: K) s)
    (hinv : OrbInv (Ctl.of (.returnData side pkt :: K)) s.dcm.core)
    (hok : DramCache.untangled (.returnData side pkt :: K, s) = true)
    (hmem : pkt.address ∈ s.dcm.bypassOutstandingReads) : side = .far ∧ pkt.payload ∈ B := by
  obtain ⟨rfl, hpending⟩ := untangled_response hok hmem
  refine ⟨rfl, ?_⟩
  have hfar := congrArg (Multiset.count pkt.payload) h.far
  have hret : Call.returns .far (.returnData .far pkt) = {pkt.payload} := rfl
  rw [returning_cons, hret, hook_cons (by simp [Call.rank])] at hfar
  simp only [Multiset.count_add, Multiset.count_singleton_self, onWay] at hfar
  rw [← Multiset.count_pos]
  by_cases hdue : pkt.payload ∈ s.dcm.due .far
  · obtain ⟨a, e, hl, hs, hfetch⟩ := mem_due.mp hdue
    have ha : e.pkt.address = a := (hinv.entry hl).addr
    have hpkt : pkt.payload.address = e.fetch.address := congrArg Packet.address hfetch
    have hpkt : pkt.address = e.pkt.address := hpkt
    have hpend := hpending e (by rw [hpkt, ha]; exact hl) hs
    rw [← hfetch, ← Multiset.count_pos] at hpend
    have hone := count_due_le (m := s.dcm) (fun a e hl => (hinv.entry hl).addr) .far pkt.payload
    omega
  · rw [Multiset.count_eq_zero.mpr hdue] at hfar
    omega

section Run

variable {tRP tRCD tCAS dbus tRP' tRCD' tCAS' dbus' : Nat} {clk : Clock} {frontend backend : Nat}
  {x : Worklist.Config Sys Call}

theorem owned_of_boot
    (h : ReachesIf machine Op.OneFlag (fun x => untangled x = true)
      (.boot (.new tRP tRCD tCAS dbus) (.new tRP' tRCD' tCAS' dbus') clk frontend backend) x) :
    Flagged x.2.dcm.core ∧ ∃ B, Owned B x.1 x.2 := by
  have hsound := MemoryController.new_sound
  have hok := MemoryController.new_ok
  refine (ReachesIf.invariant (P := fun x => (Poised x.1 x.2 ∧ Awake x.1 x.2) ∧
    Flagged x.2.dcm.core ∧ ∃ B, Owned B x.1 x.2) ?_ ?_ ?_ h).2
  · refine ⟨Sys.boot_poised (hok ..) (hok ..) clk frontend backend, ⟨?_, ?_⟩, 0, ?_⟩
    · intro a e he
      cases he
    · intro c hc
      cases hc
    · exact .start rfl (fun x => by cases x <;> rfl)
        (fun x => by cases x <;> exact ⟨_, _, _, _, rfl⟩) rfl ⟨rfl, rfl⟩
  · rintro op s hop hx hr ⟨⟨hp, ha⟩, hfl, B, hB⟩
    have hbraced := braced_of_boot (hsound ..) (hsound ..) hr
    refine ⟨⟨(Sys.enter_openEnter hp.mcOk op).poised hp, ha.enter op⟩, ?_,
      hB.enter hbraced.sound (orbInv_of_boot hr).2 (Op.OneFlag.single hop)⟩
    rcases s.enter_open op with hf | ⟨haside, -⟩
    · exact hfl.enter hf hop
    · exact hfl.congr haside.orb haside.crb
  · rintro c K s s' ks hx hr ⟨⟨hp, ha⟩, hfl, B, hB⟩ he
    have hbraced := braced_of_boot (hsound ..) (hsound ..) hr
    have hinv := (orbInv_of_boot hr).2
    have hstep := hp.callStep ha he
    refine ⟨⟨hp.step hstep, ha.step hstep he⟩, hfl.step (Sys.exec_frontStep he), ?_⟩
    by_cases hmem : ∃ side pkt, c = .returnData side pkt ∧
        pkt.address ∈ s.dcm.bypassOutstandingReads
    · obtain ⟨side, pkt, rfl, hmem⟩ := hmem
      obtain ⟨rfl, hpkt⟩ := hB.untangled hinv hx hmem
      exact ⟨_, hB.bypassed hmem hpkt he⟩
    · exact ⟨B, hB.step hbraced hp ha hinv (hB.askOne hp hfl)
        (fun side pkt hc hm => hmem ⟨side, pkt, hc, hm⟩) he⟩

/-- **Every response meets its own request**, whenever bypass mode is
switched, in the runs where no response for a line with a bypass read
outstanding is near memory's or the answer to the entry's own fetch. -/
theorem toggling_routes
    (h : ReachesIf machine Op.OneFlag (fun x => untangled x = true)
      (.boot (.new tRP tRCD tCAS dbus) (.new tRP' tRCD' tCAS' dbus') clk frontend backend) x)
    (hx : untangled x = true) {side : Side} {pkt : Packet} {K : List Call}
    (hcall : x.1 = .returnData side pkt :: K) : x.2.MeetsOwn side pkt := by
  obtain ⟨K', s⟩ := x
  obtain rfl : K' = .returnData side pkt :: K := hcall
  obtain ⟨-, B, hB⟩ := owned_of_boot h
  have hinv := (orbInv_of_boot h).2
  unfold Sys.MeetsOwn
  split
  · rename_i hmem
    obtain ⟨rfl, hpkt⟩ := hB.untangled hinv hx hmem
    refine ⟨rfl, hB.bypassing ▸ hpkt, ?_⟩
    show (s.returnData .far pkt).1.dcm.log = _
    rw [Sys.returnData, if_pos hmem]
    rfl
  · rename_i hno
    exact hB.answered hinv hno

end Run

/-- A bypass read of line 5, then one through the cache. -/
def twoModes (pol : Policy) : List Op :=
  [.finishWarmup, .setBypassDcache true, .addRq (.readOf 5), .setBypassDcache false,
    .setPolicy pol, .addRq { Packet.readOf 5 with instrId := 1 }]

theorem twoModes_allowed (pol : Policy) : ∀ op ∈ twoModes pol, op.OneFlag ∧ op.Nonzero := by
  simp [twoModes, Op.OneFlag, Op.Nonzero, Op.request?, Packet.readOf, Packet.SingleFlag]

/-- Without a tag check the second read's fetch merges with the bypass read
and waits. -/
theorem toggling_routes_oracle :
    ∃ K s, ReachesIf machine Op.OneFlag (fun x => untangled x = true)
        (.boot (.new 0 0 0 0) (.new 0 0 0 0) .zero 0 0)
        (.returnData .far { Packet.readOf 5 with eventCycle := 0 } :: K, s) ∧
      (s.dcm.orb.lookup 5).map OrbEntry.state = some .waitingFarMemReadResp ∧
      s.MeetsOwn .far { Packet.readOf 5 with eventCycle := 0 } := by
  obtain ⟨⟨K', s⟩, hx, hconf⟩ := Option.map_eq_some_iff.mp (show ((Worklist.driveIf machine
    (fun x => untangled x = true) 60 (twoModes .oracle)
    (.boot (.new 0 0 0 0) (.new 0 0 0 0) .zero 0 0)).bind fun s => Worklist.advanceIf machine
      (fun x => untangled x = true) 5 (machine.enter .operate s).swap).map
      (fun x => (x.1.head?, untangled x, (x.2.dcm.orb.lookup 5).map OrbEntry.state))
      = some (some (.returnData .far { Packet.readOf 5 with eventCycle := 0 }), true,
        some .waitingFarMemReadResp) from by decide +kernel)
  obtain ⟨s₁, hs₁, hadv⟩ := Option.bind_eq_some_iff.mp hx
  simp only [Prod.mk.injEq] at hconf
  obtain ⟨hhead, hok, hstate⟩ := hconf
  obtain ⟨K, rfl⟩ := List.head?_eq_some_iff.mp hhead
  have hr₁ : ReachesIf machine Op.OneFlag (fun x => untangled x = true)
      (.boot (.new 0 0 0 0) (.new 0 0 0 0) .zero 0 0) ([], s₁) :=
    Worklist.driveIf_reaches (fun op hop => (twoModes_allowed .oracle op hop).1) .refl hs₁
  have hone : (Op.operate).OneFlag := by simp [Op.OneFlag, Op.request?]
  have hr := Worklist.advanceIf_reaches (hr₁.enter hone rfl) hadv
  exact ⟨K, s, hr, hstate, toggling_routes hr hok rfl⟩

/-- Far memory's answer is taken for the one to a tag check. -/
def Event.mixesUp : Event → Bool
  | .answered .far e => decide (e.state = .waitingLocMemReadResp)
  | _ => false

/-- Near memory's tag check for the second read is delivered as the bypass
read's response, and then far memory's answer to the bypass read is taken
for the tag check. -/
theorem toggling_mixes_up :
    (∃ K s pkt, Reaches machine (fun op => op.OneFlag ∧ op.Nonzero)
        (.boot (.new 0 0 0 0) (.new 0 0 0 0) .zero 0 0) (.returnData .near pkt :: K, s) ∧
      ¬ s.MeetsOwn .near pkt) ∧
    ∃ s e, Reaches machine (fun op => op.OneFlag ∧ op.Nonzero)
        (.boot (.new 0 0 0 0) (.new 0 0 0 0) .zero 0 0) ([], s) ∧
      e.state = .waitingLocMemReadResp ∧ .answered .far e ∈ s.dcm.log := by
  have hop : (Op.operate).OneFlag ∧ (Op.operate).Nonzero := by
    simp [Op.OneFlag, Op.Nonzero, Op.request?]
  constructor
  · obtain ⟨⟨K', s⟩, hx, hconf⟩ := Option.map_eq_some_iff.mp (show ((Worklist.drive machine 60
      (twoModes .baselineCascadeLake) (.boot (.new 0 0 0 0) (.new 0 0 0 0) .zero 0 0)).bind
        fun s => Worklist.advance machine 4 (machine.enter .operate s).swap).map
        (fun x => (x.1.head?, decide (5 ∈ x.2.dcm.bypassOutstandingReads)))
        = some (some (.returnData .near { Packet.readOf 5 with instrId := 1, eventCycle := 0 }),
          true) from by decide +kernel)
    obtain ⟨s₁, hs₁, hadv⟩ := Option.bind_eq_some_iff.mp hx
    simp only [Prod.mk.injEq, decide_eq_true_eq] at hconf
    obtain ⟨hhead, hmem⟩ := hconf
    obtain ⟨K, rfl⟩ := List.head?_eq_some_iff.mp hhead
    have hr₁ := Worklist.drive_reaches (twoModes_allowed .baselineCascadeLake) .refl hs₁
    refine ⟨K, s, _, Worklist.advance_reaches (hr₁.enter hop trivial) hadv, fun hown => ?_⟩
    unfold Sys.MeetsOwn at hown
    split at hown
    · cases hown.1
    · rename_i hno
      exact hno hmem
  · obtain ⟨s, hs, hlog⟩ := Option.map_eq_some_iff.mp (show (Worklist.drive machine 60
      (twoModes .baselineCascadeLake ++ [.operate])
      (.boot (.new 0 0 0 0) (.new 0 0 0 0) .zero 0 0)).map (fun s => s.dcm.log.any Event.mixesUp)
        = some true from by decide +kernel)
    obtain ⟨ev, hev, hmatch⟩ := List.any_eq_true.mp hlog
    refine ⟨s, ?_⟩
    cases ev with
    | answered side e =>
        cases side with
        | near => cases hmatch
        | far =>
            refine ⟨e, Worklist.drive_reaches (fun op hmem => ?_) .refl hs,
              of_decide_eq_true hmatch, hev⟩
            rcases List.mem_append.mp hmem with hmem | hmem
            · exact twoModes_allowed _ op hmem
            · rwa [List.mem_singleton.mp hmem]
    | _ => cases hmatch

end DramCache
