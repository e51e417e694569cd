import Mathlib.Algebra.GroupWithZero.Nat
import Mathlib.Algebra.Order.BigOperators.Group.List
import Mathlib.Algebra.Order.Group.Nat
import DramCache.Assertions

/-!
# The cascade ends

A hop of the cascade may be synchronous throughout: a promoted request is
answered from a write queue, completes, promotes the next, and pushes into
the very queue a retry loop drains. `load` bounds it. It has two accounts.
`front` is what the requests still owe: by state in the ORB, in full for
one that waits in the CRB, and what the calls on them are about to do.
`back` is the traffic: the packets that pend, the loops and callbacks. A
call on a request pays its `fee` from the first account into the second,
which covers the one packet it hands over; `FrontStep.front` and
`Motion.back` are the two balances, and `exec_load` joins them.
-/

namespace DramCache

/-- What an entry in a state still owes: a near read may be followed by a
far read, and either by the completion of the request. -/
def ReqState.owes : ReqState → Nat
  | .locMemRead | .waitingLocMemReadResp => 15
  | .farMemRead | .waitingFarMemReadResp => 7
  | _ => 0

theorem ReqState.owes_le (st : ReqState) : st.owes ≤ 15 := by cases st <;> decide

/-- What the requests owe. -/
def Manager.owes (m : Manager) : Nat :=
  Keyed.total (fun e => e.state.owes) m.orb + 24 * m.crb.length

/-- The packets that pend. -/
def Manager.pendingCount (m : Manager) : Nat :=
  (m.pending .near).length + (m.pending .far).length

namespace Call

/-- What a call on a request is worth. -/
def front : Call → Nat
  | .driveState _ => 8
  | .backgroundFill .. => 6
  | .completeRequest .. => 2
  | .promoteFromCRB _ | .flagConflict .. => 1
  | _ => 0

/-- What the other calls are worth. -/
def back : Call → Nat
  | .drainWB => 6
  | .processPendingFarDispatches | .processPendingNearDispatches => 5
  | .operateController _ => 3
  | .returnData .. | .forwardDone _ | .popFar | .popNear | .processReadDone ..
  | .processPendingResponses | .recordOccupancySamples => 1
  | _ => 0

/-- What a call on a request pays. -/
def fee : Call → Nat
  | .driveState _ | .backgroundFill .. => 6
  | .completeRequest .. | .promoteFromCRB _ | .flagConflict .. => 1
  | _ => 0

end Call

/-- The measure of a configuration. -/
def load (x : Worklist.Config Sys Call) : Nat :=
  (x.1.map Call.front).sum + (x.1.map Call.back).sum + x.2.dcm.owes + 5 * x.2.dcm.pendingCount

/-! ## What the requests owe -/

theorem Call.front_bystander {c : Call} (h : c.bystander) : c.front = 0 := by
  cases c <;> first | rfl | cases h

theorem Call.back_front {c : Call} (h : c.bystander = false) : c.back = 0 := by
  cases c <;> first | rfl | cases h

/-- A bystander's calls cost the requests nothing. -/
theorem sum_front {ks : List Call} (h : ∀ k ∈ ks, k.bystander) : (ks.map Call.front).sum = 0 :=
  List.sum_eq_zero fun n hn => by
    obtain ⟨k, hk, rfl⟩ := List.mem_map.mp hn
    exact Call.front_bystander (h k hk)

theorem sum_back {ks : List Call} (h : ∀ k ∈ ks, k.bystander = false) :
    (ks.map Call.back).sum = 0 :=
  List.sum_eq_zero fun n hn => by
    obtain ⟨k, hk, rfl⟩ := List.mem_map.mp hn
    exact Call.back_front (h k hk)

section Owes

variable {m n : Manager} {a : Nat} {e f : OrbEntry}

/-- An entry changes its state. -/
theorem Manager.owes_insert (hl : m.orb.lookup a = some e) (horb : n.orb = m.orb.insert a f)
    (hcrb : n.crb = m.crb) : n.owes + e.state.owes = m.owes + f.state.owes := by
  have ht := Keyed.total_insert (fun e : OrbEntry => e.state.owes) hl f
  rw [owes, owes, horb, hcrb]
  omega

/-- An entry leaves. -/
theorem Manager.owes_erase (hl : m.orb.lookup a = some e) (horb : n.orb = m.orb.erase a)
    (hcrb : n.crb = m.crb) : m.owes = n.owes + e.state.owes := by
  have ht := Keyed.total_erase (fun e : OrbEntry => e.state.owes) hl
  rw [owes, owes, horb, hcrb]
  omega

/-- The first waiter of an index is admitted. -/
theorem Manager.owes_promote {i : Nat} {c : CrbEntry} (hw : m.waiter? i = some c)
    (hnone : m.orb.lookup a = none) (horb : n.orb = m.orb.insert a e)
    (hcrb : n.crb = (m.takeWaiter i).crb) : n.owes + 24 = m.owes + e.state.owes := by
  have ht := Keyed.total_insert_new (fun e : OrbEntry => e.state.owes) hnone e
  have hlen : m.crb.length = (m.takeWaiter i).crb.length + 1 := (Keyed.perm_of_find hw).length_eq
  rw [owes, owes, horb, hcrb]
  omega

end Owes

/-- **The balance of the requests.** What a call takes out covers what the
calls it leaves are worth, and its fee. -/
theorem FrontStep.front {m m' : Manager} {c : Call} {ks K : List Call} (h : FrontStep m c m' ks)
    (hinv : OrbInv (Ctl.of (c :: K)) m) :
    m'.owes + (ks.map Call.front).sum + c.fee ≤ m.owes + c.front := by
  cases h with
  | quiet hc hks =>
      have hfee : c.fee = 0 := by cases c <;> first | rfl | cases hc
      rw [sum_front hks, hfee]
      omega
  | bypassed => exact Nat.le_refl _
  | untracked => exact Nat.le_refl _
  | stray => exact Nat.le_refl _
  | @nearEnter side pkt e st now hl hs hst =>
      have he := hinv.entry hl
      rw [← he.addr] at hl
      have hins := Manager.owes_insert hl (n := ((m.emit (.answered side e)).nearAnswered e
        now).enterState e st) (f := { e with state := st })
        (by simp [Manager.enterState, Manager.emit]) (by simp [Manager.enterState, Manager.emit])
      rw [hs] at hins
      rcases hst with ⟨rfl, -⟩ | ⟨rfl, -⟩ <;>
        simp only [ReqState.owes, Call.front, Call.fee, List.map_cons, List.map_nil, List.sum_cons,
          List.sum_nil] at hins ⊢ <;> omega
  | @nearHit side pkt e lat now hl hs =>
      have he := hinv.entry hl
      rw [← he.addr] at hl
      have hera := Manager.owes_erase hl (n := ((m.emit (.answered side e)).nearAnswered e
        now).retire e lat now) (by simp [Manager.emit]) (by simp [Manager.emit])
      rw [hs] at hera
      simp only [ReqState.owes, Call.front, Call.fee, List.map_cons, List.map_nil, List.sum_cons,
        List.sum_nil] at hera ⊢
      omega
  | @farDone side pkt e lat now hl hs =>
      have he := hinv.entry hl
      rw [← he.addr] at hl
      have hera := Manager.owes_erase hl (n := ((m.emit (.answered side e)).farAnswered).retire e
        lat now) (by simp [Manager.emit, Manager.farAnswered, Manager.count])
        (by simp [Manager.emit, Manager.farAnswered, Manager.count])
      rw [hs] at hera
      simp only [ReqState.owes, Call.front, Call.fee, List.map_cons, List.map_nil, List.sum_cons,
        List.sum_nil] at hera ⊢
      omega
  | driveIdle =>
      simp only [Call.front, Call.fee, List.map_nil, List.sum_nil]
      omega
  | @readNear a e ks now hl hs hks =>
      have he := hinv.entry hl
      rw [← he.addr] at hl
      have hins := Manager.owes_insert hl (n := m.readNear e now) rfl rfl
      rw [hs] at hins
      rw [sum_front hks]
      simp only [ReqState.owes, Call.front, Call.fee] at hins ⊢
      omega
  | @readFar a e ks now hl hs hks =>
      have he := hinv.entry hl
      rw [← he.addr] at hl
      have hins := Manager.owes_insert hl (n := m.readFar e now) rfl rfl
      rw [hs] at hins
      rw [sum_front hks]
      simp only [ReqState.owes, Call.front, Call.fee] at hins ⊢
      omega
  | @writeNear a e now hl hs =>
      have he := hinv.entry hl
      rw [← he.addr] at hl
      have hins := Manager.owes_insert hl (n := m.writeNear e now) rfl rfl
      rw [hs] at hins
      simp only [ReqState.owes, Call.front, Call.fee, List.map_cons, List.map_nil, List.sum_cons,
        List.sum_nil] at hins ⊢
      omega
  | completeNone =>
      simp only [Call.front, Call.fee, List.map_nil, List.sum_nil]
      omega
  | @complete a lat e now hl =>
      have he := hinv.entry hl
      have hera := Manager.owes_erase hl (n := m.retire e lat now) (by simp [he.addr]) (by simp)
      simp only [Call.front, Call.fee, List.map_cons, List.map_nil, List.sum_cons, List.sum_nil]
      omega
  | promoteNone => exact Nat.le_refl _
  | @promote i c now hw =>
      have hpro := Manager.owes_promote hw (hinv.waiter_none hw)
        (n := (m.takeWaiter i).admitEntry c.pkt c.isWriteReq (some c.arrivalCycle) now)
        (e := (m.takeWaiter i).admittedEntry c.pkt c.isWriteReq (some c.arrivalCycle) now) rfl rfl
      have hle := ReqState.owes_le ((m.takeWaiter i).admittedEntry c.pkt c.isWriteReq
        (some c.arrivalCycle) now).state
      simp only [Call.front, Call.fee, List.map_cons, List.map_nil, List.sum_cons, List.sum_nil]
      omega
  | @flag a i =>
      have hsame : (m.flagConflict a i).owes = m.owes := by
        rcases m.flagConflict_eq a i with hf | ⟨e, hl, hf⟩
        · rw [hf]
        · have hins := Manager.owes_insert hl (n := m.flagConflict a i)
            (f := { e with conflict := true }) (by rw [hf]) (by rw [hf])
          exact Nat.add_right_cancel hins
      rw [hsame]
      exact Nat.le_refl _
  | fill hks =>
      rw [sum_front hks]
      exact Nat.le_refl _
  | drained => exact Nat.le_refl _
  | responses clk =>
      obtain ⟨due, rest, -, hr⟩ := Manager.releaseResponses_eq clk m.pendingResponses m
      rw [Manager.processPendingResponses, hr]
      exact Nat.le_refl _
  | samples => exact Nat.le_refl _

/-! ## The traffic -/

namespace Sys

variable {s s' : Sys} {c : Call} {K ks : List Call}

/-- Two callbacks and the end of `add_rq`. -/
theorem Answers.back {side : Side} (h : Answers side ks) : (ks.map Call.back).sum ≤ 3 := by
  obtain ⟨pkt, hsub⟩ := h
  have hle : ((callbacks side pkt ++ [Call.forwardDone side]).map Call.back).sum ≤ 3 := by
    unfold callbacks
    split <;> split <;> simp [Call.back]
  exact ((hsub.map Call.back).sum_le_sum fun _ _ => Nat.zero_le _).trans hle

theorem pendingCount_same (h : ∀ x, s'.dcm.pending x = s.dcm.pending x) :
    s'.dcm.pendingCount = s.dcm.pendingCount := by
  rw [Manager.pendingCount, h, h, Manager.pendingCount]

/-- One queue changes its length. -/
theorem pendingCount_change (side : Side)
    (hother : ∀ x, x ≠ side → s'.dcm.pending x = s.dcm.pending x) :
    s'.dcm.pendingCount + (s.dcm.pending side).length
      = s.dcm.pendingCount + (s'.dcm.pending side).length := by
  cases side with
  | near =>
      have hfar := hother .far (by decide)
      rw [Manager.pendingCount, Manager.pendingCount, hfar]
      omega
  | far =>
      have hnear := hother .near (by decide)
      rw [Manager.pendingCount, Manager.pendingCount, hnear]
      omega

/-- A packet that is handed over pends, or is answered. -/
theorem Handed.back {side : Side} (h : Handed s side s' ks) :
    (ks.map Call.back).sum + 5 * s'.dcm.pendingCount ≤ 5 * s.dcm.pendingCount + 5 := by
  cases h with
  | sent _ hpend hks =>
      have hle := hks.back
      rw [pendingCount_same hpend]
      omega
  | queued _ hpend hother =>
      have hchange := pendingCount_change side hother
      rw [hpend, List.length_append, List.length_singleton] at hchange
      simp only [List.map_nil, List.sum_nil]
      omega

/-- **The balance of the traffic.** A call's worth and the fee it is paid
cover the packets that pend and the calls it leaves. -/
theorem Motion.back (h : Motion s c s' ks) (hpop : ∀ side, c = side.pop → s.dcm.pending side ≠ []) :
    (ks.map Call.back).sum + 5 * s'.dcm.pendingCount < 5 * s.dcm.pendingCount + c.fee + c.back := by
  cases h with
  | still _ _ hpend hks =>
      have hpos : 0 < c.fee + c.back := by cases c <;> simp [Call.fee, Call.back]
      rw [sum_back hks, pendingCount_same hpend]
      omega
  | @handed c side _ ks ks' hc hd hh hks' =>
      have hpos : c.fee + c.back = 6 := by
        cases c <;> first | rfl | (cases hd; done) | exact absurd rfl hc
      have hle := hh.back
      rw [List.map_append, List.sum_append, sum_back hks']
      omega
  | @released side _ ks _ _ hpend hks =>
      have hle := hks.back
      have hcall : side.process.back = 5 ∧ side.pop.back = 1 := by cases side <;> decide
      rw [List.map_append, List.sum_append, List.map_singleton, List.sum_singleton,
        pendingCount_same hpend]
      omega
  | popped side _ hpend hother =>
      have hne := List.length_pos_iff.mpr (hpop side rfl)
      have hchange := pendingCount_change side hother
      have hcall : side.process.back = 5 ∧ side.pop.back = 1 := by cases side <;> decide
      rw [hpend, List.length_tail] at hchange
      rw [List.map_singleton, List.sum_singleton]
      omega
  | operated _ hdcm =>
      rw [hdcm]
      simp [Call.fee, Call.back]
  | finished _ hdcm =>
      rw [hdcm]
      simp only [List.map_cons, List.map_nil, List.sum_cons, List.sum_nil, Call.fee, Call.back]
      omega
  | readDone _ hdcm =>
      rw [hdcm]
      simp [Call.fee, Call.back]

/-- What the measure needs of a configuration. -/
structure Loaded (x : Worklist.Config Sys Call) : Prop where
  braced : Braced x.1 x.2
  calmTail : CalmTail x.1
  orbInv : OrbInv (Ctl.of x.1) x.2.dcm.core

/-- **Every call makes the load smaller.** -/
theorem exec_load (h : Loaded (c :: K, s)) : ∃ s' ks, machine.exec c s = .ok (s', ks) ∧
    Loaded (ks ++ K, s') ∧ load (ks ++ K, s') < load (c :: K, s) := by
  have hbraced : Braced (c :: K) s := h.braced
  obtain ⟨s', ks, he, hm, hb⟩ := hbraced.exec
  have hf := exec_frontStep he
  refine ⟨s', ks, he, ⟨hb, hf.calmTail h.calmTail, h.orbInv.step hf h.calmTail⟩, ?_⟩
  have hfront := hf.front h.orbInv
  have hback := hm.back fun side hc => by
    refine hbraced.pop side ?_
    rw [hc]
    exact hook_cons_self side.pop_rank
  have hcore : ∀ s : Sys, s.dcm.core.owes = s.dcm.owes := fun _ => rfl
  rw [hcore s', hcore s] at hfront
  simp only [load, List.map_append, List.sum_append, List.map_cons, List.sum_cons]
  omega

end Sys

/-! ## Termination -/

open Worklist (Reaches ReachesIf exhaust)

section Boot

variable {allow : Op → Prop} {ok : Worklist.Config Sys Call → Prop} {near far : MemoryController}
  {clk : Clock} {frontend backend : Nat} {x : Worklist.Config Sys Call}

theorem loaded_of_boot (hnear : near.Sound) (hfar : far.Sound)
    (h : ReachesIf machine allow ok (.boot near far clk frontend backend) x) : Sys.Loaded x :=
  ⟨braced_of_boot hnear hfar h, (orbInv_of_boot h).1, (orbInv_of_boot h).2⟩

end Boot

/-- The load bounds the number of calls. -/
theorem exhaust_load {x : Worklist.Config Sys Call} (h : Sys.Loaded x) :
    ∃ s', exhaust machine (load x) x.1 x.2 = some (.ok s') := by
  obtain ⟨s', hs, -⟩ := Worklist.exhaust_terminates (M := machine) (P := Sys.Loaded) (μ := load)
    (fun _ _ _ => Sys.exec_load) h (Nat.le_refl _)
  exact ⟨s', hs⟩

/-- **The cascade ends.** From every configuration of every run, in every
mode, the next call is executed and makes the load smaller, so the calls
that are waiting come to an end; so do those of every operation entered at
a call boundary, and of `return_data` called there with any packet. -/
theorem cascade_terminates {tRP tRCD tCAS dbus tRP' tRCD' tCAS' dbus' : Nat} {clk : Clock}
    {frontend backend : Nat} {x : Worklist.Config Sys Call}
    (h : Reaches machine (fun _ => True)
      (.boot (.new tRP tRCD tCAS dbus) (.new tRP' tRCD' tCAS' dbus') clk frontend backend) x) :
    (∀ c K, x.1 = c :: K → ∃ s' ks, machine.exec c x.2 = .ok (s', ks) ∧
      load (ks ++ K, s') < load x) ∧
    (∃ s', exhaust machine (load x) x.1 x.2 = some (.ok s')) ∧
    (x.1 = [] → ∀ op, ∃ s', exhaust machine (load ((x.2.enter op).2, (x.2.enter op).1))
      (x.2.enter op).2 (x.2.enter op).1 = some (.ok s')) ∧
    (x.1 = [] → ∀ side pkt, ∃ s', exhaust machine (load ([.returnData side pkt], x.2))
      [.returnData side pkt] x.2 = some (.ok s')) := by
  have hsound := MemoryController.new_sound
  have hx := loaded_of_boot (hsound ..) (hsound ..) h
  obtain ⟨K, s⟩ := x
  refine ⟨?_, exhaust_load hx, ?_, ?_⟩
  · rintro c K rfl
    obtain ⟨s', ks, he, -, hlt⟩ := Sys.exec_load hx
    exact ⟨s', ks, he, hlt⟩
  · rintro rfl op
    have henter : Reaches machine (fun _ => True) _ ((s.enter op).2, (s.enter op).1) :=
      h.enter trivial trivial
    exact exhaust_load (loaded_of_boot (hsound ..) (hsound ..) henter)
  · rintro rfl side pkt
    refine exhaust_load ⟨?_, by simp [CalmTail], hx.orbInv⟩
    have hstay := hx.braced.sound.endures (fun _ => rfl) fun _ => rfl
    exact hstay.braced (by simp [Call.rank])

/-- A read for both ports waits behind a read of its index, whose near read
has just been answered. -/
theorem cascade_terminates_both_ports :
    ∃ s, Worklist.drive machine 60
        [.addWq (.readOf 5), .finishWarmup, .setPolicy .bearWrOpt, .setLinkLatency 2,
          .addRq (.readOf (5 + dcmNumLines)), .addRq { Packet.readOf 5 with instruction := true },
          .operate, .operate]
        (.boot (.new 0 0 0 0) (.new 0 0 0 0) .zero 0 0) = some s ∧ s.dcm.crb.length = 1 ∧
      ∀ op, ∃ s', exhaust machine (load ((s.enter op).2, (s.enter op).1)) (s.enter op).2
        (s.enter op).1 = some (.ok s') := by
  obtain ⟨s, hs, hcrb⟩ := Option.map_eq_some_iff.mp (show (Worklist.drive machine 60
    [.addWq (.readOf 5), .finishWarmup, .setPolicy .bearWrOpt, .setLinkLatency 2,
      .addRq (.readOf (5 + dcmNumLines)), .addRq { Packet.readOf 5 with instruction := true },
      .operate, .operate]
    (.boot (.new 0 0 0 0) (.new 0 0 0 0) .zero 0 0)).map (fun s => s.dcm.crb.length) = some 1 from
      by decide +kernel)
  have hr : Reaches machine (fun _ => True) (.boot (.new 0 0 0 0) (.new 0 0 0 0) .zero 0 0)
      ([], s) := Worklist.drive_reaches (fun _ _ => trivial) .refl hs
  exact ⟨s, hs, hcrb, (cascade_terminates hr).2.2.1 rfl⟩

end DramCache
