import DramCache.Assertions
import DramCache.OpenSteps

/-!
# What `trySend` tells its caller

The controllers' `add_rq` and `add_wq` check no capacity, drop a packet
that finds no empty slot and return -1 for three different outcomes.
`trySend` looks at an occupancy counter before it calls them. In every
state of a run, also between two calls of it, that is enough:
`trySend_sound`.
-/

namespace DramCache

open Worklist (Reaches ReachesIf)

namespace MemoryController

variable {mc mc' : MemoryController} {k : QueueKind} {pkt : Packet}

/-- The queue holds a line in one of its slots. -/
def Holds (mc : MemoryController) (k : QueueKind) (address : Nat) : Prop :=
  ∃ i, i < (mc.queue k).entry.length ∧ ((mc.queue k).slotAt i).pkt.address = address

/-- The packet, and nothing else, was put into a slot that was empty. -/
structure Takes (mc : MemoryController) (k : QueueKind) (pkt : Packet) (mc' : MemoryController) :
    Prop where
  slot : ∃ i, i < (mc.queue k).entry.length ∧ ((mc.queue k).slotAt i).pkt.address = 0 ∧
    SetsSlot mc mc' k i { pkt := pkt }
  occupancy : (mc'.queue k).occupancy = (mc.queue k).occupancy + 1

theorem holds_of_check {i : Nat} (h : (mc.queue k).checkDramQueue pkt = some i) :
    mc.Holds k pkt.address := by
  obtain ⟨hi, ha, -⟩ := List.findIdx?_eq_some_iff_getElem.mp h
  exact ⟨i, hi, by simpa [PacketQueue.slotAt, List.getElem?_eq_getElem hi] using ha⟩

/-- A slot that was filled was not what it is now. -/
theorem Takes.ne (h : Takes mc k pkt mc') (hpkt : pkt.address ≠ 0) : mc' ≠ mc := by
  rintro rfl
  obtain ⟨i, hi, h0, hset⟩ := h.slot
  rw [hset.self hi] at h0
  exact hpkt h0

/-- With room, a packet whose line is not queued is stored. -/
theorem Sound.takes (h : mc.Sound) (hroom : (mc.queue k).occupancy < (mc.queue k).size)
    (hnone : (mc.queue k).checkDramQueue pkt = none) :
    Takes mc k pkt (mc.setQueue k ((mc.queue k).insert pkt)) ∧
      (mc.queue k).emptyIndex.isSome = true := by
  obtain ⟨i, hi, h0, -, -, hset, -⟩ := store_books h.inStep h.ok k hroom hnone
  have hlen : i < (mc.queue k).entry.length := by
    obtain ⟨j, hj, hline⟩ := (h.ok.queue k).toSane.emptyIndex hroom
    obtain rfl : i = j := Option.some.inj (hi.symm.trans hj)
    rw [← PacketQueue.lines_length]
    exact (List.getElem?_eq_some_iff.mp hline).1
  refine ⟨⟨⟨i, hlen, h0, hset⟩, ?_⟩, by rw [hi]; rfl⟩
  have hins : ((mc.queue k).insert pkt).occupancy = (mc.queue k).occupancy + 1 := by
    simp only [PacketQueue.insert, hi]
    rfl
  cases k <;> exact hins

theorem Sound.addWq_takes (h : mc.Sound) (hroom : mc.wq.occupancy < mc.wq.size)
    (hnone : mc.wq.checkDramQueue pkt = none) :
    ∃ mc', mc.addWq pkt = (mc', .inserted) ∧ Takes mc .wq pkt mc' := by
  obtain ⟨htakes, hempty⟩ := h.takes (k := .wq) hroom hnone
  refine ⟨_, ?_, htakes⟩
  have hempty : mc.wq.emptyIndex.isSome = true := hempty
  simp only [addWq, hnone, if_pos hempty]
  rfl

theorem Sound.addRq_takes (h : mc.Sound) (hroom : mc.rq.occupancy < mc.rq.size)
    (hwq : mc.wq.checkDramQueue pkt = none) (hnone : mc.rq.checkDramQueue pkt = none) :
    ∃ mc', mc.addRq pkt = (mc', .inserted) ∧ Takes mc .rq pkt mc' := by
  obtain ⟨htakes, hempty⟩ := h.takes (k := .rq) hroom hnone
  refine ⟨_, ?_, htakes⟩
  have hempty : mc.rq.emptyIndex.isSome = true := hempty
  simp only [addRq, hwq, hnone, if_pos hempty]
  rfl

end MemoryController

/-- Exactly one of three. -/
structure ExactlyOne (p q r : Prop) : Prop where
  some : p ∨ q ∨ r
  notBoth₁₂ : ¬ (p ∧ q)
  notBoth₁₃ : ¬ (p ∧ r)
  notBoth₂₃ : ¬ (q ∧ r)

namespace Sys

open MemoryController (Takes)

variable {s s' : Sys} {side : Side} {pkt : Packet} {w : Bool} {K ks : List Call}

/-- The packet, stamped with the current cycle, has a slot of the right
queue; the other controller is untouched. -/
structure Stored (s : Sys) (side : Side) (pkt : Packet) (w : Bool) (s' : Sys) (ks : List Call) :
    Prop where
  takes : Takes (s.mc side) (if w then .wq else .rq) (s.stamp pkt) (s'.mc side)
  other : ∀ x, x ≠ side → s'.mc x = s.mc x
  calls : ks = []

/-- A write of a line that has a write queued: nothing changed. -/
structure Coalesced (s : Sys) (side : Side) (pkt : Packet) (w : Bool) (s' : Sys)
    (ks : List Call) : Prop where
  isWrite : w = true
  queued : (s.mc side).Holds .wq pkt.address
  mc : ∀ x, s'.mc x = s.mc x
  calls : ks = []

/-- A read of a line that has a write queued: `return_data` is called for
each flag of the packet, and `add_rq` then ends with its counters. -/
structure Answered (s : Sys) (side : Side) (pkt : Packet) (w : Bool) (s' : Sys)
    (ks : List Call) : Prop where
  isRead : w = false
  queued : (s.mc side).Holds .wq pkt.address
  mc : ∀ x, s'.mc x = s.mc x
  calls : ks = callbacks side (s.stamp pkt) ++ [.forwardDone side]

/-- What became of a packet that `trySend` says it sent. -/
def SentOnce (s : Sys) (side : Side) (pkt : Packet) (w : Bool) (s' : Sys) (ks : List Call) :
    Prop :=
  ExactlyOne (Stored s side pkt w s' ks) (Coalesced s side pkt w s' ks)
    (Answered s side pkt w s' ks)

theorem Stored.sentOnce (h : Stored s side pkt w s' ks) (hpkt : pkt.address ≠ 0) :
    SentOnce s side pkt w s' ks where
  some := .inl h
  notBoth₁₂ := fun ⟨_, hc⟩ => h.takes.ne hpkt (hc.mc side)
  notBoth₁₃ := fun ⟨_, ha⟩ => h.takes.ne hpkt (ha.mc side)
  notBoth₂₃ := fun ⟨hc, ha⟩ => Bool.noConfusion (hc.isWrite.symm.trans ha.isRead)

theorem Coalesced.sentOnce (h : Coalesced s side pkt w s' ks) (hpkt : pkt.address ≠ 0) :
    SentOnce s side pkt w s' ks where
  some := .inr (.inl h)
  notBoth₁₂ := fun ⟨hs, _⟩ => hs.takes.ne hpkt (h.mc side)
  notBoth₁₃ := fun ⟨hs, _⟩ => hs.takes.ne hpkt (h.mc side)
  notBoth₂₃ := fun ⟨_, ha⟩ => Bool.noConfusion (h.isWrite.symm.trans ha.isRead)

theorem Answered.sentOnce (h : Answered s side pkt w s' ks) (hpkt : pkt.address ≠ 0) :
    SentOnce s side pkt w s' ks where
  some := .inr (.inr h)
  notBoth₁₂ := fun ⟨hs, _⟩ => hs.takes.ne hpkt (h.mc side)
  notBoth₁₃ := fun ⟨hs, _⟩ => hs.takes.ne hpkt (h.mc side)
  notBoth₂₃ := fun ⟨hc, _⟩ => Bool.noConfusion (hc.isWrite.symm.trans h.isRead)

/-- The controllers as they were, and nobody called. -/
def Refused (s s' : Sys) (ks : List Call) : Prop := (∀ x, s'.mc x = s.mc x) ∧ ks = []

/-- What `trySend`'s return value promises. -/
def Promise (s : Sys) (side : Side) (pkt : Packet) (w : Bool) (r : Sys × Bool × List Call) :
    Prop :=
  if r.2.1 then SentOnce s side pkt w r.1 r.2.2 else Refused s r.1 r.2.2

theorem sendWrite_promise (h : s.Sound) (hwarm : numCpus ≤ s.allWarmupComplete)
    (hpkt : pkt.address ≠ 0) (hroom : (s.mc side).wq.occupancy < (s.mc side).wq.size) :
    Promise s side pkt true (s.sendWrite side (s.stamp pkt)) := by
  have hpre : ¬ s.allWarmupComplete < numCpus := not_lt.mpr hwarm
  cases hq : (s.mc side).wq.checkDramQueue (s.stamp pkt) with
  | some i =>
      have hadd : (s.mc side).addWq (s.stamp pkt) = (s.mc side, .merged i) := by
        simp only [MemoryController.addWq, hq]
      simp only [Promise, sendWrite, controllerAddWq, if_neg hpre, hadd, if_true]
      refine Coalesced.sentOnce ⟨rfl, MemoryController.holds_of_check (k := .wq) hq, fun x => ?_,
        rfl⟩ hpkt
      rw [onDcm_mc, setMc_same]
  | none =>
      obtain ⟨mc', hadd, htakes⟩ := (h side).addWq_takes hroom hq
      simp only [Promise, sendWrite, controllerAddWq, if_neg hpre, hadd, if_true]
      refine Stored.sentOnce ⟨?_, fun x hx => ?_, rfl⟩ hpkt
      · rw [onDcm_mc, setMc_mc_self]
        exact htakes
      · rw [onDcm_mc, setMc_mc_ne s hx]

theorem sendRead_promise (h : s.Sound) (hwarm : numCpus ≤ s.allWarmupComplete)
    (hpkt : pkt.address ≠ 0) (hroom : (s.mc side).rq.occupancy < (s.mc side).rq.size) :
    Promise s side pkt false (s.sendRead side (s.stamp pkt)) := by
  have hpre : ¬ s.allWarmupComplete < numCpus := not_lt.mpr hwarm
  cases hwq : (s.mc side).wq.checkDramQueue (s.stamp pkt) with
  | some i =>
      have hadd : (s.mc side).addRq (s.stamp pkt) = (s.mc side, .forwarded i) := by
        simp only [MemoryController.addRq, hwq]
      have hneg : ¬ (AddOutcome.forwarded i).returnValue ≥ 0 := by simp [AddOutcome.returnValue]
      simp only [Promise, sendRead, controllerAddRq, if_neg hpre, hadd, if_neg hneg, if_true]
      refine Answered.sentOnce ⟨rfl, MemoryController.holds_of_check (k := .wq) hwq, fun x => ?_,
        rfl⟩ hpkt
      rw [onDcm_mc, setMc_same]
  | none =>
      cases hrq : (s.mc side).rq.checkDramQueue (s.stamp pkt) with
      | some i =>
          have hadd : (s.mc side).addRq (s.stamp pkt) = (s.mc side, .merged i) := by
            simp only [MemoryController.addRq, hwq, hrq]
          have hpos : (AddOutcome.merged i).returnValue ≥ 0 := by simp [AddOutcome.returnValue]
          simp only [Promise, sendRead, controllerAddRq, if_neg hpre, hadd, if_pos hpos]
          refine ⟨fun x => ?_, rfl⟩
          rw [onDcm_mc, onDcm_mc, setMc_same]
      | none =>
          obtain ⟨mc', hadd, htakes⟩ := (h side).addRq_takes hroom hwq hrq
          have hneg : ¬ AddOutcome.inserted.returnValue ≥ 0 := by simp [AddOutcome.returnValue]
          simp only [Promise, sendRead, controllerAddRq, if_neg hpre, hadd, if_neg hneg, if_true]
          refine Stored.sentOnce ⟨?_, fun x hx => ?_, rfl⟩ hpkt
          · rw [onDcm_mc, setMc_mc_self]
            exact htakes
          · rw [onDcm_mc, setMc_mc_ne s hx]

theorem trySend_promise (h : s.Sound) (hwarm : numCpus ≤ s.allWarmupComplete)
    (hpkt : pkt.address ≠ 0) : Promise s side pkt w (s.trySend side pkt w) := by
  unfold trySend
  split
  · exact ⟨fun _ => rfl, rfl⟩
  · rename_i hroom
    have hroom := noRoom_eq_false (Bool.eq_false_iff.mpr hroom)
    cases w with
    | true => exact sendWrite_promise h hwarm hpkt hroom
    | false => exact sendRead_promise h hwarm hpkt hroom

/-! ## Before the end of warm-up -/

/-- Only the calls that offer packets send any. -/
theorem CallStep.sends_eq {c : Call} (h : CallStep s c s' ks) (hc : c.offers = false) :
    s'.dcm.sends = s.dcm.sends := by
  cases h with
  | core _ ht => exact ht.sends
  | drive | fill | kept | drained => cases hc
  | released side => cases side <;> cases hc
  | popped _ _ _ _ _ hsends => exact hsends
  | served _ hdcm => rw [hdcm]
  | finished hdcm => rw [hdcm]
  | readDone hdcm => rw [hdcm]

/-- Warm-up operations send nothing. -/
theorem enter_sends_eq (hpre : s.allWarmupComplete < numCpus) (op : Op) :
    (s.enter op).1.dcm.sends = s.dcm.sends := by
  cases op with
  | addRq pkt =>
      simp only [enter, addRq, if_pos hpre]
      split <;> rfl
  | addWq pkt =>
      simp only [enter, addWq, if_pos hpre]
      split <;> rfl
  | _ => rfl

/-- Neither controller is offered anything before the end of warm-up. -/
def Unsent (s : Sys) : Prop := numCpus ≤ s.allWarmupComplete ∨ s.dcm.sends = []

theorem Unsent.enter (h : s.Unsent) (op : Op) : (s.enter op).1.Unsent := by
  by_cases hwarm : numCpus ≤ s.allWarmupComplete
  · exact .inl (enter_stays_warm hwarm op)
  · exact .inr ((enter_sends_eq (not_le.mp hwarm) op).trans (h.resolve_left hwarm))

theorem Unsent.exec {c : Call} (h : s.Unsent) (hp : Poised (c :: K) s) (ha : Awake (c :: K) s)
    (he : s.exec c = .ok (s', ks)) : s'.Unsent := by
  rcases h with hwarm | hnil
  · have hw : s'.allWarmupComplete = s.allWarmupComplete := congrArg Prod.snd (exec_env he)
    exact .inl (hw ▸ hwarm)
  · rcases ha with hwarm | hd
    · have hw : s'.allWarmupComplete = s.allWarmupComplete := congrArg Prod.snd (exec_env he)
      exact .inl (hw ▸ hwarm)
    · refine .inr ?_
      by_cases hc : c.offers = true
      · rw [(hd.offers_nothing hc he).1, hnil]
      · rw [(hp.callStep (.inr hd) he).sends_eq (Bool.eq_false_iff.mpr hc), hnil]

end Sys

open Sys (Poised Awake Unsent Promise)

section Boot

variable {allow : Op → Prop} {ok : Worklist.Config Sys Call → Prop} {clk : Clock}
  {frontend backend : Nat} {x : Worklist.Config Sys Call}

theorem unsent_of_boot {near far : MemoryController} (hnear : near.Ok) (hfar : far.Ok)
    (h : ReachesIf machine allow ok (.boot near far clk frontend backend) x) : x.2.Unsent := by
  refine (ReachesIf.invariant
    (P := fun x => (Poised x.1 x.2 ∧ Awake x.1 x.2) ∧ x.2.Unsent) ?_ ?_ ?_ h).2
  · exact ⟨Sys.boot_poised hnear hfar clk frontend backend, .inr rfl⟩
  · rintro op s - - - ⟨⟨hp, ha⟩, hu⟩
    exact ⟨⟨(Sys.enter_openEnter hp.mcOk op).poised hp, ha.enter op⟩, hu.enter op⟩
  · rintro c K s s' ks - - ⟨⟨hp, ha⟩, hu⟩ he
    have hstep := hp.callStep ha he
    exact ⟨⟨hp.step hstep, ha.step hstep he⟩, hu.exec hp ha he⟩

end Boot

/-- **`trySend` is sound.** Wherever a run stands, nothing was offered
before the end of warm-up, and after it the return value tells what became
of any packet. -/
theorem trySend_sound {tRP tRCD tCAS dbus tRP' tRCD' tCAS' dbus' : Nat} {clk : Clock}
    {frontend backend : Nat} {x : Worklist.Config Sys Call}
    (h : Reaches machine (fun _ => True)
      (.boot (.new tRP tRCD tCAS dbus) (.new tRP' tRCD' tCAS' dbus') clk frontend backend) x) :
    (x.2.allWarmupComplete < numCpus → x.2.dcm.sends = []) ∧
      (numCpus ≤ x.2.allWarmupComplete → ∀ (side : Side) (pkt : Packet) (w : Bool),
        pkt.address ≠ 0 → x.2.Promise side pkt w (x.2.trySend side pkt w)) := by
  have hbraced := braced_of_boot (MemoryController.new_sound tRP tRCD tCAS dbus)
    (MemoryController.new_sound tRP' tRCD' tCAS' dbus') h
  refine ⟨fun hpre => ?_, fun hwarm side pkt w hpkt => Sys.trySend_promise hbraced.sound hwarm hpkt⟩
  exact (unsent_of_boot (MemoryController.new_ok ..) (MemoryController.new_ok ..) h).resolve_left
    (not_le.mpr hpre)

/-- A write that went round the cache waits in far memory's queue. -/
def writeWaits : List Op := [.finishWarmup, .setBypassDcache true, .addWq (.readOf 5)]

/-- A read of that line is answered. -/
theorem trySend_sound_forwarded :
    ∃ s, Worklist.drive machine 60 writeWaits (.boot (.new 0 0 0 0) (.new 0 0 0 0) .zero 0 0)
        = some s ∧
      (s.trySend .far (.readOf 5) false).2.2
        = [.returnData .far (s.stamp (.readOf 5)), .forwardDone .far] ∧
      s.SentOnce .far (.readOf 5) false (s.trySend .far (.readOf 5) false).1
        (s.trySend .far (.readOf 5) false).2.2 := by
  obtain ⟨s, hs, hlog⟩ := Option.map_eq_some_iff.mp (show (Worklist.drive machine 60 writeWaits
    (.boot (.new 0 0 0 0) (.new 0 0 0 0) .zero 0 0)).map
      (fun s => ((s.trySend .far (.readOf 5) false).2, decide (numCpus ≤ s.allWarmupComplete),
        decide (s.stamp (.readOf 5) = { Packet.readOf 5 with eventCycle := 0 })))
      = some ((true, [.returnData .far { Packet.readOf 5 with eventCycle := 0 },
        .forwardDone .far]), true, true) from by decide +kernel)
  simp only [Prod.mk.injEq, decide_eq_true_eq] at hlog
  obtain ⟨hsend, hwarm, hstamp⟩ := hlog
  have hr : Reaches machine (fun _ => True) (.boot (.new 0 0 0 0) (.new 0 0 0 0) .zero 0 0)
      ([], s) := Worklist.drive_reaches (fun _ _ => trivial) .refl hs
  have hp := (trySend_sound hr).2 hwarm .far (.readOf 5) false (by decide)
  rw [Promise, if_pos (congrArg Prod.fst hsend)] at hp
  exact ⟨s, hs, hstamp ▸ congrArg Prod.snd hsend, hp⟩

/-- A read with neither flag is taken as well, but nobody is called. -/
theorem trySend_answers_nobody :
    ∃ s, Reaches machine (fun _ => True) (.boot (.new 0 0 0 0) (.new 0 0 0 0) .zero 0 0) ([], s) ∧
      (s.trySend .far { Packet.readOf 5 with isData := false } false).2
        = (true, [.forwardDone .far]) ∧
      ¬ s.Stored .far { Packet.readOf 5 with isData := false } false
        (s.trySend .far { Packet.readOf 5 with isData := false } false).1
        (s.trySend .far { Packet.readOf 5 with isData := false } false).2.2 ∧
      ¬ s.Coalesced .far { Packet.readOf 5 with isData := false } false
        (s.trySend .far { Packet.readOf 5 with isData := false } false).1
        (s.trySend .far { Packet.readOf 5 with isData := false } false).2.2 := by
  obtain ⟨s, hs, hsend⟩ := Option.map_eq_some_iff.mp (show (Worklist.drive machine 60 writeWaits
    (.boot (.new 0 0 0 0) (.new 0 0 0 0) .zero 0 0)).map
      (fun s => (s.trySend .far { Packet.readOf 5 with isData := false } false).2)
      = some (true, [.forwardDone .far]) from by decide +kernel)
  refine ⟨s, Worklist.drive_reaches (fun _ _ => trivial) .refl hs, hsend, fun h => ?_, fun h => ?_⟩
  · exact absurd (hsend ▸ h.calls) (by simp)
  · cases h.isWrite

end DramCache
