import Mathlib.Algebra.BigOperators.Group.List.Basic
import DramCache.DispatchOrder
import DramCache.Pairing
import DramCache.TrySend

/-!
# Reads as packets

`Pairing` counts the reads of a line; here a read is its packet, without
the cycle it is stamped with, and the mode does not matter. `onWay` are the
reads of a side that are pending or queued, `returning` those that are being
called back. A call moves reads from one to the other and adds what it
hands over (`CallStep.onWay`), whether they are the ORB's or went round the
cache.
-/

namespace DramCache

/-! ## Reads in the log and in the queues -/

/-- The reads among packets. -/
def readsIn (l : List (Packet × Bool)) : Multiset Packet :=
  ↑((l.filter fun p => !p.2).map Prod.fst)

@[simp] theorem readsIn_nil : readsIn [] = 0 := rfl

@[simp] theorem readsIn_append (l₁ l₂ : List (Packet × Bool)) :
    readsIn (l₁ ++ l₂) = readsIn l₁ + readsIn l₂ := by simp [readsIn]

@[simp] theorem readsIn_cons (p : Packet × Bool) (l : List (Packet × Bool)) :
    readsIn (p :: l) = (if p.2 then 0 else {p.1}) + readsIn l := by
  cases hp : p.2 <;> simp [readsIn, hp, Multiset.singleton_add]

theorem mem_readsIn {l : List (Packet × Bool)} {p : Packet} :
    p ∈ readsIn l ↔ (p, false) ∈ l := by simp [readsIn]

/-- The reads handed over for a side. -/
def handedReads (side : Side) (log : List Event) : Multiset Packet :=
  readsIn (handedAs Packet.payload side log)

/-- The reads a side's controller has taken. -/
def takenReads (side : Side) (sends : List Send) : Multiset Packet :=
  readsIn (takenAs Packet.payload side sends)

/-- A read of a side that is being called back. -/
def Call.returns (side : Side) : Call → Multiset Packet
  | .returnData sd pkt => if sd = side then {pkt.payload} else 0
  | _ => 0

def returning (side : Side) (K : List Call) : Multiset Packet := (K.map (Call.returns side)).sum

@[simp] theorem returning_nil (side : Side) : returning side [] = 0 := rfl

@[simp] theorem returning_cons (side : Side) (c : Call) (K : List Call) :
    returning side (c :: K) = c.returns side + returning side K := by simp [returning]

@[simp] theorem returning_append (side : Side) (K L : List Call) :
    returning side (K ++ L) = returning side K + returning side L := by simp [returning]

theorem returning_eq_zero {side : Side} {K : List Call}
    (h : ∀ k ∈ K, k.returns side = 0) : returning side K = 0 :=
  List.sum_eq_zero fun x hx => by
    obtain ⟨k, hk, rfl⟩ := List.mem_map.mp hx
    exact h k hk

theorem Call.returns_of_not_bystander {c : Call} (h : c.bystander = false) (side : Side) :
    c.returns side = 0 := by
  cases c <;> first | rfl | cases h

/-- One callback for each read. -/
theorem returning_callbacks {p : Packet} (h : p.SingleFlag) (side x : Side) :
    returning x (Sys.callbacks side p) = if side = x then {p.payload} else 0 := by
  unfold Packet.SingleFlag at h
  unfold Sys.callbacks
  cases hi : p.instruction <;> cases hd : p.isData <;> simp_all [Call.returns]

theorem FrontEnter.returning {m m' : Manager} {op : Op} {ks : List Call}
    (h : FrontEnter m op m' ks) (x : Side) : DramCache.returning x ks = 0 := by
  cases h <;> rfl

namespace MemoryController

variable {mc mc' : MemoryController} {i : Nat} {p : Packet}

/-- What stands in the slots of the read queue. -/
def rqPayloads (mc : MemoryController) : List Packet := mc.rq.entry.map fun sl => sl.pkt.payload

theorem rqPayloads_get (hi : i < mc.rq.entry.length) :
    mc.rqPayloads[i]? = some (mc.content (.rq, i)) := by
  rw [rqPayloads, List.getElem?_map, List.getElem?_eq_getElem hi]
  show _ = some ((mc.rq.entry[i]?).getD Slot.empty).pkt.payload
  rw [List.getElem?_eq_getElem hi]
  rfl

theorem rqPayloads_of_content (hlen : mc'.rq.entry.length = mc.rq.entry.length)
    (hcontent : ∀ i, mc'.content (.rq, i) = mc.content (.rq, i)) :
    mc'.rqPayloads = mc.rqPayloads := by
  refine List.ext_getElem? fun i => ?_
  by_cases hi : i < mc.rq.entry.length
  · rw [rqPayloads_get hi, rqPayloads_get (hlen ▸ hi), hcontent]
  · rw [List.getElem?_eq_none (by simpa [rqPayloads, hlen] using hi),
      List.getElem?_eq_none (by simpa [rqPayloads] using hi)]

theorem rqPayloads_of_update (hlen : mc'.rq.entry.length = mc.rq.entry.length)
    (hcontent : mc'.content = Function.update mc.content (.rq, i) p) :
    mc'.rqPayloads = mc.rqPayloads.set i p := by
  refine List.ext_getElem? fun j => ?_
  by_cases hj : j < mc.rq.entry.length
  · rw [rqPayloads_get (hlen ▸ hj), hcontent, List.getElem?_set]
    by_cases hji : i = j
    · subst hji
      rw [Function.update_self, if_pos rfl, if_pos (by simpa [rqPayloads] using hj)]
    · rw [Function.update_of_ne (fun heq => hji (Prod.mk.inj heq).2.symm), if_neg hji,
        rqPayloads_get hj]
  · rw [List.getElem?_eq_none (by simpa [rqPayloads, hlen] using hj),
      List.getElem?_eq_none (by simpa [rqPayloads] using hj)]

theorem SetsSlot.rqPayloads {sl : Slot} (h : SetsSlot mc mc' .rq i sl) :
    mc'.rqPayloads = mc.rqPayloads.set i sl.pkt.payload := by
  have hit : mc'.rq.entry = mc.rq.entry.set i sl := h.hit
  rw [MemoryController.rqPayloads, hit, List.map_set]
  rfl

/-- A write takes no slot of the read queue. -/
theorem addWq_rq (mc : MemoryController) (pkt : Packet) : (mc.addWq pkt).1.rq = mc.rq := by
  unfold addWq
  split <;> rfl

end MemoryController

namespace Sys

/-- The slots of a side's read queue as a hook leaves them. -/
def rqLeft (h : Option Call) (s : Sys) (side : Side) : List Packet :=
  match h with
  | some (.processReadDone sd i _) =>
      if sd = side then (s.mc side).rqPayloads.set i Slot.empty.pkt.payload
      else (s.mc side).rqPayloads
  | _ => (s.mc side).rqPayloads

/-- The reads in a side's read queue. -/
def queuedReads (h : Option Call) (s : Sys) (side : Side) : Multiset Packet :=
  Multiset.filter (fun p => p.address ≠ 0) ↑(s.rqLeft h side)

/-- The reads pending for a side. -/
def pendingReads (h : Option Call) (s : Sys) (side : Side) : Multiset Packet :=
  readsIn (packed Packet.payload (s.live h side))

/-- The reads of a side on their way, pending or queued. -/
def onWay (h : Option Call) (s : Sys) (side : Side) : Multiset Packet :=
  s.pendingReads h side + s.queuedReads h side

variable {h h' : Option Call} {s s' : Sys} {c : Call} {K ks : List Call} {op : Op}

theorem rqLeft_congr {x : Side} (hmc : (s'.mc x).rqPayloads = (s.mc x).rqPayloads) :
    s'.rqLeft h x = s.rqLeft h x := by
  unfold rqLeft
  split <;> rw [hmc]

theorem queuedReads_congr {x : Side} (hmc : (s'.mc x).rqPayloads = (s.mc x).rqPayloads) :
    s'.queuedReads h x = s.queuedReads h x := by
  rw [queuedReads, rqLeft_congr hmc, queuedReads]

theorem rqLeft_none (x : Side) : s.rqLeft none x = (s.mc x).rqPayloads := rfl

theorem rqLeft_readDone (sd x : Side) (i b : Nat) :
    s.rqLeft (some (.processReadDone sd i b)) x = if sd = x
      then (s.mc x).rqPayloads.set i Slot.empty.pkt.payload else (s.mc x).rqPayloads := rfl

theorem rqLeft_pop (side x : Side) : s.rqLeft (some side.pop) x = (s.mc x).rqPayloads := by
  cases side <;> rfl

/-- A new controller holds no read. -/
theorem queuedReads_new {x : Side} {tRP tRCD tCAS dbus : Nat}
    (hmc : s.mc x = .new tRP tRCD tCAS dbus) : s.queuedReads none x = 0 := by
  have hslots : s.rqLeft none x = List.replicate dramRqSize Slot.empty.pkt.payload := by
    rw [rqLeft_none, hmc]
    exact List.map_replicate
  rw [queuedReads, hslots, Multiset.filter_eq_nil]
  intro p hp
  rw [List.eq_of_mem_replicate hp]
  exact not_not.mpr rfl

/-! ### What is handed over is taken or pends -/

theorem handsOver_reads {x : Side} (hh : HandsOverAs Packet.payload h h' s s' x) :
    takenReads x s'.dcm.sends + s'.pendingReads h' x + handedReads x s.dcm.log
      = takenReads x s.dcm.sends + s.pendingReads h x + handedReads x s'.dcm.log := by
  have hin : ∀ (h : Option Call) (s : Sys), takenReads x s.dcm.sends + s.pendingReads h x
      = readsIn (s.inboundAs Packet.payload h x) := fun h s => by
    rw [takenReads, pendingReads, inboundAs, readsIn_append]
  rw [hin, hin, handedReads, handedReads]
  rcases hh with ⟨hlog, hsame⟩ | ⟨p, hlog, l₁, l₂, hold, hnew, -⟩
  · rw [hlog, hsame]
  · rw [hlog, hold, hnew]
    simp only [readsIn_append, readsIn_cons, readsIn_nil]
    abel

/-! ### What is taken is queued or returns -/

/-- Reads are taken into a queue or called back at once. -/
def Carried (h h' : Option Call) (s s' : Sys) (ks : List Call) : Prop :=
  ∀ x, s'.queuedReads h' x + returning x ks + takenReads x s.dcm.sends
    = s.queuedReads h x + takenReads x s'.dcm.sends

theorem Carried.still (hmc : ∀ x, s'.mc x = s.mc x)
    (hsends : ∀ x, takenReads x s'.dcm.sends = takenReads x s.dcm.sends)
    (hks : ∀ x, returning x ks = 0) : Carried h h s s' ks := fun x => by
  rw [hks, hsends, queuedReads_congr (congrArg _ (hmc x)), Multiset.add_zero]

/-- What the controllers hold and were offered is all that matters. -/
theorem Carried.congr {s₁ s₁' : Sys} (hc : Carried h h' s₁ s₁' ks)
    (hmc : ∀ x, s₁.mc x = s.mc x) (hsends : s₁.dcm.sends = s.dcm.sends)
    (hmc' : ∀ x, s'.mc x = s₁'.mc x) (hsends' : s'.dcm.sends = s₁'.dcm.sends) :
    Carried h h' s s' ks := fun x => by
  have hx := hc x
  rw [queuedReads_congr (congrArg _ (hmc x)), hsends] at hx
  rw [queuedReads_congr (congrArg _ (hmc' x)), hsends', hx]

/-- A read takes a free slot, which is not the hook's. -/
theorem queuedReads_fill {side : Side} (pkt : Packet) (hok : (s.mc side).Ok)
    (htakes : MemoryController.Takes (s.mc side) .rq pkt (s'.mc side)) (hpkt : pkt.address ≠ 0)
    (hheld : ∀ i b, h = some (.processReadDone side i b) →
      ((s.mc side).rq.slotAt i).pkt.address ≠ 0) :
    s'.queuedReads h side = pkt.payload ::ₘ s.queuedReads h side := by
  obtain ⟨j, hj, h0, hset⟩ := htakes.slot
  have hfree : (s.mc side).rqPayloads[j]? = some ((s.mc side).content (.rq, j)) :=
    MemoryController.rqPayloads_get hj
  have hempty : ¬ ((s.mc side).content (.rq, j)).address ≠ 0 := not_not.mpr h0
  have hplain : Multiset.filter (fun p => p.address ≠ 0) ↑(s'.mc side).rqPayloads
      = pkt.payload ::ₘ Multiset.filter (fun p => p.address ≠ 0) ↑(s.mc side).rqPayloads := by
    rw [hset.rqPayloads]
    exact Slots.filter_fill hfree hempty hpkt
  unfold queuedReads rqLeft
  split
  · rename_i sd i b
    by_cases hsd : sd = side
    · subst hsd
      have hne : i ≠ j := by
        rintro rfl
        exact hheld i b rfl h0
      rw [if_pos rfl, if_pos rfl, hset.rqPayloads, List.set_comm _ _ hne.symm]
      refine Slots.filter_fill ?_ hempty hpkt
      rw [List.getElem?_set_ne hne, hfree]
    · rw [if_neg hsd, if_neg hsd, hplain]
  · exact hplain

theorem takenReads_concat (x : Side) (l : List Send) (y : Send) :
    takenReads x (l ++ [y]) = takenReads x l
      + if x = y.side ∧ y.accepted = true ∧ y.isWrite = false then {y.pkt.payload} else 0 := by
  by_cases hacc : y.accepted = true
  · rw [takenReads, takenAs_concat _ hacc, readsIn_append, takenReads]
    by_cases hx : x = y.side
    · cases hw : y.isWrite <;> simp [hx, hacc]
    · simp [hx]
  · rw [takenReads, takenAs_refused _ (Bool.eq_false_iff.mpr hacc), takenReads]
    simp [hacc]

section Send

variable {side : Side} {pkt : Packet} {w : Bool} (hs : s.Sound)
  (hwarm : numCpus ≤ s.allWarmupComplete)

include hs hwarm

theorem sendRead_carried (hflag : pkt.SingleFlag)
    (hheld : ∀ sd i b, h = some (.processReadDone sd i b) →
      ((s.mc sd).rq.slotAt i).pkt.address ≠ 0)
    (hroom : (s.mc side).rq.occupancy < (s.mc side).rq.size) :
    Carried h h s (s.sendRead side (s.stamp pkt)).1 (s.sendRead side (s.stamp pkt)).2.2 := by
  have hpre : ¬ s.allWarmupComplete < numCpus := not_lt.mpr hwarm
  cases hwq : (s.mc side).wq.checkDramQueue (s.stamp pkt) with
  | some i =>
      have hadd : (s.mc side).addRq (s.stamp pkt) = (s.mc side, .forwarded i) := by
        simp only [MemoryController.addRq, hwq]
      have hneg : ¬ (AddOutcome.forwarded i).returnValue ≥ 0 := by simp [AddOutcome.returnValue]
      simp only [sendRead, controllerAddRq, if_neg hpre, hadd, if_neg hneg]
      intro x
      rw [queuedReads_congr (s := s) (by rw [onDcm_mc, setMc_same]), onDcm_dcm, setMc_dcm,
        Manager.noteSend, takenReads_concat, returning_append,
        returning_callbacks (p := s.stamp pkt) hflag]
      by_cases hx : x = side
      · subst hx
        simp only [Call.returns, Send.accepted, returning_cons, returning_nil, and_self, if_true,
          Bool.not_false]
        abel
      · simp [hx, Ne.symm hx, Call.returns]
  | none =>
      cases hrq : (s.mc side).rq.checkDramQueue (s.stamp pkt) with
      | some i =>
          have hadd : (s.mc side).addRq (s.stamp pkt) = (s.mc side, .merged i) := by
            simp only [MemoryController.addRq, hwq, hrq]
          have hpos : (AddOutcome.merged i).returnValue ≥ 0 := by simp [AddOutcome.returnValue]
          simp only [sendRead, controllerAddRq, if_neg hpre, hadd, if_pos hpos]
          refine .still (fun x => ?_) (fun x => ?_) fun _ => rfl
          · rw [onDcm_mc, onDcm_mc, setMc_same]
          · rw [onDcm_dcm, onDcm_dcm, setMc_dcm]
            simp [Manager.count, Manager.noteSend, takenReads_concat, Send.accepted]
      | none =>
          obtain ⟨mc', hadd, htakes⟩ := (hs side).addRq_takes hroom hwq hrq
          have hneg : ¬ AddOutcome.inserted.returnValue ≥ 0 := by simp [AddOutcome.returnValue]
          have hpkt : pkt.address ≠ 0 :=
            MemoryController.address_ne_zero_of_room ((hs side).ok.queue .rq).toSane hroom hrq
          simp only [sendRead, controllerAddRq, if_neg hpre, hadd, if_neg hneg]
          intro x
          rw [onDcm_dcm, setMc_dcm, Manager.noteSend, takenReads_concat, returning_nil]
          by_cases hx : x = side
          · subst hx
            rw [queuedReads_fill (s := s) (s.stamp pkt) (hs x).ok
              (by rwa [onDcm_mc, setMc_mc_self]) hpkt (hheld x)]
            simp only [Send.accepted, and_self, if_true, ← Multiset.singleton_add]
            abel
          · rw [queuedReads_congr (s := s) (by rw [onDcm_mc, setMc_mc_ne s hx])]
            simp [hx]

theorem trySend_carried (hflag : w = false → pkt.SingleFlag)
    (hheld : ∀ sd i b, h = some (.processReadDone sd i b) →
      ((s.mc sd).rq.slotAt i).pkt.address ≠ 0) :
    Carried h h s (s.trySend side pkt w).1 (s.trySend side pkt w).2.2 := by
  have hpre : ¬ s.allWarmupComplete < numCpus := not_lt.mpr hwarm
  unfold trySend
  split
  · exact .still (fun _ => rfl) (fun _ => rfl) fun _ => rfl
  · rename_i hroom
    have hroom := noRoom_eq_false (Bool.eq_false_iff.mpr hroom)
    cases w with
    | false => exact sendRead_carried hs hwarm (hflag rfl) hheld hroom
    | true =>
        intro x
        simp only [sendWrite, controllerAddWq, if_neg hpre]
        rw [onDcm_dcm, setMc_dcm, Manager.noteSend, takenReads_concat,
          queuedReads_congr (s := s)]
        · simp
        · rw [onDcm_mc]
          by_cases hx : x = side
          · subst hx
            rw [setMc_mc_self, MemoryController.rqPayloads, MemoryController.addWq_rq,
              MemoryController.rqPayloads]
          · rw [setMc_mc_ne s hx]

end Send

/-- At most one packet is offered to a controller; a read asks for one
port. -/
inductive Offers (s : Sys) (s' : Sys) (ks : List Call) : Prop
  | none (hmc : ∀ x, s'.mc x = s.mc x) (hsends : s'.dcm.sends = s.dcm.sends)
      (hks : ∀ x, returning x ks = 0)
  | one {s₁ : Sys} {side : Side} {pkt : Packet} {w : Bool} (hs₁ : SameTraffic s s₁)
      (henv : s₁.allWarmupComplete = s.allWarmupComplete) (hflag : w = false → pkt.SingleFlag)
      (hmc : ∀ x, s'.mc x = (s₁.trySend side pkt w).1.mc x)
      (hsends : s'.dcm.sends = (s₁.trySend side pkt w).1.dcm.sends)
      (hks : ∀ x, returning x ks = returning x (s₁.trySend side pkt w).2.2)

theorem Offers.carried (ho : Offers s s' ks) (hs : s.Sound) (hwarm : numCpus ≤ s.allWarmupComplete)
    (hheld : ∀ sd i b, h = some (.processReadDone sd i b) →
      ((s.mc sd).rq.slotAt i).pkt.address ≠ 0) : Carried h h s s' ks := by
  cases ho with
  | none hmc hsends hks => exact .still hmc (fun x => by rw [hsends]) hks
  | @one s₁ side pkt w hs₁ henv hflag hmc hsends hks =>
      have hc : Carried h h s₁ (s₁.trySend side pkt w).1 (s₁.trySend side pkt w).2.2 :=
        trySend_carried (fun x => hs₁.mc x ▸ hs x) (henv ▸ hwarm) hflag fun sd i b hh => by
          rw [hs₁.mc]
          exact hheld sd i b hh
      have hc' := hc.congr hs₁.mc hs₁.sends hmc hsends
      intro x
      rw [hks]
      exact hc' x

theorem Offers.calls {L : List Call} (ho : Offers s s' ks) (hL : ∀ x, returning x L = 0) :
    Offers s s' (ks ++ L) := by
  cases ho with
  | none hmc hsends hks =>
      exact .none hmc hsends fun x => by rw [returning_append, hks, hL, Multiset.add_zero]
  | one hs₁ henv hflag hmc hsends hks =>
      refine .one hs₁ henv hflag hmc hsends fun x => ?_
      rw [returning_append, hL, Multiset.add_zero, hks]

/-- The manager may be changed before and after, apart from its traffic. -/
theorem Offers.congr {s₀ s₂ : Sys} (ho : Offers s s' ks) (h₀ : SameTraffic s₀ s)
    (henv : s.allWarmupComplete = s₀.allWarmupComplete) (hmc : ∀ x, s₂.mc x = s'.mc x)
    (hsends : s₂.dcm.sends = s'.dcm.sends) : Offers s₀ s₂ ks := by
  cases ho with
  | none hmc' hsends' hks =>
      exact .none (fun x => ((hmc x).trans (hmc' x)).trans (h₀.mc x))
        ((hsends.trans hsends').trans h₀.sends) hks
  | one hs₁ henv' hflag hmc' hsends' hks =>
      exact .one (h₀.trans hs₁) (henv'.trans henv) hflag (fun x => (hmc x).trans (hmc' x))
        (hsends.trans hsends') hks

/-- A refused packet calls nobody back. -/
theorem trySend_refused_calls {side : Side} {pkt : Packet} {w : Bool}
    (hr : (s.trySend side pkt w).2.1 = false) : (s.trySend side pkt w).2.2 = [] := by
  unfold trySend at hr ⊢
  split
  · rfl
  · rename_i hroom
    rw [if_neg hroom] at hr
    cases w with
    | true => cases hr
    | false =>
        dsimp only [sendRead] at hr ⊢
        split
        · rfl
        · rename_i hneg
          rw [if_neg hneg] at hr
          cases hr

theorem trySend_offers (side : Side) {pkt : Packet} {w : Bool}
    (hflag : w = false → pkt.SingleFlag) :
    Offers s (s.trySend side pkt w).1 (s.trySend side pkt w).2.2 :=
  .one ⟨fun _ => rfl, fun _ => rfl, rfl, rfl⟩ rfl hflag (fun _ => rfl) rfl fun _ => rfl

section Dispatch

variable {pkt : Packet} {w : Bool} (hflag : w = false → pkt.SingleFlag)

include hflag

theorem dispatchToNear_offers :
    Offers s (s.dispatchToNear pkt w).1 (s.dispatchToNear pkt w).2 := by
  have ho := trySend_offers (s := s) .near hflag
  have hcalls : (s.trySend .near pkt w).2.1 = false → (s.trySend .near pkt w).2.2 = [] :=
    trySend_refused_calls
  have hself : SameTraffic s s := ⟨fun _ => rfl, fun _ => rfl, rfl, rfl⟩
  unfold dispatchToNear
  split
  · generalize s.trySend .near pkt w = r at ho hcalls
    obtain ⟨s₁, ok, ks⟩ := r
    cases ok with
    | true => exact ho
    | false =>
        obtain rfl : ks = [] := hcalls rfl
        exact ho.congr hself rfl (fun x => onDcm_mc ..) rfl
  · exact .none (fun x => onDcm_mc ..) rfl fun _ => rfl

theorem dispatchToFar_offers :
    Offers s (s.dispatchToFar pkt w).1 (s.dispatchToFar pkt w).2.2 := by
  unfold dispatchToFar
  split
  · exact trySend_offers .far hflag
  · exact .none (fun x => onDcm_mc ..) rfl fun _ => rfl

theorem dispatchToFarGuaranteed_offers :
    Offers s (s.dispatchToFarGuaranteed pkt w).1 (s.dispatchToFarGuaranteed pkt w).2 := by
  have ho := dispatchToFar_offers (s := s) hflag
  have hself : SameTraffic s s := ⟨fun _ => rfl, fun _ => rfl, rfl, rfl⟩
  have hcalls : (s.dispatchToFar pkt w).2.1 = false → (s.dispatchToFar pkt w).2.2 = [] := by
    unfold dispatchToFar
    split
    · exact trySend_refused_calls
    · exact fun h => by cases h
  unfold dispatchToFarGuaranteed
  generalize s.dispatchToFar pkt w = r at ho hcalls
  obtain ⟨s₁, ok, ks⟩ := r
  cases ok with
  | true => exact ho
  | false =>
      obtain rfl : ks = [] := hcalls rfl
      exact ho.congr hself rfl (fun x => onDcm_mc ..) rfl

end Dispatch

theorem driveState_offers {a : Nat}
    (hfl : ∀ e, s.dcm.orb.lookup a = some e → e.pkt.SingleFlag) :
    Offers s (s.driveState a).1 (s.driveState a).2 := by
  unfold driveState
  split
  · exact .none (fun _ => rfl) rfl fun _ => rfl
  · rename_i e hl
    have hnear : SameTraffic s (s.onDcm (·.readNear e (s.now e.pkt.cpu))) :=
      .of_calm (.of_fields rfl rfl rfl)
    have hfar : SameTraffic s (s.onDcm (·.readFar e (s.now e.pkt.cpu))) :=
      .of_calm (.of_fields rfl rfl rfl)
    have hwrite : SameTraffic s (s.onDcm (·.writeNear e (s.now e.pkt.cpu))) :=
      .of_calm (.of_fields rfl rfl rfl)
    have hflag : false = false →
        (Manager.subRequest e .load (s.now e.pkt.cpu)).SingleFlag := fun _ => hfl e hl
    dsimp only
    split
    · exact (dispatchToNear_offers hflag).congr hnear rfl (fun _ => rfl) rfl
    · exact (dispatchToFarGuaranteed_offers hflag).congr hfar rfl (fun _ => rfl) rfl
    · exact ((dispatchToNear_offers fun hw => by cases hw).congr hwrite rfl (fun _ => rfl)
        rfl).calls fun _ => rfl
    · exact .none (fun _ => rfl) rfl fun _ => rfl

theorem backgroundFill_offers (rid i : Nat) (pkt : Packet) :
    Offers s (s.backgroundFill rid i pkt).1 (s.backgroundFill rid i pkt).2 :=
  (dispatchToNear_offers fun hw => by cases hw).congr
    (.of_calm (f := (·.fillNear rid i pkt)) (.of_fields rfl rfl rfl)) rfl (fun _ => rfl) rfl

theorem drainWB_offers : Offers s s.drainWB [] := by
  have hself : SameTraffic s s := ⟨fun _ => rfl, fun _ => rfl, rfl, rfl⟩
  unfold drainWB
  split
  · exact .none (fun _ => rfl) rfl fun _ => rfl
  · rename_i front _ _
    have ho : Offers s (s.dispatchToFar front.pkt true).1 (s.dispatchToFar front.pkt true).2.2 :=
      dispatchToFar_offers fun hw => by cases hw
    have hcalls : (s.dispatchToFar front.pkt true).2.2 = [] := by
      unfold dispatchToFar
      split
      · exact trySend_write_calls ..
      · rfl
    rw [hcalls] at ho
    generalize s.dispatchToFar front.pkt true = r at ho
    obtain ⟨s₁, ok, ks⟩ := r
    cases ok with
    | false => exact ho.congr hself rfl (fun _ => onDcm_mc ..) rfl
    | true => exact ho.congr hself rfl (fun _ => onDcm_mc ..) rfl

theorem processPendingFar_offers
    (hfl : ∀ p, (p, false) ∈ s.dcm.pending .far → p.SingleFlag) :
    Offers s s.processPendingFarDispatches.1 s.processPendingFarDispatches.2 := by
  have hself : SameTraffic s s := ⟨fun _ => rfl, fun _ => rfl, rfl, rfl⟩
  unfold processPendingFarDispatches
  split
  · exact .none (fun _ => rfl) rfl fun _ => rfl
  · rename_i d rest hfront
    split
    · have hflag : d.isWrite = false → d.pkt.SingleFlag := fun hw => hfl _ (by
        rw [Manager.pending, hfront, List.map_cons, hw]
        exact List.mem_cons_self ..)
      have ho := trySend_offers (s := s) .far hflag
      have hcalls : (s.trySend .far d.pkt d.isWrite).2.1 = false →
          (s.trySend .far d.pkt d.isWrite).2.2 = [] := trySend_refused_calls
      generalize s.trySend .far d.pkt d.isWrite = r at ho hcalls
      obtain ⟨s₁, ok, ks⟩ := r
      cases ok with
      | true => exact ho.calls fun _ => rfl
      | false =>
          obtain rfl : ks = [] := hcalls rfl
          exact ho.congr hself rfl (fun _ => onDcm_mc ..) rfl
    · exact .none (fun _ => rfl) rfl fun _ => rfl

theorem processPendingNear_offers
    (hfl : ∀ p, (p, false) ∈ s.dcm.pending .near → p.SingleFlag) :
    Offers s s.processPendingNearDispatches.1 s.processPendingNearDispatches.2 := by
  unfold processPendingNearDispatches
  split
  · exact .none (fun _ => rfl) rfl fun _ => rfl
  · rename_i d rest hfront
    have hflag : d.isWrite = false → d.pkt.SingleFlag := fun hw => hfl _ (by
      rw [Manager.pending, hfront, List.map_cons, hw]
      exact List.mem_cons_self ..)
    have ho := trySend_offers (s := s) .near hflag
    have hcalls : (s.trySend .near d.pkt d.isWrite).2.1 = false →
        (s.trySend .near d.pkt d.isWrite).2.2 = [] := trySend_refused_calls
    generalize s.trySend .near d.pkt d.isWrite = r at ho hcalls
    obtain ⟨s₁, ok, ks⟩ := r
    cases ok with
    | true => exact ho.calls fun _ => rfl
    | false =>
        obtain rfl : ks = [] := hcalls rfl
        exact ho

/-- The reads a call may offer ask for one port. -/
structure AskOne (c : Call) (s : Sys) : Prop where
  orb : ∀ a e, s.dcm.orb.lookup a = some e → e.pkt.SingleFlag
  pending : ∀ side, c = side.process → ∀ p, (p, false) ∈ s.dcm.pending side → p.SingleFlag

theorem exec_offers (hfl : AskOne c s) (hc : c.offers = true) (he : s.exec c = .ok (s', ks)) :
    Offers s s' ks := by
  cases c with
  | driveState a =>
      obtain ⟨rfl, rfl⟩ := ok_pair he
      exact driveState_offers (hfl.orb a)
  | backgroundFill rid i pkt =>
      obtain ⟨rfl, rfl⟩ := ok_pair he
      exact backgroundFill_offers rid i pkt
  | drainWB =>
      obtain ⟨rfl, rfl⟩ := ok_pair he
      exact drainWB_offers
  | processPendingFarDispatches =>
      obtain ⟨rfl, rfl⟩ := ok_pair he
      exact processPendingFar_offers (hfl.pending .far rfl)
  | processPendingNearDispatches =>
      obtain ⟨rfl, rfl⟩ := ok_pair he
      exact processPendingNear_offers (hfl.pending .near rfl)
  | _ => cases hc

/-! ### The controllers' own steps -/

theorem rqPayloads_setMc {side : Side} {mc : MemoryController}
    (hmc : mc.rqPayloads = (s.mc side).rqPayloads) (x : Side) :
    ((s.setMc side mc).mc x).rqPayloads = (s.mc x).rqPayloads := by
  by_cases hx : x = side
  · subst hx
    rw [setMc_mc_self, hmc]
  · rw [setMc_mc_ne s hx]

/-- A cycle keeps the reads in their slots; the one it hands over stands in
its own. -/
theorem operateController_rq {side : Side} (hs : s.Sound)
    (he : s.operateController side = .ok (s', ks)) :
    (∀ x, (s'.mc x).rqPayloads = (s.mc x).rqPayloads) ∧
      (ks = [] ∨ ∃ i b pkt, ks = [.returnData side pkt, .processReadDone side i b] ∧
        (s.mc side).rqPayloads[i]? = some pkt.payload ∧ pkt.address ≠ 0) := by
  obtain ⟨⟨mc, r⟩, ho, -, htr⟩ :=
    MemoryController.operate_books (hs side).inStep (hs side).ok s.clock
  obtain ⟨-, hlines, hused⟩ := MemoryController.operate_spec (hs side).ok ho
  have hlen : mc.rq.entry.length = (s.mc side).rq.entry.length := by
    rw [← PacketQueue.lines_length, hlines, PacketQueue.lines_length]
  have hcontent : ∀ i, mc.content (.rq, i) = (s.mc side).content (.rq, i) := by
    generalize (s.mc side).transfer s.clock = t at htr
    intro i
    cases htr with
    | written hi h => rw [h, Function.update_of_ne (by simp)]
    | handed _ _ h => rw [h]
    | none h => rw [h]
  have hsame := MemoryController.rqPayloads_of_content hlen hcontent
  unfold operateController at he
  rw [ho] at he
  cases r with
  | none =>
      obtain ⟨rfl, rfl⟩ := ok_pair he
      exact ⟨rqPayloads_setMc hsame, .inl rfl⟩
  | some i =>
      obtain ⟨rfl, rfl⟩ := ok_pair he
      have hi : (mc.rq.slotAt i).pkt.address ≠ 0 := hused i rfl
      have hlt : i < mc.rq.entry.length := by
        rw [← PacketQueue.lines_length]
        exact (List.getElem?_eq_some_iff.mp (PacketQueue.slotAt_line hi)).1
      refine ⟨rqPayloads_setMc hsame, .inr ⟨i, _, _, rfl, ?_, hi⟩⟩
      rw [← hsame, MemoryController.rqPayloads_get hlt]
      rfl

theorem processReadDone_rq {side : Side} {i b : Nat} (hs : s.Sound)
    (hi : ((s.mc side).rq.slotAt i).scheduled = true)
    (hb : dramGetBank ((s.mc side).rq.slotAt i).pkt.address = b)
    (he : s.exec (.processReadDone side i b) = .ok (s', ks)) :
    s'.dcm = s.dcm ∧ ks = [] ∧ ∀ x, (s'.mc x).rqPayloads = if x = side
      then (s.mc x).rqPayloads.set i Slot.empty.pkt.payload else (s.mc x).rqPayloads := by
  obtain ⟨mc, hdone, -, hcontent⟩ :=
    MemoryController.processReadDone_books (hs side).inStep (hs side).ok hi hb
  have hlines := (MemoryController.processReadDone_spec (hs side).ok
    ((hs side).ok.rq.toSane.used_of_scheduled hi) hdone).2
  have hlen : mc.rq.entry.length = (s.mc side).rq.entry.length := by
    rw [← PacketQueue.lines_length, hlines, List.length_set, PacketQueue.lines_length]
  dsimp only [exec] at he
  rw [hdone] at he
  obtain ⟨rfl, rfl⟩ := ok_pair he
  refine ⟨setMc_dcm .., rfl, fun x => ?_⟩
  by_cases hx : x = side
  · subst hx
    rw [setMc_mc_self, if_pos rfl]
    exact MemoryController.rqPayloads_of_update hlen hcontent
  · rw [setMc_mc_ne s hx, if_neg hx]

/-! ### One call -/

/-- The hook that a call which offers packets leaves is the old one or a
pop. -/
theorem queuedReads_offers (hp : Poised (c :: K) s) (hstep : CallStep s c s' ks)
    (hc : c.offers = true) (s₁ : Sys) (x : Side) :
    s₁.queuedReads (hook (ks ++ K)) x = s₁.queuedReads (hook (c :: K)) x := by
  have hsame : c.rank ≠ 2 → (∀ k ∈ ks, k.rank = 1) → hook (ks ++ K) = hook (c :: K) :=
    fun hrank hks => hook_replaced hks hrank
  cases hstep with
  | core hc' =>
      cases c <;> first | (cases hc; done) | (cases hc'; done) | skip
      all_goals rename_i hks _ ; rw [hsame (by simp [Call.rank]) fun k hk =>
        Call.rank_of_not_bystander (hks k hk)]
  | drive hd => rw [hsame (by simp [Call.rank]) hd.calls_rank]
  | fill _ hd => rw [hsame (by simp [Call.rank]) (by simp)]
  | kept => rw [hsame (by simp [Call.rank]) (by simp)]
  | drained _ _ hd => rw [hsame (by simp [Call.rank]) (by simp)]
  | @released side _ _ _ hr =>
      have hbefore : hook (side.process :: K) = none :=
        hp.stacked.hook_phase (by simp) (by simp)
      cases hr with
      | kept => rw [List.nil_append, hp.stacked.hook_tail (by simp), hbefore]
      | @sent pkt w _ ks hfront hpend hsent =>
          have hafter : hook (ks ++ [side.pop] ++ K) = some side.pop :=
            hook_pushed hsent.calls_rank side.pop_rank
          rw [hbefore, hafter, queuedReads, rqLeft_pop]
          rfl
  | popped side => cases side <;> cases hc
  | served hc' => obtain ⟨side, rfl | rfl⟩ := hc' <;> cases hc
  | finished => cases hc
  | readDone => cases hc

/-- **What is taken is queued or called back**, whatever call is made. -/
theorem exec_carried (hb : Braced (c :: K) s) (hp : Poised (c :: K) s) (ha : Awake (c :: K) s)
    (hfl : AskOne c s) (he : s.exec c = .ok (s', ks)) :
    Carried (hook (c :: K)) (hook (ks ++ K)) s s' ks := by
  have hstep := hp.callStep ha he
  have hstill : (∀ x, (s'.mc x).rqPayloads = (s.mc x).rqPayloads) → s'.dcm.sends = s.dcm.sends →
      (∀ x, returning x ks = 0) → (∀ s₁ : Sys, ∀ x, s₁.queuedReads (hook (ks ++ K)) x
        = s₁.queuedReads (hook (c :: K)) x) →
      Carried (hook (c :: K)) (hook (ks ++ K)) s s' ks := by
    intro hmc hsends hks hhook x
    rw [hhook, queuedReads_congr (hmc x), hsends, hks, Multiset.add_zero]
  by_cases hc : c.offers = true
  · have hhook := queuedReads_offers hp hstep hc
    rcases ha with hwarm | hd
    · intro x
      rw [hhook]
      exact (exec_offers hfl hc he).carried hb.sound hwarm hp.held x
    · obtain ⟨rfl, rfl⟩ := hd.offers_nothing hc he
      exact hstill (fun _ => rfl) rfl (fun _ => rfl) hhook
  · cases hstep with
    | core hc' ht hks hf =>
        refine hstill (fun x => congrArg _ (ht.mc x)) ht.sends
          (fun x => returning_eq_zero fun k hk => Call.returns_of_not_bystander (hks k hk) x)
          fun s₁ x => ?_
        rw [hook_replaced (fun k hk => Call.rank_of_not_bystander (hks k hk))
          (Call.rank_of_not_dispatches hc')]
    | drive | fill | kept | drained => exact absurd rfl hc
    | released side => cases side <;> exact absurd rfl hc
    | @popped side _ _ hmc _ _ hsends =>
        refine hstill (fun x => congrArg _ (hmc x)) hsends (fun x => by cases side <;> rfl)
          fun s₁ x => ?_
        have hafter : hook ([side.process] ++ K) = none :=
          hp.stacked.hook_phase (by simp) (by simp)
        rw [hafter, hook_cons_self side.pop_rank, queuedReads, queuedReads, rqLeft_pop]
        rfl
    | served hc' hdcm hmc =>
        obtain ⟨side, rfl | rfl⟩ := hc'
        · obtain ⟨rfl, -⟩ := ok_pair he
          refine hstill (rqPayloads_setMc ?_) (by rw [hdcm]) (fun _ => rfl) fun s₁ x => ?_
          · rfl
          · rw [List.nil_append, hook_cons (by simp [Call.rank])]
        · refine hstill (operateController_rq hb.sound he).1 (by rw [hdcm]) (fun _ => rfl)
            fun s₁ x => ?_
          rw [List.nil_append, hook_cons (by simp [Call.rank])]
    | @finished side _ i b pkt hdcm =>
        obtain ⟨hmc, hnil | ⟨i', b', pkt', hks, hget, hpkt⟩⟩ := operateController_rq hb.sound he
        · cases hnil
        · obtain ⟨rfl, rfl, rfl⟩ : pkt = pkt' ∧ i = i' ∧ b = b' := by simpa using hks
          have hbefore : hook (.operateController side :: K) = none :=
            hp.stacked.hook_phase (by simp [Call.rank]) (by simp [Call.rank])
          have hafter : hook ([.returnData side pkt, .processReadDone side i b] ++ K)
              = some (.processReadDone side i b) := rfl
          intro x
          rw [hbefore, hafter, hdcm]
          have hcells : s'.queuedReads (some (.processReadDone side i b)) x
              + returning x [.returnData side pkt, .processReadDone side i b]
              = s.queuedReads none x := by
            rw [queuedReads, queuedReads, rqLeft_readDone, rqLeft_none, hmc x]
            by_cases hx : side = x
            · subst hx
              have hfree := Slots.filter_free (p := fun p : Packet => p.address ≠ 0)
                (a := Slot.empty.pkt.payload) hget hpkt (not_not.mpr rfl)
              rw [if_pos rfl, hfree, ← Multiset.singleton_add]
              simp only [returning_cons, returning_nil, Call.returns, if_true]
              abel
            · rw [if_neg hx]
              simp [Call.returns, hx]
          rw [hcells]
    | @readDone side i b _ _ _ _ hother =>
        obtain ⟨hi, hbank⟩ := hb.held side i b (hook_cons_self rfl)
        obtain ⟨hdcm, -, hmc⟩ := processReadDone_rq hb.sound hi hbank he
        have hafter : hook ([] ++ K) = none := hp.stacked.hook_tail (by simp [Call.rank])
        intro x
        rw [hafter, hook_cons_self (c := .processReadDone side i b) rfl, hdcm, returning_nil,
          Multiset.add_zero, queuedReads, queuedReads, rqLeft_none, rqLeft_readDone, hmc x]
        simp only [eq_comm]

/-- **One call and the reads on their way.** It moves them between the
queues and the callbacks, and adds what it hands over. -/
theorem exec_onWay (hb : Braced (c :: K) s) (hp : Poised (c :: K) s) (ha : Awake (c :: K) s)
    (hfl : AskOne c s) (he : s.exec c = .ok (s', ks)) (x : Side) :
    s'.onWay (hook (ks ++ K)) x + returning x ks + handedReads x s.dcm.log
      = s.onWay (hook (c :: K)) x + handedReads x s'.dcm.log := by
  have hcarried := exec_carried hb hp ha hfl he x
  have hhanded := handsOver_reads
    ((hp.callStep ha he).handedAs (f := Packet.payload) (fun _ => rfl) hp x)
  refine Multiset.ext.mpr fun p => ?_
  have h1 := congrArg (Multiset.count p) hcarried
  have h2 := congrArg (Multiset.count p) hhanded
  simp only [Multiset.count_add, onWay] at h1 h2 ⊢
  omega

/-! ### One operation -/

theorem enter_carried (hs : s.Sound) (hop : op.SingleFlag) :
    Carried none none s (s.enter op).1 (s.enter op).2 := by
  have hstep := enter_openEnter (fun x => (hs x).ok) op
  by_cases hb : ∃ w pkt, op.request? = some (w, pkt) ∧ numCpus ≤ s.allWarmupComplete ∧
      s.dcm.bypassDcache = true
  · obtain ⟨w, pkt, hreq, hwarm, hmode⟩ := hb
    have hst : SameTraffic s (s.onDcm (·.bypass (s.stamp pkt) w)) := by
      cases w <;> exact .of_calm (.of_fields rfl rfl rfl)
    have hflag : w = false → (s.stamp pkt).SingleFlag := by
      rintro rfl
      exact hop pkt hreq
    rw [enter_bypass_eq hwarm hmode hreq]
    exact ((dispatchToFarGuaranteed_offers hflag).congr hst rfl (fun _ => rfl) rfl).carried hs hwarm
      (by simp)
  · generalize s.enter op = r at hstep
    obtain ⟨s', ks⟩ := r
    cases hstep with
    | front h =>
        exact .still h.mc (fun x => by rw [h.calm.2]) h.front.returning
    | aside _ hmc hcalm => exact .still hmc (fun x => by rw [hcalm.2]) fun _ => rfl
    | bypass hreq hwarm hmode => exact absurd ⟨_, _, hreq, hwarm, hmode⟩ hb

/-- An operation and the reads on their way. -/
theorem enter_onWay (hs : s.Sound) (hop : op.SingleFlag) (x : Side) :
    (s.enter op).1.onWay none x + returning x (s.enter op).2 + handedReads x s.dcm.log
      = s.onWay none x + handedReads x (s.enter op).1.dcm.log := by
  have hstep := enter_openEnter (fun x => (hs x).ok) op
  have hcarried := enter_carried hs hop x
  have hhanded := handsOver_reads (hstep.handedAs (f := Packet.payload) (fun _ => rfl) x)
  rw [hstep.hook_eq] at hhanded
  refine Multiset.ext.mpr fun p => ?_
  have h1 := congrArg (Multiset.count p) hcarried
  have h2 := congrArg (Multiset.count p) hhanded
  simp only [Multiset.count_add, onWay] at h1 h2 ⊢
  omega

end Sys

end DramCache
