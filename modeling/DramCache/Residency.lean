import Mathlib.Algebra.BigOperators.Group.Multiset.Basic
import Mathlib.Tactic.Abel
import DramCache.Standalone

/-!
# A packet's stay in a controller

What a slot of a controller has seen: each packet stored in it stands there
unchanged, up to its times, until it leaves as the read that was handed over
or as the write that was transferred, and then the next one may be stored.
Nothing else empties a slot, and a read that was merged or forwarded never
was in one. The main result is `controller_conserves`.
-/

namespace DramCache

/-! ## What is logged of a slot -/

namespace ControllerEvent

/-- What is stored in a slot. -/
def storedAt (x : QueueKind × Nat) : ControllerEvent → Option Packet
  | .stored k i pkt => if (k, i) = x then some pkt.payload else none
  | _ => none

/-- What leaves a slot. -/
def leftAt (x : QueueKind × Nat) : ControllerEvent → Option Packet
  | .freed i pkt => if (.rq, i) = x then some pkt.payload else none
  | .transferred i pkt => if (.wq, i) = x then some pkt.payload else none
  | _ => none

/-- The reads of a slot `process` calls `return_data` for. -/
def returnedAt (i : Nat) : ControllerEvent → Option Packet
  | .returned j pkt => if j = i then some pkt.payload else none
  | _ => none

/-- The calls of `return_data` a forward is to make. -/
def forwards : ControllerEvent → Multiset Packet
  | .forwarded pkt => Multiset.replicate (Standalone.callbackCount pkt) pkt
  | _ => 0

/-- ... and those it has made. -/
def answers : ControllerEvent → Multiset Packet
  | .answered pkt => {pkt}
  | _ => 0

end ControllerEvent

open ControllerEvent

/-- What stands in a slot, if anything. -/
def MemoryController.resident (mc : MemoryController) (x : QueueKind × Nat) : List Packet :=
  if (mc.content x).address = 0 then [] else [mc.content x]

namespace Standalone

/-- The read of a slot that has been handed over and not yet freed. -/
def handed (c : Standalone) (i : Nat) : List Packet :=
  if c.processing.map Prod.fst = some i then [c.mc.content (.rq, i)] else []

/-- The calls of `return_data` the forwards under way have still to make. -/
def due (c : Standalone) : Multiset Packet :=
  (c.answering.map fun x => Multiset.replicate x.2 x.1).sum

/-! ## Slots -/

/-- What has been stored in a slot has left it again, but for what is in it. -/
structure Accounted (c : Standalone) : Prop where
  stored : ∀ x, c.log.filterMap (storedAt x) = c.log.filterMap (leftAt x) ++ c.mc.resident x
  returned : ∀ i,
    c.log.filterMap (returnedAt i) = c.log.filterMap (leftAt (.rq, i)) ++ c.handed i

theorem Sound.processing_used {c : Standalone} (h : c.Sound) {i b : Nat}
    (hp : c.processing = some (i, b)) : (c.mc.content (.rq, i)).address ≠ 0 :=
  h.ok.rq.toSane.used_of_scheduled (h.processing i b hp).1

/-- It is enough to account for what is new. -/
theorem Accounted.of_events {c c' : Standalone} (h : c.Accounted) {evs : List ControllerEvent}
    (hlog : c'.log = c.log ++ evs)
    (hstored : ∀ x, c.mc.resident x ++ evs.filterMap (storedAt x)
      = evs.filterMap (leftAt x) ++ c'.mc.resident x)
    (hreturned : ∀ i, c.handed i ++ evs.filterMap (returnedAt i)
      = evs.filterMap (leftAt (.rq, i)) ++ c'.handed i) : c'.Accounted where
  stored x := by
    rw [hlog, List.filterMap_append, List.filterMap_append, h.stored, List.append_assoc, hstored,
      List.append_assoc]
  returned i := by
    rw [hlog, List.filterMap_append, List.filterMap_append, h.returned, List.append_assoc,
      hreturned, List.append_assoc]

theorem handed_none {c : Standalone} (hp : c.processing = none) (i : Nat) : c.handed i = [] := by
  simp [handed, hp]

theorem handed_some {c : Standalone} {i b : Nat} (hp : c.processing = some (i, b)) (j : Nat) :
    c.handed j = if i = j then [c.mc.content (.rq, j)] else [] := by
  simp [handed, hp]

/-- Another slot changes. -/
theorem handed_congr {c c' : Standalone} (hp : c'.processing = c.processing)
    (hcontent : ∀ i b, c.processing = some (i, b) →
      c'.mc.content (.rq, i) = c.mc.content (.rq, i)) (i : Nat) : c'.handed i = c.handed i := by
  cases hc : c.processing with
  | none => rw [handed_none (hp.trans hc), handed_none hc]
  | some jb =>
      obtain ⟨j, b⟩ := jb
      rw [handed_some (hp.trans hc), handed_some hc]
      split
      · rename_i hj
        rw [← hj, hcontent j b hc]
      · rfl

theorem resident_update {mc mc' : MemoryController} {x : QueueKind × Nat} {p : Packet}
    (h : mc'.content = Function.update mc.content x p) (y : QueueKind × Nat) :
    mc'.resident y = if x = y then (if p.address = 0 then [] else [p]) else mc.resident y := by
  rw [MemoryController.resident, h]
  by_cases hxy : x = y
  · subst hxy
    rw [Function.update_self, if_pos rfl]
  · rw [Function.update_of_ne (Ne.symm hxy), if_neg hxy, MemoryController.resident]

theorem Accounted.step {c c' : Standalone} (h : c.Accounted) (hs : c.Sound)
    {evs : List ControllerEvent} (hlog : c'.log = c.log ++ evs) (heff : Effect c c' evs) :
    c'.Accounted := by
  cases heff with
  | aside hcontent hp hevs =>
      have hnone : ∀ f : ControllerEvent → Option Packet, (∀ k pkt, f (.merged k pkt) = none) →
          (∀ pkt, f (.forwarded pkt) = none) → (∀ pkt, f (.answered pkt) = none) →
          evs.filterMap f = [] := by
        intro f hm hf ha
        refine List.filterMap_eq_nil_iff.mpr fun ev hev => ?_
        obtain ⟨k, pkt, rfl⟩ | ⟨pkt, rfl⟩ | ⟨pkt, rfl⟩ := hevs ev hev
        · exact hm k pkt
        · exact hf pkt
        · exact ha pkt
      refine h.of_events hlog (fun x => ?_) fun i => ?_
      · rw [hnone _ (fun _ _ => rfl) (fun _ => rfl) (fun _ => rfl),
          hnone _ (fun _ _ => rfl) (fun _ => rfl) (fun _ => rfl), List.append_nil, List.nil_append,
          MemoryController.resident, MemoryController.resident, hcontent]
      · rw [hnone _ (fun _ _ => rfl) (fun _ => rfl) (fun _ => rfl),
          hnone _ (fun _ _ => rfl) (fun _ => rfl) (fun _ => rfl), List.append_nil, List.nil_append,
          handed_congr hp fun _ _ _ => by rw [hcontent]]
  | @stored k i pkt h0 hcontent hpkt hp =>
      refine h.of_events hlog (fun x => ?_) fun j => ?_
      · rw [resident_update hcontent]
        by_cases hx : (k, i) = x
        · subst hx
          have hempty : c.mc.resident (k, i) = [] := if_pos h0
          have hpkt' : pkt.payload.address ≠ 0 := hpkt
          simp [storedAt, leftAt, hempty, hpkt']
        · simp [storedAt, leftAt, hx]
      · -- the slot being answered is not empty
        rw [handed_congr hp fun j b hj => ?_]
        · exact List.append_nil _
        · rw [hcontent, Function.update_of_ne]
          rintro heq
          rw [← heq] at h0
          exact hs.processing_used hj h0
  | @returned i b pkt hcontent hi hpkt hp hp' =>
      refine h.of_events hlog (fun x => ?_) fun j => ?_
      · rw [MemoryController.resident, MemoryController.resident, hcontent]
        exact List.append_nil _
      · rw [handed_none hp, handed_some hp', hcontent]
        by_cases hj : i = j
        · subst hj
          simp [returnedAt, leftAt, hpkt]
        · simp [returnedAt, leftAt, hj]
  | @freed i b pkt hcontent hpkt hp hp' =>
      have hused := hs.processing_used hp
      refine h.of_events hlog (fun x => ?_) fun j => ?_
      · rw [resident_update hcontent]
        by_cases hx : (.rq, i) = x
        · subst hx
          have hfull : c.mc.resident (.rq, i) = [c.mc.content (.rq, i)] := if_neg hused
          have hempty : Slot.empty.pkt.payload.address = 0 := rfl
          simp [storedAt, leftAt, hfull, hempty, hpkt]
        · simp [storedAt, leftAt, hx]
      · rw [handed_some hp, handed_none hp']
        by_cases hj : i = j
        · subst hj
          simp [returnedAt, leftAt, hpkt]
        · simp [returnedAt, leftAt, hj]
  | @transferred i pkt hcontent hi hpkt hp =>
      refine h.of_events hlog (fun x => ?_) fun j => ?_
      · rw [resident_update hcontent]
        by_cases hx : (.wq, i) = x
        · subst hx
          have hfull : c.mc.resident (.wq, i) = [c.mc.content (.wq, i)] := if_neg hi
          have hempty : Slot.empty.pkt.payload.address = 0 := rfl
          simp [storedAt, leftAt, hfull, hempty, hpkt]
        · simp [storedAt, leftAt, hx]
      · rw [handed_congr hp fun j b _ => by rw [hcontent, Function.update_of_ne (by simp)]]
        exact List.append_nil _

/-! ## Forwards -/

/-- What a forward is to call and has not called is due. -/
theorem answer_due (c : Standalone) (pkt : Packet) (n : Nat) :
    ((c.answer pkt n).log.map answers).sum + (c.answer pkt n).due
        = (c.log.map answers).sum + c.due + Multiset.replicate n pkt ∧
      ((c.answer pkt n).log.map forwards).sum = (c.log.map forwards).sum := by
  cases n with
  | zero => simp [answer, due]
  | succ n =>
      refine ⟨?_, by simp [answer, forwards]⟩
      simp only [answer, due, List.map_append, List.map_cons, List.map_nil, List.sum_append,
        List.sum_cons, List.sum_nil, answers, Multiset.replicate_succ, add_zero]
      rw [← Multiset.singleton_add]
      abel

/-- Events that are neither a forward nor an answer. -/
theorem sum_append_silent {f : ControllerEvent → Multiset Packet} {l evs : List ControllerEvent}
    (h : ∀ ev ∈ evs, f ev = 0) : ((l ++ evs).map f).sum = (l.map f).sum := by
  have hzero : (evs.map f).sum = 0 := by
    refine List.sum_eq_zero fun x hx => ?_
    obtain ⟨ev, hev, rfl⟩ := List.mem_map.mp hx
    exact h ev hev
  rw [List.map_append, List.sum_append, hzero, add_zero]

/-- Every call of `return_data` a forward is to make is made or due. -/
def Settled (c : Standalone) : Prop :=
  (c.log.map forwards).sum = (c.log.map answers).sum + c.due

theorem Settled.of_silent {c c' : Standalone} (h : c.Settled) {evs : List ControllerEvent}
    (hlog : c'.log = c.log ++ evs) (hevs : ∀ ev ∈ evs, forwards ev = 0 ∧ answers ev = 0)
    (hdue : c'.due = c.due) : c'.Settled := by
  rw [Settled, hlog, sum_append_silent fun ev hev => (hevs ev hev).1,
    sum_append_silent fun ev hev => (hevs ev hev).2, hdue]
  exact h

theorem addEvents_silent (mc : MemoryController) (k : QueueKind) (pkt : Packet) {o : AddOutcome}
    (ho : ∀ i, o ≠ .forwarded i) :
    ∀ ev ∈ addEvents mc k pkt o, forwards ev = 0 ∧ answers ev = 0 := by
  cases o with
  | inserted =>
      cases hi : (mc.queue k).emptyIndex <;> simp [addEvents, hi, forwards, answers]
  | merged i => simp [addEvents, forwards, answers]
  | forwarded i => exact absurd rfl (ho i)
  | dropped => simp [addEvents]
  | preWarmup => simp [addEvents]

theorem addRq_settled {c : Standalone} (h : c.Settled) (pkt : Packet) : (c.addRq pkt).Settled := by
  unfold addRq
  split
  rename_i mc o _
  dsimp only
  split
  · rename_i i
    obtain ⟨hanswers, hforwards⟩ := answer_due
      ({ c with mc := mc, log := c.log ++ [.forwarded pkt] } : Standalone) pkt (callbackCount pkt)
    have hlog : ∀ f : ControllerEvent → Multiset Packet,
        ((c.log ++ [ControllerEvent.forwarded pkt]).map f).sum
          = (c.log.map f).sum + f (.forwarded pkt) := fun f => by simp
    rw [hlog] at hanswers hforwards
    show _ = _
    rw [addEvents, hanswers, hforwards, h]
    show _ = _ + 0 + c.due + _
    rw [add_zero]
    rfl
  · rename_i hne
    refine h.of_silent rfl (addEvents_silent _ _ _ fun i hi => hne i hi) rfl

theorem exec_settled {c c' : Standalone} (h : c.Settled) {op : ControllerOp}
    (he : exec op c = .ok c') : c'.Settled := by
  cases op with
  | tick clk =>
      cases he
      exact h
  | operate =>
      have he : c.operate = .ok c' := he
      unfold operate at he
      split at he
      · cases he
      · cases he
        refine h.of_silent rfl ?_ rfl
        unfold writeEvents
        split <;> simp [forwards, answers]
      · cases he
        exact h.of_silent rfl (by simp [forwards, answers]) rfl
  | addRq pkt =>
      cases he
      exact addRq_settled h pkt
  | addWq pkt =>
      have hne : ∀ i, (c.mc.addWq pkt).2 ≠ .forwarded i := by
        intro i
        unfold MemoryController.addWq
        split
        · simp
        · dsimp only
          split <;> simp
      cases he
      exact h.of_silent rfl (addEvents_silent _ _ _ hne) rfl
  | returnCallback =>
      have he : c.returnCallback = .ok c' := he
      unfold returnCallback at he
      split at he
      · rename_i pkt n rest ha
        cases he
        obtain ⟨hanswers, hforwards⟩ := answer_due
          ({ c with answering := rest } : Standalone) pkt n
        have hdue : c.due = ({ c with answering := rest } : Standalone).due
            + Multiset.replicate n pkt := by
          rw [due, ha, List.map_cons, List.sum_cons, add_comm]
          rfl
        show _ = _
        rw [hanswers, hforwards, add_assoc, ← hdue]
        exact h
      · split at he
        · cases he
        · cases he
          exact h.of_silent rfl (by simp [forwards, answers]) rfl
      · cases he
        exact h

end Standalone

/-- **Conservation.** What has been stored in a slot has left it again, in
the same order and with the same contents, but for what is still there;
`return_data` has been called once for each read that has left and for the
one about to leave, and for a forwarded read just as often as it asks for;
and what an action changes of the slots its events say. -/
theorem controller_conserves {tRP tRCD tCAS dbusReturnTime : Nat} {clk : Clock}
    {x : Worklist.Config Standalone ControllerOp}
    (h : Standalone.Run tRP tRCD tCAS dbusReturnTime clk x) :
    x.2.Accounted ∧ x.2.Settled ∧ ∀ op K, x.1 = op :: K → ∃ c evs,
      Standalone.exec op x.2 = .ok c ∧ c.log = x.2.log ++ evs ∧
        Standalone.Effect x.2 c evs := by
  have hinv := h.invariant (P := fun c => c.Accounted ∧ c.Settled) ⟨⟨?_, ?_⟩, rfl⟩ ?_
  · obtain ⟨hs, ⟨hacc, hset⟩, hK⟩ := hinv
    refine ⟨hacc, hset, fun op K hop => ?_⟩
    obtain ⟨c, evs, hexec, hlog, -, heff⟩ := Standalone.exec_spec hs (hK op K hop).1
    exact ⟨c, evs, hexec, hlog, heff⟩
  · intro x
    have hresident : (Standalone.new tRP tRCD tCAS dbusReturnTime clk).mc.resident x = [] := by
      refine if_pos ?_
      show (((MemoryController.new tRP tRCD tCAS dbusReturnTime).queue x.1).slotAt
        x.2).pkt.payload.address = 0
      rw [MemoryController.new_slotAt]
      rfl
    rw [hresident]
    rfl
  · intro i
    rfl
  · rintro op c c' evs hs ⟨hacc, hset⟩ he hlog heff
    exact ⟨hacc.step hs hlog heff, Standalone.exec_settled hset he⟩

/-- A read is handed over, its callback merges it once more and stores a
write, and the read leaves: it was returned once. -/
theorem controller_conserves_callback :
    ∃ c, Worklist.drive (standalone.gated Standalone.permits) 2
        [.addRq (.stamped 5), .operate, .addRq (.stamped 5), .addWq (.stamped 13),
          .returnCallback] (.new 0 0 0 0 .zero) = some c ∧
      c.log.filterMap (returnedAt 0) = [(Packet.stamped 5).payload] ∧
      c.mc.resident (.wq, 0) = [(Packet.stamped 13).payload] ∧ c.Accounted ∧ c.Settled := by
  obtain ⟨c, hc, hconf⟩ := Option.map_eq_some_iff.mp (show (Worklist.drive
    (standalone.gated Standalone.permits) 2
    [.addRq (.stamped 5), .operate, .addRq (.stamped 5), .addWq (.stamped 13), .returnCallback]
    (.new 0 0 0 0 .zero)).map (fun c =>
      (c.log.filterMap (returnedAt 0), c.mc.resident (.wq, 0)))
        = some ([(Packet.stamped 5).payload], [(Packet.stamped 13).payload]) from by
          decide +kernel)
  have hrun : Standalone.Run 0 0 0 0 .zero ([], c) :=
    Worklist.drive_reaches (fun _ _ => trivial) .refl hc
  obtain ⟨hacc, hset, -⟩ := controller_conserves hrun
  exact ⟨c, hc, (Prod.mk.inj hconf).1, (Prod.mk.inj hconf).2, hacc, hset⟩

end DramCache
