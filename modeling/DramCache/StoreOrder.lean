import DramCache.Lifecycle

/-!
# The order of the stores

Stores are executed in any order but written in the order of the program. The
array `STA` holds the stores that have been read from the trace and are not in
the store queue yet; the queue takes the one at its head and no other, and gives
them up when their instructions retire. So the queue and `STA` together are the
stores of the instructions that have not retired, in program order (`Stored`),
and what has been written is the stores of those that have (`store_order`).
-/

namespace DramCache

/-! ## The stores of the program -/

namespace OooInstr

/-- Which destinations of the instruction are in memory. -/
def stores (i : OooInstr) : List Nat :=
  (List.range numInstrDestinations).filter fun j => i.destinationAddress j ≠ 0

/-- The store as it enters the queue. -/
def queued (i : OooInstr) (j : Nat) : LsqEntry :=
  { instrId := i.instrId, virtualAddress := i.destinationAddress j, ip := i.ip, dataIndex := j }

/-- All of its stores are in the queue. -/
def AllAdded (i : OooInstr) : Prop := ∀ j ∈ i.stores, i.destinationAdded[j]?.getD false = true

theorem mem_stores {i : OooInstr} {j : Nat} :
    j ∈ i.stores ↔ j < numInstrDestinations ∧ i.destinationAddress j ≠ 0 := by
  rw [stores, List.mem_filter, List.mem_range, decide_eq_true_eq]

end OooInstr

/-- What the store entered the queue with. -/
def LsqEntry.entered (e : LsqEntry) : LsqEntry :=
  { instrId := e.instrId, virtualAddress := e.virtualAddress, ip := e.ip, dataIndex := e.dataIndex }

/-- The order of the program. -/
def LsqEntry.Before (x y : LsqEntry) : Prop :=
  x.instrId < y.instrId ∨ x.instrId = y.instrId ∧ x.dataIndex < y.dataIndex

theorem LsqEntry.Before.irrefl (x : LsqEntry) : ¬x.Before x := by
  rintro (h | h)
  · exact Nat.lt_irrefl _ h
  · exact Nat.lt_irrefl _ h.2

/-- The stores of the instructions from `a` on, up to `b`. -/
def storesIn (records : List InputInstr) (a b : Nat) : List LsqEntry :=
  (List.range' a (b - a)).flatMap fun k =>
    (program records k).stores.map (program records k).queued

section Program

variable {records : List InputInstr} {a b c k : Nat} {e : LsqEntry}

theorem storesIn_append (hab : a ≤ b) (hbc : b ≤ c) :
    storesIn records a b ++ storesIn records b c = storesIn records a c := by
  unfold storesIn
  rw [← List.flatMap_append]
  congr 1
  rw [show c - a = (b - a) + (c - b) by omega, ← List.range'_append_1, Nat.add_sub_cancel' hab]

theorem storesIn_single (k : Nat) :
    storesIn records k (k + 1) = (program records k).stores.map (program records k).queued := by
  unfold storesIn
  rw [Nat.add_sub_cancel_left]
  exact List.append_nil _

theorem storesIn_self : storesIn records a a = [] := by
  unfold storesIn
  rw [Nat.sub_self]
  rfl

theorem mem_storesIn : e ∈ storesIn records a b ↔
    ∃ k, a ≤ k ∧ k < b ∧ ∃ j ∈ (program records k).stores, (program records k).queued j = e := by
  unfold storesIn
  rw [List.mem_flatMap]
  refine exists_congr fun k => ?_
  rw [List.mem_range'_1, List.mem_map, and_assoc]
  refine and_congr_right fun hk => and_congr_left' ?_
  omega

theorem instrId_of_mem (hne : records ≠ []) (h : e ∈ storesIn records a b) :
    a ≤ e.instrId ∧ e.instrId < b ∧ e.dataIndex ∈ (program records e.instrId).stores ∧
      (program records e.instrId).queued e.dataIndex = e := by
  obtain ⟨k, hak, hkb, j, hj, rfl⟩ := mem_storesIn.mp h
  have hid : ((program records k).queued j).instrId = k :=
    O3Cpu.program_instrId hne k
  rw [hid]
  exact ⟨hak, hkb, hj, rfl⟩

/-- They are in program order. -/
theorem storesIn_pairwise (hne : records ≠ []) (a b : Nat) :
    (storesIn records a b).Pairwise LsqEntry.Before := by
  unfold storesIn
  rw [List.pairwise_flatMap]
  refine ⟨fun k _ => ?_, ?_⟩
  · rw [List.pairwise_map]
    have hrange : (program records k).stores.Pairwise (· < ·) :=
      List.Pairwise.filter _ List.pairwise_lt_range
    exact hrange.imp fun hlt => .inr ⟨rfl, hlt⟩
  · refine (List.pairwise_lt_range' (s := a) (n := b - a)).imp fun {k k'} hlt x hx y hy => .inl ?_
    obtain ⟨j, -, rfl⟩ := List.mem_map.mp hx
    obtain ⟨j', -, rfl⟩ := List.mem_map.mp hy
    change (program records k).instrId < (program records k').instrId
    rwa [O3Cpu.program_instrId hne, O3Cpu.program_instrId hne]

theorem storesIn_nodup (hne : records ≠ []) (a b : Nat) : (storesIn records a b).Nodup :=
  (storesIn_pairwise hne a b).imp fun h => by
    rintro rfl
    exact LsqEntry.Before.irrefl _ h

theorem length_stores (i : OooInstr) : i.stores.length ≤ numInstrDestinations :=
  (List.length_filter_le _ _).trans_eq List.length_range

theorem length_storesIn (h : a ≤ b) :
    (storesIn records a b).length ≤ numInstrDestinations * (b - a) := by
  induction b, h using Nat.le_induction with
  | base => rw [storesIn_self, Nat.sub_self]; rfl
  | succ b hab ih =>
      have hlast := length_stores (program records b)
      rw [← storesIn_append hab (Nat.le_succ b), List.length_append, storesIn_single,
        List.length_map, Nat.succ_sub hab, Nat.mul_succ]
      omega

end Program

/-! ## The invariant -/

/-- What a store is known by: its instruction, which of its destinations it is,
and the instruction pointer. -/
def LsqEntry.store (e : LsqEntry) : Nat × Nat × UInt64 := (e.instrId, e.dataIndex, e.ip)

def StorePacket.store (p : StorePacket) : Nat × Nat × UInt64 := (p.instrId, p.dataIndex, p.ip)

/-- The packet, if a store is written. -/
def CoreEvent.writtenPacket : CoreEvent → Option StorePacket
  | written p => some p
  | _ => none

/-- The assertions on the order of the stores. -/
def CoreFault.ofStores : CoreFault → Bool
  | sta | storeQueue => true
  | _ => false

namespace O3Cpu

/-- What an entry of the reorder buffer says of its stores, of which those in
`Q` are in the queue, from the cell `head` on. -/
structure Marked (head : Nat) (Q : List LsqEntry) (e : OooInstr) : Prop where
  lengthAdded : e.destinationAdded.length = numInstrDestinations
  lengthIndex : e.sqIndex.length = numInstrDestinations
  added : ∀ j ∈ e.stores, e.destinationAdded[j]?.getD false = true ↔ e.queued j ∈ Q
  place : ∀ j ∈ e.stores, ∀ k : Nat, Q[k]? = some (e.queued j) →
    e.sqIndex[j]?.getD none = some (Ring.cell sqSize head k)
  blank : ∀ j : Nat, (j ∈ e.stores → e.queued j ∉ Q) → e.sqIndex[j]?.getD none = none

/-- The stores that are in the queue and in `STA`. -/
structure Stored (records : List InputInstr) (s : O3Cpu) (Q W : List LsqEntry) : Prop where
  split : Q ++ W = storesIn records s.numRetired s.file.instrUniqueId
  first : Q <+: storesIn records s.numRetired (s.numRetired + s.rob.occupancy)
  size : s.sq.size = sqSize
  ring : Ring.Holds sqSize s.sq.head s.sq.tail (s.sq.entry.map LsqEntry.entered)
    (LsqEntry.entered {}) Q
  occupancy : s.sq.occupancy = Q.length
  sta : Ring.Holds staSize s.staHead s.staTail s.sta none (W.map fun e => some e.instrId)
  marked : ∀ p < s.rob.occupancy, Marked s.sq.head Q (s.rob.nth p)
  complete : ∀ p < s.rob.occupancy, (s.rob.nth p).isMemory = true →
    (s.rob.nth p).scheduled = .completed → ∀ j ∈ (s.rob.nth p).stores, (s.rob.nth p).queued j ∈ Q

/-- What has been written, in this order. -/
def written (s : O3Cpu) : List StorePacket := s.log.filterMap CoreEvent.writtenPacket

structure Ordered (records : List InputInstr) (s : O3Cpu) : Prop where
  stored : ∃ Q W, Stored records s Q W
  written : s.written.map StorePacket.store =
    (storesIn records 0 s.numRetired).map LsqEntry.store
  ifetchSize : s.ifetchBuffer.size = fetchWidth * 2
  decodeSize : s.decodeBuffer.size = decodeWidth * 3
  fault : ∀ f, s.fault = some f → f.ofStores = false

structure StoresInOrder (records : List InputInstr) (s : O3Cpu) : Prop
    extends Ordered records s where
  sound : Sound records s

/-! ### What does not matter -/

/-- What the order of the stores does not go by has changed. -/
structure Storing (s t : O3Cpu) : Prop where
  ifetchSize : t.ifetchBuffer.size = s.ifetchBuffer.size
  decodeSize : t.decodeBuffer.size = s.decodeBuffer.size
  robSize : t.rob.size = s.rob.size
  robHead : t.rob.head = s.rob.head
  robOccupancy : t.rob.occupancy = s.rob.occupancy
  asRead : ∀ c, (t.rob.entryAt c).asRead = (s.rob.entryAt c).asRead
  added : ∀ c, (t.rob.entryAt c).destinationAdded = (s.rob.entryAt c).destinationAdded
  index : ∀ c, (t.rob.entryAt c).sqIndex = (s.rob.entryAt c).sqIndex
  scheduled : ∀ c, (s.rob.entryAt c).isMemory = true → (t.rob.entryAt c).scheduled = .completed →
    (s.rob.entryAt c).scheduled = .completed ∨ (s.rob.entryAt c).AllAdded
  sqSize : t.sq.size = s.sq.size
  sqHead : t.sq.head = s.sq.head
  sqTail : t.sq.tail = s.sq.tail
  sqOccupancy : t.sq.occupancy = s.sq.occupancy
  entered : t.sq.entry.map LsqEntry.entered = s.sq.entry.map LsqEntry.entered
  sta : t.sta = s.sta
  staHead : t.staHead = s.staHead
  staTail : t.staTail = s.staTail
  written : t.written = s.written
  numRetired : t.numRetired = s.numRetired
  file : t.file = s.file
  fault : ∀ f, f.ofStores = true → t.fault = some f → s.fault = some f

variable {records : List InputInstr} {s t : O3Cpu} {Q W : List LsqEntry}

theorem Marked.same {e e' : OooInstr} {head : Nat} (h : Marked head Q e)
    (hread : e'.asRead = e.asRead) (hadded : e'.destinationAdded = e.destinationAdded)
    (hindex : e'.sqIndex = e.sqIndex) : Marked head Q e' := by
  have hstores : e'.stores = e.stores := (congrArg OooInstr.stores hread :)
  have hqueued : ∀ j, e'.queued j = e.queued j := fun j => (congrArg (OooInstr.queued · j) hread :)
  refine ⟨?_, ?_, ?_, ?_, ?_⟩
  · rw [hadded]
    exact h.lengthAdded
  · rw [hindex]
    exact h.lengthIndex
  · rw [hstores, hadded]
    simpa only [hqueued] using h.added
  · rw [hstores, hindex]
    simpa only [hqueued] using h.place
  · rw [hstores, hindex]
    simpa only [hqueued] using h.blank

theorem Stored.storing (h : Stored records s Q W) (hst : Storing s t) : Stored records t Q W := by
  have hnth : ∀ p, (t.rob.nth p).asRead = (s.rob.nth p).asRead ∧
      (t.rob.nth p).destinationAdded = (s.rob.nth p).destinationAdded ∧
      (t.rob.nth p).sqIndex = (s.rob.nth p).sqIndex ∧
      ((s.rob.nth p).isMemory = true → (t.rob.nth p).scheduled = .completed →
        (s.rob.nth p).scheduled = .completed ∨ (s.rob.nth p).AllAdded) := by
    intro p
    unfold CoreBuffer.nth
    rw [hst.robSize, hst.robHead]
    exact ⟨hst.asRead _, hst.added _, hst.index _, hst.scheduled _⟩
  refine ⟨?_, ?_, hst.sqSize.trans h.size, ?_, hst.sqOccupancy.trans h.occupancy, ?_,
    fun p hp => ?_, fun p hp hm hsc => ?_⟩
  · rw [hst.numRetired, hst.file]
    exact h.split
  · rw [hst.numRetired, hst.robOccupancy]
    exact h.first
  · rw [hst.sqHead, hst.sqTail, hst.entered]
    exact h.ring
  · rw [hst.staHead, hst.staTail, hst.sta]
    exact h.sta
  · rw [hst.robOccupancy] at hp
    rw [hst.sqHead]
    exact (h.marked p hp).same (hnth p).1 (hnth p).2.1 (hnth p).2.2.1
  · rw [hst.robOccupancy] at hp
    have hread := (hnth p).1
    have hmemory : (t.rob.nth p).isMemory = (s.rob.nth p).isMemory :=
      (congrArg OooInstr.isMemory hread :)
    have hstores : (t.rob.nth p).stores = (s.rob.nth p).stores := (congrArg OooInstr.stores hread :)
    rw [hmemory] at hm
    rw [hstores]
    intro j hj
    rw [show (t.rob.nth p).queued j = (s.rob.nth p).queued j from
      (congrArg (OooInstr.queued · j) hread :)]
    rcases (hnth p).2.2.2 hm hsc with hbefore | hall
    · exact h.complete p hp hm hbefore j hj
    · exact ((h.marked p hp).added j hj).mp (hall j hj)

theorem Ordered.storing (h : Ordered records s) (hst : Storing s t) : Ordered records t := by
  obtain ⟨Q, W, hq⟩ := h.stored
  refine ⟨⟨Q, W, hq.storing hst⟩, ?_, hst.ifetchSize.trans h.ifetchSize,
    hst.decodeSize.trans h.decodeSize, fun f hf => ?_⟩
  · rw [hst.written, hst.numRetired]
    exact h.written
  · by_contra hstores
    rw [Bool.not_eq_false] at hstores
    rw [h.fault f (hst.fault f hstores hf)] at hstores
    exact Bool.false_ne_true hstores

theorem StoresInOrder.storing (h : StoresInOrder records s) (hst : Storing s t)
    (hsound : Sound records t) : StoresInOrder records t :=
  ⟨h.toOrdered.storing hst, hsound⟩

theorem written_note (e : CoreEvent) (s : O3Cpu) :
    (note e s).written = s.written ++ e.writtenPacket.toList := by
  unfold written note
  rw [List.filterMap_append]
  cases e <;> rfl

namespace Storing

theorem trans {u : O3Cpu} (h : Storing s t) (h' : Storing t u) : Storing s u where
  ifetchSize := h'.ifetchSize.trans h.ifetchSize
  decodeSize := h'.decodeSize.trans h.decodeSize
  robSize := h'.robSize.trans h.robSize
  robHead := h'.robHead.trans h.robHead
  robOccupancy := h'.robOccupancy.trans h.robOccupancy
  asRead c := (h'.asRead c).trans (h.asRead c)
  added c := (h'.added c).trans (h.added c)
  index c := (h'.index c).trans (h.index c)
  scheduled c hm hsc := by
    have hmemory : (t.rob.entryAt c).isMemory = (s.rob.entryAt c).isMemory :=
      (congrArg OooInstr.isMemory (h.asRead c) :)
    rcases h'.scheduled c (hmemory.trans hm) hsc with hbefore | hall
    · exact h.scheduled c hm hbefore
    · refine .inr ?_
      unfold OooInstr.AllAdded at hall ⊢
      rw [h.added, show (t.rob.entryAt c).stores = (s.rob.entryAt c).stores from
        (congrArg OooInstr.stores (h.asRead c) :)] at hall
      exact hall
  sqSize := h'.sqSize.trans h.sqSize
  sqHead := h'.sqHead.trans h.sqHead
  sqTail := h'.sqTail.trans h.sqTail
  sqOccupancy := h'.sqOccupancy.trans h.sqOccupancy
  entered := h'.entered.trans h.entered
  sta := h'.sta.trans h.sta
  staHead := h'.staHead.trans h.staHead
  staTail := h'.staTail.trans h.staTail
  written := h'.written.trans h.written
  numRetired := h'.numRetired.trans h.numRetired
  file := h'.file.trans h.file
  fault f hf hfault := h.fault f hf (h'.fault f hf hfault)

/-- All that the order of the stores looks at is the same. -/
theorem of_eq (hifetch : t.ifetchBuffer.size = s.ifetchBuffer.size)
    (hdecode : t.decodeBuffer.size = s.decodeBuffer.size) (hrob : t.rob = s.rob)
    (hsq : t.sq = s.sq) (hsta : t.sta = s.sta) (hhead : t.staHead = s.staHead)
    (htail : t.staTail = s.staTail) (hwritten : t.written = s.written)
    (hnum : t.numRetired = s.numRetired) (hfile : t.file = s.file)
    (hfault : ∀ f, f.ofStores = true → t.fault = some f → s.fault = some f) : Storing s t := by
  refine ⟨hifetch, hdecode, ?_, ?_, ?_, ?_, ?_, ?_, ?_, ?_, ?_, ?_, ?_, ?_, hsta, hhead, htail,
    hwritten, hnum, hfile, hfault⟩ <;> first | rw [hrob] | rw [hsq]
  all_goals first | exact fun _ => rfl | exact fun _ _ => .inl

theorem refl (s : O3Cpu) : Storing s s :=
  .of_eq rfl rfl rfl rfl rfl rfl rfl rfl rfl rfl fun _ _ => id

/-- One entry of the reorder buffer has changed. -/
theorem rob {i : Nat} {f : OooInstr → OooInstr}
    (hread : (f (s.rob.entryAt i)).asRead = (s.rob.entryAt i).asRead)
    (hadded : (f (s.rob.entryAt i)).destinationAdded = (s.rob.entryAt i).destinationAdded)
    (hindex : (f (s.rob.entryAt i)).sqIndex = (s.rob.entryAt i).sqIndex)
    (hscheduled : (s.rob.entryAt i).isMemory = true → (f (s.rob.entryAt i)).scheduled = .completed →
      (s.rob.entryAt i).scheduled = .completed ∨ (s.rob.entryAt i).AllAdded) :
    Storing s (modifyRob i f s) where
  ifetchSize := rfl
  decodeSize := rfl
  robSize := rfl
  robHead := rfl
  robOccupancy := rfl
  asRead c := CoreBuffer.modify_field OooInstr.asRead hread c
  added c := CoreBuffer.modify_field OooInstr.destinationAdded hadded c
  index c := CoreBuffer.modify_field OooInstr.sqIndex hindex c
  scheduled c := by
    change (s.rob.entryAt c).isMemory = true →
      ((s.rob.modify i f).entryAt c).scheduled = .completed → _
    by_cases hc : i = c
    · subst hc
      by_cases hi : i < s.rob.entry.length
      · rw [CoreBuffer.entryAt_modify_self hi]
        exact hscheduled
      · unfold CoreBuffer.entryAt CoreBuffer.modify
        rw [List.modify_eq_self (Nat.le_of_not_lt hi)]
        exact fun _ => .inl
    · rw [CoreBuffer.entryAt_modify_ne hc]
      exact fun _ => .inl
  sqSize := rfl
  sqHead := rfl
  sqTail := rfl
  sqOccupancy := rfl
  entered := rfl
  sta := rfl
  staHead := rfl
  staTail := rfl
  written := rfl
  numRetired := rfl
  file := rfl
  fault _ _ := id

/-- One entry of the store queue has, but not what it entered with. -/
theorem sq {i : Nat} {f : LsqEntry → LsqEntry} (hf : ∀ e, (f e).entered = e.entered) :
    Storing s (modifySq i f s) where
  ifetchSize := rfl
  decodeSize := rfl
  robSize := rfl
  robHead := rfl
  robOccupancy := rfl
  asRead _ := rfl
  added _ := rfl
  index _ := rfl
  scheduled _ _ := .inl
  sqSize := rfl
  sqHead := rfl
  sqTail := rfl
  sqOccupancy := rfl
  entered := by
    change (s.sq.entry.modify i f).map LsqEntry.entered = _
    refine List.ext_getElem? fun n => ?_
    rw [List.getElem?_map, List.getElem?_map, List.getElem?_modify]
    cases s.sq.entry[n]? with
    | none => rfl
    | some e =>
        split
        · exact congrArg some (hf e)
        · rfl
  sta := rfl
  staHead := rfl
  staTail := rfl
  written := rfl
  numRetired := rfl
  file := rfl
  fault _ _ := id

theorem check {ok : Bool} {f : CoreFault} (hf : f.ofStores = false) (s : O3Cpu) :
    Storing s (check ok f s) := by
  refine .of_eq (check_frame (fun s => s.ifetchBuffer.size) (fun _ _ => rfl) ..)
    (check_frame (fun s => s.decodeBuffer.size) (fun _ _ => rfl) ..)
    (check_frame O3Cpu.rob (fun _ _ => rfl) ..) (check_frame O3Cpu.sq (fun _ _ => rfl) ..)
    (check_frame O3Cpu.sta (fun _ _ => rfl) ..) (check_frame O3Cpu.staHead (fun _ _ => rfl) ..)
    (check_frame O3Cpu.staTail (fun _ _ => rfl) ..) (check_frame O3Cpu.written (fun _ _ => rfl) ..)
    (check_frame O3Cpu.numRetired (fun _ _ => rfl) ..) (check_frame O3Cpu.file (fun _ _ => rfl) ..)
    fun g hg hfault => ?_
  rcases check_fault hfault with h | ⟨-, rfl⟩
  · exact h
  · rw [hf] at hg
    exact absurd hg Bool.false_ne_true

end Storing

theorem storing_memory (s : O3Cpu) : MemoryKeeps (Storing s) where
  check {t f} ok hf hs := hs.trans (.check (by cases f <;> first | rfl | cases hf) t)
  lq _ hs := hs.trans (.of_eq rfl rfl rfl rfl rfl rfl rfl rfl rfl rfl fun _ _ => id)
  sq _ _ hf hs := hs.trans (.sq fun e => (congrArg LsqEntry.entered (hf e)).trans rfl)
  rob {t} i f hf hs := hs.trans <| by
    have he := hf (t.rob.entryAt i)
    exact .rob he.asRead (congrArg OooInstr.destinationAdded he :) (congrArg OooInstr.sqIndex he :)
      fun _ hsc => .inl ((congrArg OooInstr.scheduled he :).symm.trans hsc)
  ready _ _ hs := hs.trans (.of_eq rfl rfl rfl rfl rfl rfl rfl rfl rfl rfl fun _ _ => id)
  inflight _ hs := hs.trans (.of_eq rfl rfl rfl rfl rfl rfl rfl rfl rfl rfl fun _ _ => id)
  searched _ hs := hs.trans (.of_eq rfl rfl rfl rfl rfl rfl rfl rfl rfl rfl fun _ _ => id)

theorem storing_front (s : O3Cpu) : FrontKeeps (Storing s) where
  check {t f} _ hf hs := hs.trans (.check (by cases f <;> first | rfl | cases hf) t)
  ifetch _ _ hs hb := hs.trans (.of_eq hb rfl rfl rfl rfl rfl rfl rfl rfl rfl fun _ _ => id)
  decode _ _ hs hb := hs.trans (.of_eq rfl hb rfl rfl rfl rfl rfl rfl rfl rfl fun _ _ => id)
  stall _ hs := hs.trans (.of_eq rfl rfl rfl rfl rfl rfl rfl rfl rfl rfl fun _ _ => id)
  resume _ hs := hs.trans (.of_eq rfl rfl rfl rfl rfl rfl rfl rfl rfl rfl fun _ _ => id)
  toRead _ hs := hs.trans (.of_eq rfl rfl rfl rfl rfl rfl rfl rfl rfl rfl fun _ _ => id)

theorem storing_registers (s : O3Cpu) : RegisterKeeps (Storing s) where
  check _ hs := hs.trans (.check rfl _)
  rob _ _ hf hs := hs.trans (.rob hf.asRead (congrArg OooInstr.destinationAdded hf.1 :)
    (congrArg OooInstr.sqIndex hf.1 :) fun hm hsc => .inl (hf.2 hm hsc))
  ready _ _ hs := hs.trans (.of_eq rfl rfl rfl rfl rfl rfl rfl rfl rfl rfl fun _ _ => id)
  nextSchedule {t} n hs := hs.trans ⟨rfl, rfl, rfl, rfl, rfl, fun _ => rfl, fun _ => rfl,
    fun _ => rfl, fun _ _ => .inl, rfl, rfl, rfl, rfl, rfl, rfl, rfl, rfl, rfl, rfl, rfl,
    fun _ _ => id⟩
  searched _ hs := hs.trans (.of_eq rfl rfl rfl rfl rfl rfl rfl rfl rfl rfl fun _ _ => id)
  regExecutions _ hs := hs.trans (.of_eq rfl rfl rfl rfl rfl rfl rfl rfl rfl rfl fun _ _ => id)
  memExecutions _ hs := hs.trans (.of_eq rfl rfl rfl rfl rfl rfl rfl rfl rfl rfl fun _ _ => id)
  resume _ hs := hs.trans (.of_eq rfl rfl rfl rfl rfl rfl rfl rfl rfl rfl fun _ _ => id)
  note {t e} he hs := hs.trans (.of_eq rfl rfl rfl rfl rfl rfl rfl (by
    rw [written_note]
    cases e <;> first | exact List.append_nil _ | cases he) rfl rfl fun _ _ => id)

/-! ## A store enters the queue -/

section Enter

variable {e : OooInstr} {w : LsqEntry} {head j : Nat}

/-- The store of another instruction is in the queue now. -/
theorem Marked.grow (h : Marked head Q e) (hw : ∀ j ∈ e.stores, e.queued j ≠ w) :
    Marked head (Q ++ [w]) e where
  lengthAdded := h.lengthAdded
  lengthIndex := h.lengthIndex
  added j hj := by
    rw [h.added j hj, List.mem_append, List.mem_singleton]
    exact (or_iff_left (hw j hj)).symm
  place j hj k hk := by
    refine h.place j hj k ?_
    by_cases hlast : k < Q.length
    · rwa [List.getElem?_append_left hlast] at hk
    · rw [List.getElem?_append_right (Nat.le_of_not_lt hlast)] at hk
      exact absurd (List.mem_singleton.mp (List.mem_of_getElem? hk)) (hw j hj)
  blank j hj := h.blank j fun hstore hmem => hj hstore (List.mem_append_left _ hmem)

theorem queued_inj {i j : Nat} (h : e.queued i = e.queued j) : i = j :=
  (congrArg LsqEntry.dataIndex h :)

/-- A store of this one is. -/
theorem Marked.add (h : Marked head Q e) (hj : j ∈ e.stores) (hnew : e.queued j ∉ Q) :
    Marked head (Q ++ [e.queued j]) { e with
      destinationAdded := e.destinationAdded.set j true
      sqIndex := e.sqIndex.set j (some (Ring.cell sqSize head Q.length)) } := by
  have hlt := (OooInstr.mem_stores.mp hj).1
  refine ⟨(List.length_set ..).trans h.lengthAdded, (List.length_set ..).trans h.lengthIndex,
    fun i hi => ?_, fun i hi k hk => ?_, fun i hi => ?_⟩
  · change (e.destinationAdded.set j true)[i]?.getD false = true ↔ e.queued i ∈ Q ++ [e.queued j]
    rw [List.mem_append, List.mem_singleton]
    by_cases hij : j = i
    · subst hij
      rw [List.getElem?_set_self (h.lengthAdded.symm ▸ hlt)]
      exact iff_of_true rfl (.inr rfl)
    · rw [List.getElem?_set_ne hij, h.added i hi]
      exact (or_iff_left fun heq => hij (queued_inj heq).symm).symm
  · change (e.sqIndex.set j _)[i]?.getD none = _
    change (Q ++ [e.queued j])[k]? = some (e.queued i) at hk
    by_cases hlast : k < Q.length
    · rw [List.getElem?_append_left hlast] at hk
      have hij : j ≠ i := by
        rintro rfl
        exact hnew (List.mem_of_getElem? hk)
      rw [List.getElem?_set_ne hij]
      exact h.place i hi k hk
    · rw [List.getElem?_append_right (Nat.le_of_not_lt hlast)] at hk
      have hzero : k - Q.length = 0 := by
        have hbound := (List.getElem?_eq_some_iff.mp hk).1
        rw [List.length_singleton] at hbound
        omega
      rw [hzero] at hk
      obtain rfl := queued_inj (Option.some.inj hk)
      rw [List.getElem?_set_self (h.lengthIndex.symm ▸ hlt), show k = Q.length by omega]
      rfl
  · change (e.sqIndex.set j _)[i]?.getD none = none
    have hij : j ≠ i := by
      rintro rfl
      exact hi hj (List.mem_append_right _ (List.mem_singleton.mpr rfl))
    rw [List.getElem?_set_ne hij]
    exact h.blank i fun hstore hmem => hi hstore (List.mem_append_left _ hmem)

/-- What an instruction of the reorder buffer stores. -/
theorem Pipelined.stores (h : Pipelined records s) (hne : records ≠ []) {p : Nat}
    (hp : p < s.rob.occupancy) :
    (s.rob.nth p).stores = (program records (s.numRetired + p)).stores ∧
      ∀ j, (s.rob.nth p).queued j = (program records (s.numRetired + p)).queued j := by
  have hread := h.entry hne hp
  exact ⟨(congrArg OooInstr.stores hread :), fun j => (congrArg (OooInstr.queued · j) hread :)⟩

/-- What has been read is what has retired and what is in the buffers. -/
theorem Pipelined.read_eq (h : Pipelined records s) (hne : records ≠ []) :
    s.numRetired + s.rob.occupancy + s.decodeBuffer.occupancy + s.ifetchBuffer.occupancy =
      s.file.instrUniqueId := by
  obtain ⟨ws, xs, ys, zs, h⟩ := h
  obtain ⟨is, f, hread, hlen, -⟩ :=
    (TraceFile.openTrace_at records).readInstrs hne s.file.instrUniqueId
  obtain rfl := (Prod.mk.inj (Option.some.inj (hread.symm.trans h.read))).1
  simp only [List.length_append] at hlen
  rw [h.numRetired, h.rob.occupancy, h.decode.occupancy, h.ifetch.occupancy]
  exact hlen

theorem front_eq {α : Type*} {size head tail : Nat} {cells : List (Option α)}
    {xs : List (Option α)} (h : Ring.Holds size head tail cells none xs) :
    cells[head]?.getD none = xs.head?.getD none := by
  have hcell := Ring.cell_zero h.head_lt
  cases xs with
  | nil =>
      have hdead := h.dead 0 (Nat.zero_lt_of_lt h.head_lt) le_rfl
      rw [hcell] at hdead
      rw [hdead]
      rfl
  | cons x xs =>
      have hlive := h.live 0 (Nat.succ_pos _)
      rw [hcell] at hlive
      rw [hlive]
      rfl

/-- **The store at the head of `STA`**, when it is one of the entry at the place
`p`: the first one of the entry that is not in the queue. -/
theorem Stored.next (h : Stored records s Q W) (hne : records ≠ []) (hs : Pipelined records s)
    {p : Nat} (hp : p < s.rob.occupancy)
    (hsta : s.sta[s.staHead]?.getD none = some (s.rob.nth p).instrId)
    (hj : j ∈ (s.rob.nth p).stores)
    (hnew : (s.rob.nth p).destinationAdded[j]?.getD false = false)
    (hbefore : ∀ i < j, i ∈ (s.rob.nth p).stores →
      (s.rob.nth p).destinationAdded[i]?.getD false = true) :
    ∃ W', W = (s.rob.nth p).queued j :: W' ∧
      Q ++ [(s.rob.nth p).queued j] <+:
        storesIn records s.numRetired (s.numRetired + s.rob.occupancy) := by
  obtain ⟨hstores, hqueued⟩ := hs.stores hne hp
  have hid := hs.instrId hne hp
  have hread := hs.read_eq hne
  have hmark := h.marked p hp
  have hpairwise := storesIn_pairwise hne s.numRetired s.file.instrUniqueId
  have hnodup := storesIn_nodup hne s.numRetired s.file.instrUniqueId
  rw [← h.split] at hpairwise hnodup
  rw [front_eq h.sta, hid] at hsta
  -- the store at the head of `STA`
  cases W with
  | nil => exact absurd hsta (Option.some_ne_none _).symm
  | cons w W' =>
      have hwid : w.instrId = s.numRetired + p := Option.some.inj hsta
      have hwmem : w ∈ storesIn records s.numRetired s.file.instrUniqueId := by
        rw [← h.split]
        exact List.mem_append_right _ List.mem_cons_self
      obtain ⟨-, -, hwstores, hw⟩ := instrId_of_mem hne hwmem
      rw [hwid, ← hstores] at hwstores
      rw [hwid, ← hqueued] at hw
      have hnotQ : w ∉ Q := fun hmem =>
        (List.nodup_append.mp hnodup).2.2 w hmem w List.mem_cons_self rfl
      have hjmem : (s.rob.nth p).queued j ∈ Q ++ w :: W' := by
        rw [h.split, hqueued]
        exact mem_storesIn.mpr ⟨_, by omega, by omega, j, hstores ▸ hj, rfl⟩
      have hjnot : (s.rob.nth p).queued j ∉ Q := fun hmem =>
        Bool.false_ne_true (hnew.symm.trans ((hmark.added j hj).mpr hmem))
      have hwj : (s.rob.nth p).queued j = w := by
        rcases List.mem_cons.mp ((List.mem_append.mp hjmem).resolve_left hjnot) with heq | hlater
        · exact heq
        · have hlt : w.Before ((s.rob.nth p).queued j) :=
            (List.pairwise_cons.mp (List.pairwise_append.mp hpairwise).2.1).1 _ hlater
          have hindex : w.dataIndex < j := by
            rcases hlt with hlt | hlt
            · rw [hwid, ← hid] at hlt
              exact absurd hlt (Nat.lt_irrefl _)
            · exact hlt.2
          rw [← hw] at hnotQ
          exact absurd ((hmark.added _ hwstores).mp (hbefore _ hindex hwstores)) hnotQ
      refine ⟨W', by rw [hwj], ?_⟩
      rw [hwj]
      obtain ⟨R, hR⟩ := h.first
      have hall : R ++ storesIn records (s.numRetired + s.rob.occupancy) s.file.instrUniqueId =
          w :: W' := by
        have hcancel : Q ++ (R ++ storesIn records (s.numRetired + s.rob.occupancy)
            s.file.instrUniqueId) = Q ++ w :: W' := by
          rw [← List.append_assoc, hR, storesIn_append (by omega) (by omega), h.split]
        exact List.append_cancel_left hcancel
      cases R with
      | nil =>
          have hmem : w ∈ storesIn records (s.numRetired + s.rob.occupancy)
              s.file.instrUniqueId := by
            rw [List.nil_append] at hall
            rw [hall]
            exact List.mem_cons_self
          have hbound := (instrId_of_mem hne hmem).1
          omega
      | cons r R =>
          rw [List.cons_append] at hall
          obtain ⟨rfl, -⟩ := List.cons.inj hall
          exact ⟨R, by rw [← hR, List.append_assoc, List.singleton_append]⟩

theorem advance_eq {size i : Nat} (h : i < size) :
    (if i + 1 = size then 0 else i + 1) = Ring.advance size i := by
  unfold Ring.advance
  exact if_congr ⟨fun heq => heq.ge, fun hge => Nat.le_antisymm h hge⟩ rfl rfl

theorem ring_tail_lt {α : Type*} {size head tail : Nat} {cells : List α} {blank : α} {xs : List α}
    (h : Ring.Holds size head tail cells blank xs) : tail < size :=
  h.tail_eq ▸ Ring.cell_lt h.head_lt _

theorem map_modify_eq_set {f : LsqEntry → LsqEntry} (hf : ∀ x, (f x).entered = w)
    (entry : List LsqEntry) (i : Nat) :
    (entry.modify i f).map LsqEntry.entered = (entry.map LsqEntry.entered).set i w := by
  refine List.ext_getElem? fun n => ?_
  rw [List.getElem?_map]
  by_cases hn : i = n
  · subst hn
    rw [List.getElem?_modify_eq]
    by_cases hi : i < entry.length
    · rw [List.getElem?_set_self (by rwa [List.length_map]), List.getElem?_eq_getElem hi]
      exact congrArg some (hf _)
    · rw [List.getElem?_eq_none (Nat.le_of_not_lt hi), List.getElem?_eq_none]
      · rfl
      · rw [List.length_set, List.length_map]
        exact Nat.le_of_not_lt hi
  · rw [List.getElem?_modify_ne _ _ hn, List.getElem?_set_ne hn, List.getElem?_map]

/-- The cell at the tail of the store queue is free. -/
theorem Stored.tail_free (h : Stored records s Q W) (hroom : s.sq.occupancy < s.sq.size) :
    (s.sq.entryAt s.sq.tail).virtualAddress = 0 := by
  rw [h.occupancy, h.size] at hroom
  have hdead := h.ring.dead Q.length hroom le_rfl
  rw [← h.ring.tail_eq, List.getElem?_map] at hdead
  obtain ⟨e, he, hentered⟩ := Option.map_eq_some_iff.mp hdead
  unfold LoadStoreQueue.entryAt
  rw [he]
  exact (congrArg LsqEntry.virtualAddress hentered :)

/-! #### The store that is next enters the queue -/

section Enter

variable {i p : Nat}

theorem Stored.addStoreQueue_eq (h : Stored records s Q W) (hroom : s.sq.occupancy < s.sq.size)
    (i j : Nat) :
    s.addStoreQueue i j = pushReady .rts0 s.sq.tail (releaseSta (enterStore i j s)) := by
  unfold addStoreQueue
  dsimp only
  rw [check_of (decide_eq_true (h.tail_free hroom))]

/-- The entry whose store has entered. -/
theorem Stored.entryAt_enter (h : Stored records s Q W) (hroom : s.sq.occupancy < s.sq.size)
    (hi : i < s.rob.entry.length) (j : Nat) :
    (s.addStoreQueue i j).rob.entryAt i = { s.rob.entryAt i with
      destinationAdded := (s.rob.entryAt i).destinationAdded.set j true
      sqIndex := (s.rob.entryAt i).sqIndex.set j (some s.sq.tail) } := by
  rw [h.addStoreQueue_eq hroom]
  exact CoreBuffer.entryAt_modify_self hi

/-- The other places of the reorder buffer keep their entries. -/
theorem Stored.nth_enter_ne (h : Stored records s Q W) (hroom : s.sq.occupancy < s.sq.size)
    (hs : Sound records s) (hp : p < s.rob.occupancy)
    (hcell : Ring.cell s.rob.size s.rob.head p = i) (j : Nat) {p' : Nat}
    (hp' : p' < s.rob.occupancy) (hpp : p' ≠ p) :
    (s.addStoreQueue i j).rob.nth p' = s.rob.nth p' := by
  obtain ⟨ws, xs, ys, zs, hin⟩ := hs.pipelined
  have hocc : s.rob.occupancy ≤ s.rob.size := hin.rob.occupancy ▸ hin.rob.le_size
  rw [h.addStoreQueue_eq hroom]
  exact modify_nth_ne hin.rob.ring.head_lt (hp.trans_le hocc) (hp'.trans_le hocc) hpp hcell

theorem Stored.ring_enter (h : Stored records s Q W) (hroom : s.sq.occupancy < s.sq.size)
    (i j : Nat) :
    Ring.Holds sqSize (s.addStoreQueue i j).sq.head (s.addStoreQueue i j).sq.tail
      ((s.addStoreQueue i j).sq.entry.map LsqEntry.entered) (LsqEntry.entered {})
      (Q ++ [(s.rob.entryAt i).queued j]) := by
  have hroomQ := hroom
  rw [h.occupancy, h.size] at hroomQ
  have hpush := h.ring.push (x := (s.rob.entryAt i).queued j) hroomQ
  rw [← map_modify_eq_set (f := fun q => { q with
    instrId := (s.rob.entryAt i).instrId, virtualAddress := (s.rob.entryAt i).destinationAddress j
    ip := (s.rob.entryAt i).ip, dataIndex := j, robIndex := i
    eventCycle := s.currentCoreCycle + schedulingLatency }) (fun _ => rfl)] at hpush
  rw [← advance_eq (ring_tail_lt h.ring)] at hpush
  rw [h.addStoreQueue_eq hroom]
  change Ring.Holds sqSize s.sq.head (if s.sq.tail + 1 = s.sq.size then 0 else s.sq.tail + 1) _ _ _
  rw [h.size]
  exact hpush

/-- The store at the head of `STA` moves to the queue. -/
theorem Stored.enter {W' : List LsqEntry} (hne : records ≠ [])
    (h : Stored records s Q ((s.rob.nth p).queued j :: W')) (hs : Sound records s)
    (hroom : s.sq.occupancy < s.sq.size) (hi : i < s.rob.entry.length) (hp : p < s.rob.occupancy)
    (hcell : Ring.cell s.rob.size s.rob.head p = i) (hj : j ∈ (s.rob.nth p).stores)
    (hnew : (s.rob.nth p).destinationAdded[j]?.getD false = false)
    (hfirst : Q ++ [(s.rob.nth p).queued j] <+:
      storesIn records s.numRetired (s.numRetired + s.rob.occupancy)) :
    Stored records (s.addStoreQueue i j) (Q ++ [(s.rob.nth p).queued j]) W' := by
  have hnth : s.rob.nth p = s.rob.entryAt i := by
    unfold CoreBuffer.nth
    rw [hcell]
  have heq := h.addStoreQueue_eq hroom i j
  have hhere : (s.addStoreQueue i j).rob.nth p = { s.rob.nth p with
      destinationAdded := (s.rob.nth p).destinationAdded.set j true
      sqIndex := (s.rob.nth p).sqIndex.set j (some s.sq.tail) } := by
    rw [hnth, ← h.entryAt_enter hroom hi, heq]
    unfold CoreBuffer.nth
    rw [← hcell]
    rfl
  have hplace : ∀ p' < s.rob.occupancy, p' ≠ p →
      (s.addStoreQueue i j).rob.nth p' = s.rob.nth p' := fun p' hp' hpp =>
    h.nth_enter_ne hroom hs hp hcell j hp' hpp
  have hoccupancy : (s.addStoreQueue i j).rob.occupancy = s.rob.occupancy := by
    rw [heq]
    rfl
  have hnotQ : (s.rob.nth p).queued j ∉ Q := fun hmem =>
    Bool.false_ne_true (hnew.symm.trans (((h.marked p hp).added j hj).mpr hmem))
  have hids : ∀ p' < s.rob.occupancy, p' ≠ p → ∀ i' ∈ (s.rob.nth p').stores,
      (s.rob.nth p').queued i' ≠ (s.rob.nth p).queued j := by
    intro p' hp' hpp i' _ hqueued
    have hid : (s.rob.nth p').instrId = (s.rob.nth p).instrId :=
      (congrArg LsqEntry.instrId hqueued :)
    rw [hs.pipelined.instrId hne hp', hs.pipelined.instrId hne hp] at hid
    exact hpp (Nat.add_left_cancel hid)
  refine ⟨?_, ?_, ?_, ?_, ?_, ?_, fun p' hp' => ?_, fun p' hp' hm hsc => ?_⟩
  · rw [List.append_assoc, List.singleton_append, h.split, heq]
    rfl
  · rw [heq]
    exact hfirst
  · rw [heq]
    exact h.size
  · rw [hnth]
    exact h.ring_enter hroom i j
  · rw [heq, List.length_append, List.length_singleton, ← h.occupancy]
    rfl
  · have hpop := h.sta.pop
    rw [← advance_eq h.sta.head_lt] at hpop
    rw [heq]
    exact hpop
  · rw [hoccupancy] at hp'
    have hhead : (s.addStoreQueue i j).sq.head = s.sq.head := by
      rw [heq]
      rfl
    rw [hhead]
    by_cases hpp : p' = p
    · have htail : s.sq.tail = Ring.cell sqSize s.sq.head Q.length := h.ring.tail_eq
      rw [hpp, hhere, htail]
      exact (h.marked p hp).add hj hnotQ
    · rw [hplace p' hp' hpp]
      exact (h.marked p' hp').grow (hids p' hp' hpp)
  · rw [hoccupancy] at hp'
    by_cases hpp : p' = p
    · rw [hpp, hhere] at hm hsc ⊢
      exact fun j' hj' => List.mem_append_left _ (h.complete p hp hm hsc j' hj')
    · rw [hplace p' hp' hpp] at hm hsc ⊢
      exact fun j' hj' => List.mem_append_left _ (h.complete p' hp' hm hsc j' hj')

end Enter

/-- **A store enters the queue in its turn.** -/
theorem addStoreQueue_ordered (hne : records ≠ []) (h : StoresInOrder records s) {i : Nat}
    (hscheduled : (s.rob.entryAt i).scheduled ≠ .idle) (hj : j ∈ (s.rob.entryAt i).stores)
    (hnew : (s.rob.entryAt i).destinationAdded[j]?.getD false = false)
    (hbefore : ∀ i' < j, i' ∈ (s.rob.entryAt i).stores →
      (s.rob.entryAt i).destinationAdded[i']?.getD false = true)
    (hroom : s.sq.occupancy < s.sq.size)
    (hsta : s.sta[s.staHead]?.getD none = some (s.rob.entryAt i).instrId) :
    StoresInOrder records (s.addStoreQueue i j) ∧
      ∀ i', i' = j ∨ (s.rob.entryAt i).destinationAdded[i']?.getD false = true →
        ((s.addStoreQueue i j).rob.entryAt i).destinationAdded[i']?.getD false = true := by
  obtain ⟨Q, W, hq⟩ := h.stored
  obtain ⟨hi, p, hp, hcell⟩ := h.sound.live hscheduled
  have hnth : s.rob.nth p = s.rob.entryAt i := by
    unfold CoreBuffer.nth
    rw [hcell]
  have heq := hq.addStoreQueue_eq hroom i j
  have hself := hq.entryAt_enter hroom hi j
  rw [← hnth] at hj hnew hbefore hsta
  obtain ⟨W', rfl, hfirst⟩ := hq.next hne h.sound.pipelined hp hsta hj hnew hbefore
  refine ⟨⟨⟨⟨_, W', hq.enter hne h.sound hroom hi hp hcell hj hnew hfirst⟩, ?_, ?_, ?_, ?_⟩,
    addStoreQueue_sound i j h.sound⟩, fun i' hi' => ?_⟩
  · rw [heq]
    exact h.written
  · rw [heq]
    exact h.ifetchSize
  · rw [heq]
    exact h.decodeSize
  · rw [heq]
    exact h.fault
  · rw [hself, ← hnth] at *
    change ((s.rob.nth p).destinationAdded.set j true)[i']?.getD false = true
    by_cases hij : j = i'
    · subst hij
      have hlt := (OooInstr.mem_stores.mp hj).1
      rw [List.getElem?_set_self ((hq.marked p hp).lengthAdded.symm ▸ hlt)]
      rfl
    · rw [List.getElem?_set_ne hij]
      exact hi'.resolve_left (Ne.symm hij)

/-- Behind `n` destinations of the entry at `i`: those before are in the queue,
or none can enter any more. -/
structure Adding (records : List InputInstr) (b : CoreBuffer) (i n : Nat) (q : Nat × O3Cpu) :
    Prop where
  ordered : StoresInOrder records q.2
  same : b.SameSched q.2.rob
  turn : q.2.sq.occupancy < q.2.sq.size →
    q.2.sta[q.2.staHead]?.getD none = some (q.2.rob.entryAt i).instrId →
    ∀ j < n, j ∈ (q.2.rob.entryAt i).stores →
      (q.2.rob.entryAt i).destinationAdded[j]?.getD false = true
  all : q.1 = 0 → ∀ j < n, j ∈ (q.2.rob.entryAt i).stores →
    (q.2.rob.entryAt i).destinationAdded[j]?.getD false = true

theorem addStore_adding (hne : records ≠ []) {b : CoreBuffer} {i n : Nat} {q : Nat × O3Cpu}
    (h : Adding records b i n q) (hn : n < numInstrDestinations)
    (hscheduled : (b.entryAt i).scheduled ≠ .idle) :
    Adding records b i (n + 1) (addStore i q n) := by
  have hlast : ∀ {t : O3Cpu} {j}, j < n + 1 → j ∈ (t.rob.entryAt i).stores →
      (∀ j < n, j ∈ (t.rob.entryAt i).stores →
        (t.rob.entryAt i).destinationAdded[j]?.getD false = true) →
      (n ∈ (t.rob.entryAt i).stores → (t.rob.entryAt i).destinationAdded[n]?.getD false = true) →
      (t.rob.entryAt i).destinationAdded[j]?.getD false = true := by
    intro t j hj hstore hbefore hself
    rcases Nat.lt_succ_iff_lt_or_eq.mp hj with hj | rfl
    · exact hbefore j hj hstore
    · exact hself hstore
  unfold addStore
  dsimp only
  split
  · rename_i hdone
    have hself : n ∈ (q.2.rob.entryAt i).stores →
        (q.2.rob.entryAt i).destinationAdded[n]?.getD false = true := fun hstore =>
      hdone.resolve_left (OooInstr.mem_stores.mp hstore).2
    exact ⟨h.ordered, h.same, fun hroom hsta j hj hstore =>
      hlast hj hstore (h.turn hroom hsta) hself, fun hzero j hj hstore =>
      hlast hj hstore (h.all hzero) hself⟩
  · rename_i hnew
    rw [not_or] at hnew
    have hstore : n ∈ (q.2.rob.entryAt i).stores := OooInstr.mem_stores.mpr ⟨hn, hnew.1⟩
    split
    · rename_i hcond
      rw [← h.same.field OooInstr.scheduled fun _ => rfl] at hscheduled
      obtain ⟨hordered, hadded⟩ := addStoreQueue_ordered hne h.ordered hscheduled hstore
        (Bool.eq_false_iff.mpr hnew.2) (h.turn hcond.1 hcond.2) hcond.1 hcond.2
      have hsame := addStoreQueue_same q.2.rob i n (.refl _)
      have hstores : ((q.2.addStoreQueue i n).rob.entryAt i).stores =
          (q.2.rob.entryAt i).stores := hsame.field OooInstr.stores (fun _ => rfl) i
      have hall : ∀ j < n + 1, j ∈ ((q.2.addStoreQueue i n).rob.entryAt i).stores →
          ((q.2.addStoreQueue i n).rob.entryAt i).destinationAdded[j]?.getD false = true := by
        intro j hj hmem
        rw [hstores] at hmem
        refine hadded j ?_
        rcases Nat.lt_succ_iff_lt_or_eq.mp hj with hj | rfl
        · exact .inr (h.turn hcond.1 hcond.2 j hj hmem)
        · exact .inl rfl
      exact ⟨hordered, h.same.trans hsame, fun _ _ => hall, fun _ => hall⟩
    · rename_i hcond
      exact ⟨h.ordered, h.same, fun hroom hsta => absurd ⟨hroom, hsta⟩ hcond,
        fun hzero => absurd hzero (Nat.succ_ne_zero _)⟩

theorem checkAndAddLsq_adding (hne : records ≠ []) (h : StoresInOrder records s) {i : Nat}
    (hscheduled : (s.rob.entryAt i).scheduled ≠ .idle) :
    Adding records s.rob i numInstrDestinations (s.checkAndAddLsq i) := by
  have hloads := (storing_memory s).addLoads i (List.range numInstrSources) (0, s) (.refl s)
  have hsound := (sound_memory records).addLoads i (List.range numInstrSources) (0, s) h.sound
  have hsame := (sameSched_memory s.rob).addLoads i (List.range numInstrSources) (0, s) (.refl _)
  unfold checkAndAddLsq
  generalize (List.range numInstrSources).foldl (addLoad i) (0, s) = q at hloads hsound hsame ⊢
  have hall : ∀ n ≤ numInstrDestinations,
      Adding records s.rob i n ((List.range n).foldl (addStore i) q) := by
    intro n
    induction n with
    | zero =>
        exact fun _ => ⟨h.storing hloads hsound, hsame,
          fun _ _ j hj => absurd hj (Nat.not_lt_zero j),
          fun _ j hj => absurd hj (Nat.not_lt_zero j)⟩
    | succ n ih =>
        intro hn
        rw [List.range_succ, List.foldl_append, List.foldl_cons, List.foldl_nil]
        exact addStore_adding hne (ih (Nat.le_of_succ_le hn)) hn hscheduled
  exact hall _ le_rfl

theorem doMemoryScheduling_ordered (hne : records ≠ []) (i : Nat) (h : StoresInOrder records s)
    (hmemory : (s.rob.entryAt i).isMemory = true) (hready : (s.rob.entryAt i).regReady = true)
    (hscheduled : (s.rob.entryAt i).scheduled = .inflight) :
    StoresInOrder records (s.doMemoryScheduling i) := by
  have hsound := doMemoryScheduling_sound hne i h.sound hmemory hready hscheduled
  have hadding := checkAndAddLsq_adding hne h (i := i)
    (by rw [hscheduled]; exact Returned.noConfusion)
  unfold doMemoryScheduling at hsound ⊢
  generalize s.checkAndAddLsq i = q at hadding hsound ⊢
  dsimp only at hsound ⊢
  refine hadding.ordered.storing ((storing_memory q.2).searched _ ?_) hsound
  split
  · rename_i hzero
    have hnoted := (storing_registers q.2).note (e := .started (q.2.rob.entryAt i).instrId) rfl
      (.refl q.2)
    refine hnoted.trans (.rob rfl rfl rfl fun _ _ => .inr ?_)
    exact fun j hj => hadding.all hzero j (OooInstr.mem_stores.mp hj).1 hj
  · exact .refl q.2

end Enter

/-! ## A store is read -/

section Read

/-- `STA` takes one number for each store of the instruction. -/
theorem foldl_updateSta {α : Type*} (as : List α) (instrId : Nat) {xs : List (Option Nat)}
    {t : O3Cpu} (h : Ring.Holds staSize t.staHead t.staTail t.sta none xs)
    (hroom : xs.length + as.length ≤ staSize) :
    ∃ sta tail, as.foldl (fun s _ => updateSta instrId s) t = { t with
        sta := sta, staTail := tail } ∧
      Ring.Holds staSize t.staHead tail sta none
        (xs ++ List.replicate as.length (some instrId)) := by
  induction as generalizing t xs with
  | nil =>
      refine ⟨t.sta, t.staTail, rfl, ?_⟩
      rwa [List.length_nil, List.replicate_zero, List.append_nil]
  | cons a as ih =>
      rw [List.length_cons] at hroom
      have hlt : xs.length < staSize := by omega
      have hfree : (t.sta[t.staTail]?.getD none).isNone = true := by
        rw [h.tail_eq, h.dead _ hlt le_rfl]
        rfl
      have hpush := h.push (x := some instrId) hlt
      have hstep : updateSta instrId t = { t with
          sta := t.sta.set t.staTail (some instrId)
          staTail := Ring.advance staSize t.staTail } := by
        unfold updateSta
        rw [check_of (by rw [hfree]; rfl)]
        dsimp only
        rw [advance_eq (ring_tail_lt h)]
      rw [List.foldl_cons, hstep]
      obtain ⟨sta, tail, heq, hholds⟩ := ih (t := { t with
        sta := t.sta.set t.staTail (some instrId)
        staTail := Ring.advance staSize t.staTail }) hpush (by
          rw [List.length_append, List.length_singleton]
          omega)
      refine ⟨sta, tail, heq, ?_⟩
      rwa [List.append_assoc, List.singleton_append, ← List.replicate_succ] at hholds

/-- The destinations that are not 0 are the stores. -/
theorem filter_destinationMemory {i : OooInstr}
    (h : i.destinationMemory.length = numInstrDestinations) :
    i.destinationMemory.filter (· ≠ 0) = i.stores.map i.destinationAddress := by
  have hmap : i.destinationMemory = (List.range numInstrDestinations).map i.destinationAddress := by
    refine List.ext_getElem (by rw [List.length_map, List.length_range, h]) fun n hn _ => ?_
    rw [List.getElem_map, List.getElem_range]
    unfold OooInstr.destinationAddress
    rw [List.getElem?_eq_getElem hn]
    rfl
  conv_lhs => rw [hmap, List.filter_map]
  rfl

/-- The next instruction that is read. -/
theorem Pipelined.readInstr_eq (h : Pipelined records s) (hne : records ≠ []) {i : OooInstr}
    {f : TraceFile} (hi : s.file.readInstr = some (i, f)) :
    i = program records s.file.instrUniqueId ∧ f.instrUniqueId = s.file.instrUniqueId + 1 := by
  obtain ⟨ws, xs, ys, zs, h⟩ := h
  have hlast := readInstrs_succ h.read hi
  have hget := readInstrs_program hlast (Nat.lt_succ_self _) hne
  obtain ⟨is, f', hread, hlen, -⟩ :=
    (TraceFile.openTrace_at records).readInstrs hne s.file.instrUniqueId
  obtain rfl := (Prod.mk.inj (Option.some.inj (hread.symm.trans h.read))).1
  rw [← hlen, List.getElem?_concat_length] at hget
  rw [hlen] at hget
  exact ⟨Option.some.inj hget, (readInstr_spec hi).2.2⟩

/-- There is always room in `STA` for the stores of one instruction more. -/
theorem StoresInOrder.sta_room (h : StoresInOrder records s) (hne : records ≠ [])
    (hq : Stored records s Q W) :
    W.length + (program records s.file.instrUniqueId).stores.length ≤ staSize := by
  obtain ⟨w, is₀, is₁, hb⟩ := h.sound.board
  have hread := h.sound.pipelined.read_eq hne
  have hifetch := h.sound.pipelined.ifetch_le
  obtain ⟨ws, xs, ys, zs, hin⟩ := h.sound.pipelined
  have hrob : s.rob.occupancy ≤ robSize := hb.size ▸ hin.rob.occupancy ▸ hin.rob.le_size
  have hdecode : s.decodeBuffer.occupancy ≤ decodeWidth * 3 :=
    h.decodeSize ▸ hin.decode.occupancy ▸ hin.decode.le_size
  rw [h.ifetchSize] at hifetch
  have hall : (storesIn records s.numRetired s.file.instrUniqueId).length ≤
      numInstrDestinations * (s.file.instrUniqueId - s.numRetired) := length_storesIn (by omega)
  have hlast := length_stores (program records s.file.instrUniqueId)
  rw [← hq.split, List.length_append] at hall
  unfold numInstrDestinations at hall hlast
  unfold staSize
  unfold robSize at hrob ⊢
  unfold decodeWidth at hdecode
  unfold fetchWidth at hifetch
  omega

/-- **The stores of an instruction that is read** go to the end of `STA`. -/
theorem StoresInOrder.read (h : StoresInOrder records s) (hne : records ≠ [])
    (hdest : ∀ k, (program records k).destinationMemory.length = numInstrDestinations)
    {i : OooInstr} {f : TraceFile} (hi : s.file.readInstr = some (i, f)) {t : O3Cpu}
    (ht : (i.destinationMemory.filter (· ≠ 0)).foldl (fun s _ => updateSta i.instrId s)
      { s with file := f } = t)
    (hpipelined : Pipelined records (t.addToIfetchBuffer i)) :
    StoresInOrder records (t.addToIfetchBuffer i) := by
  obtain ⟨Q, W, hq⟩ := h.stored
  have hunissued := readInstr_unissued hi
  have hid := (readInstr_spec hi).1
  have hread := h.sound.pipelined.read_eq hne
  have hroom := h.sta_room hne hq
  obtain ⟨rfl, hnext⟩ := h.sound.pipelined.readInstr_eq hne hi
  have hlen : ((program records s.file.instrUniqueId).destinationMemory.filter (· ≠ 0)).length =
      (program records s.file.instrUniqueId).stores.length := by
    rw [filter_destinationMemory (hdest _), List.length_map]
  obtain ⟨sta, tail, heq, hholds⟩ := foldl_updateSta
    ((program records s.file.instrUniqueId).destinationMemory.filter (· ≠ 0))
    (program records s.file.instrUniqueId).instrId (t := { s with file := f }) hq.sta
    (by rwa [List.length_map, hlen])
  rw [heq] at ht
  subst ht
  have hfetching : Fetching s (O3Cpu.addToIfetchBuffer (program records s.file.instrUniqueId)
      { s with file := f, sta := sta, staTail := tail }) :=
    (fetching_front s).addToIfetchBuffer hunissued ⟨rfl, rfl, rfl, rfl, id, id, fun _ => id⟩
  refine ⟨.storing (s := { s with file := f, sta := sta, staTail := tail })
    ⟨⟨Q, W ++ storesIn records s.file.instrUniqueId f.instrUniqueId, ?_⟩, h.written, h.ifetchSize,
      h.decodeSize, h.fault⟩ ((storing_front _).addToIfetchBuffer hunissued (.refl _)),
    hfetching.sound hpipelined h.sound⟩
  refine ⟨?_, hq.first, hq.size, hq.ring, hq.occupancy, ?_, hq.marked, hq.complete⟩
  · rw [← List.append_assoc, hq.split]
    exact storesIn_append (by omega) (by omega)
  · have hids : (storesIn records s.file.instrUniqueId f.instrUniqueId).map
        (fun e => some e.instrId) =
        List.replicate (program records s.file.instrUniqueId).stores.length
          (some (program records s.file.instrUniqueId).instrId) := by
      rw [hnext, storesIn_single, List.map_map]
      exact List.map_eq_replicate_iff.mpr fun _ _ => rfl
    rw [List.map_append, hids, ← hlen]
    exact hholds

theorem readLoop_ordered (hne : records ≠ [])
    (hdest : ∀ k, (program records k).destinationMemory.length = numInstrDestinations)
    (predict : Nat → UInt8) (fuel numReads : Nat) {s s' : O3Cpu} (h : StoresInOrder records s)
    (hroom : s.ifetchBuffer.occupancy < s.ifetchBuffer.size)
    (hloop : readLoop predict fuel numReads s = some s') : StoresInOrder records s' := by
  induction fuel generalizing numReads s with
  | zero => exact absurd hloop (Option.some_ne_none s').symm
  | succ fuel ih =>
      obtain ⟨i, f, hi, t, ht, hbuf, -, hadded⟩ := h.sound.pipelined.readStep hne hroom
      have hread := h.read hne hdest hi ht hadded
      have hfront := fun {P : O3Cpu → Prop} (hP : FrontKeeps P) (hs : P (t.addToIfetchBuffer i)) =>
        hP.predictBranch t.ifetchBuffer.tail (predict i.instrId) hs
      have hpipelined : Pipelined records ((t.addToIfetchBuffer i).predictBranch
          t.ifetchBuffer.tail (predict i.instrId)) := predictBranch_pipelined hadded
      have hpredicted := hread.storing (hfront (storing_front _) (.refl _))
        ((hfront (fetching_front _) (.refl _)).sound hpipelined hread.sound)
      rw [readLoop, hi, Option.bind_some] at hloop
      dsimp only at hloop
      rw [ht, if_pos (by rw [hbuf]; exact hroom)] at hloop
      split at hloop
      · obtain rfl := Option.some.inj hloop
        exact hpredicted
      · rename_i hmore
        rw [not_or, not_le] at hmore
        exact ih (numReads + 1) hpredicted (lt_of_le_of_ne hpipelined.ifetch_le hmore.2) hloop

end Read

/-! ## Dispatch -/

section Dispatch

/-- None of the stores of an instruction that has not been issued is in the
queue. -/
theorem Marked.unissued {e : OooInstr} {head : Nat} (he : e.Unissued)
    (hnone : ∀ j, e.queued j ∉ Q) : Marked head Q e := by
  have hadded : e.destinationAdded = List.replicate numInstrDestinations false :=
    (congrArg OooInstr.destinationAdded he :)
  have hindex : e.sqIndex = List.replicate numInstrDestinations none :=
    (congrArg OooInstr.sqIndex he :)
  refine ⟨?_, ?_, fun j _ => ?_, fun j _ k hk => absurd (List.mem_of_getElem? hk) (hnone j),
    fun j _ => ?_⟩
  · rw [hadded]
    exact List.length_replicate
  · rw [hindex]
    exact List.length_replicate
  · rw [hadded, List.getElem?_replicate]
    refine iff_of_false ?_ (hnone j)
    split <;> exact Bool.false_ne_true
  · rw [hindex, List.getElem?_replicate]
    split <;> rfl

theorem dispatchOne_ordered (hne : records ≠ []) (h : StoresInOrder records s)
    (hip : (s.decodeBuffer.entryAt s.decodeBuffer.head).ip ≠ 0)
    (hroom : s.rob.occupancy < s.rob.size) :
    StoresInOrder records
      { s.addToRob (s.decodeBuffer.entryAt s.decodeBuffer.head) with
        decodeBuffer :=
          (s.addToRob (s.decodeBuffer.entryAt s.decodeBuffer.head)).decodeBuffer.pop } := by
  obtain ⟨Q, W, hq⟩ := h.stored
  have hsound := dispatchOne_sound h.sound hip hroom
  obtain ⟨ws, xs, ys, zs, hin⟩ := h.sound.pipelined
  rw [hin.addToRob_eq hip hroom] at hsound ⊢
  have hunissued : OooInstr.Unissued { s.decodeBuffer.entryAt s.decodeBuffer.head with
      eventCycle := s.currentCoreCycle } := (h.sound.decode.entryAt _).fetching rfl
  generalize { s.decodeBuffer.entryAt s.decodeBuffer.head with
    eventCycle := s.currentCoreCycle } = e at *
  have hlast : (s.rob.push e).nth s.rob.occupancy = e := hin.rob.push_nth_last
  have hid : e.instrId = s.numRetired + s.rob.occupancy := by
    have hpushed := hsound.pipelined.instrId hne (Nat.lt_succ_self s.rob.occupancy)
    change ((s.rob.push e).nth s.rob.occupancy).instrId = _ at hpushed
    rwa [hlast] at hpushed
  refine ⟨⟨⟨Q, W, hq.split, hq.first.trans ?_, hq.size, hq.ring, hq.occupancy, hq.sta,
    fun p hp => ?_, fun p hp hm hsc => ?_⟩, h.written, h.ifetchSize, h.decodeSize, h.fault⟩, hsound⟩
  · exact ⟨_, storesIn_append (Nat.le_add_right _ _) (Nat.le_succ _)⟩
  · change p < s.rob.occupancy + 1 at hp
    change Marked s.sq.head Q ((s.rob.push e).nth p)
    by_cases hp₀ : p = s.rob.occupancy
    · rw [hp₀, hlast]
      refine .unissued hunissued fun j hmem => ?_
      have hbound := (instrId_of_mem hne (hq.first.subset hmem)).2.1
      change e.instrId < _ at hbound
      omega
    · rw [hin.rob.push_nth hroom (by omega) hp₀]
      exact hq.marked p (by omega)
  · change p < s.rob.occupancy + 1 at hp
    change ((s.rob.push e).nth p).isMemory = true at hm
    change ((s.rob.push e).nth p).scheduled = .completed at hsc
    change ∀ j ∈ ((s.rob.push e).nth p).stores, ((s.rob.push e).nth p).queued j ∈ Q
    by_cases hp₀ : p = s.rob.occupancy
    · rw [hp₀, hlast, hunissued.fresh.2.2] at hsc
      exact Returned.noConfusion hsc
    · rw [hin.rob.push_nth hroom (by omega) hp₀] at hm hsc ⊢
      exact hq.complete p (by omega) hm hsc

theorem dispatch_ordered (hne : records ≠ []) (left : Nat) (h : StoresInOrder records s) :
    StoresInOrder records (s.dispatch left) := by
  induction left generalizing s with
  | zero => exact h
  | succ left ih =>
      unfold dispatch
      dsimp only
      split
      · exact h
      · rename_i hip
        split
        · rename_i hroom
          exact ih (dispatchOne_ordered hne h hip hroom.1)
        · exact h

end Dispatch

/-! ## Retirement -/

section Retire

/-- What the stores of an instruction write. -/
theorem writeStores_eq {e : OooInstr} (hdest : e.destinationMemory.length = numInstrDestinations)
    (hindex : e.sqIndex.length = numInstrDestinations) (s : O3Cpu) :
    s.writeStores e = { s with
      log := s.log ++ e.stores.map fun j =>
        .written (s.storePacket ((e.sqIndex[j]?.getD none).getD 0)) } := by
  have hzip : e.destinationMemory.zip e.sqIndex = (List.range numInstrDestinations).map fun j =>
      (e.destinationAddress j, e.sqIndex[j]?.getD none) := by
    refine List.ext_getElem (by simp [hdest, hindex]) fun n hn _ => ?_
    rw [List.length_zip, lt_min_iff] at hn
    rw [List.getElem_zip, List.getElem_map, List.getElem_range]
    unfold OooInstr.destinationAddress
    rw [List.getElem?_eq_getElem hn.1, List.getElem?_eq_getElem hn.2]
    rfl
  have hfold : ∀ (js : List Nat) (t : O3Cpu), t.sq = s.sq →
      js.foldl (fun t j => if e.destinationAddress j ≠ 0 then
        note (.written (storePacket t ((e.sqIndex[j]?.getD none).getD 0))) t else t) t = { t with
          log := t.log ++ (js.filter fun j => e.destinationAddress j ≠ 0).map fun j =>
            .written (s.storePacket ((e.sqIndex[j]?.getD none).getD 0)) } := by
    intro js
    induction js with
    | nil =>
        intro t _
        rw [List.foldl_nil, List.filter_nil, List.map_nil, List.append_nil]
    | cons j js ih =>
        intro t ht
        rw [List.foldl_cons, List.filter_cons]
        by_cases hj : e.destinationAddress j ≠ 0
        · have hpacket : ∀ k, storePacket t k = storePacket s k := by
            intro k
            unfold storePacket
            rw [ht]
          rw [if_pos hj, if_pos (decide_eq_true hj), hpacket, ih (note _ t) ht, List.map_cons]
          unfold note
          dsimp only
          rw [List.append_assoc, List.singleton_append]
        · rw [if_neg hj, if_neg (fun h => hj (of_decide_eq_true h)), ih t ht]
  unfold writeStores
  rw [hzip, List.foldl_map]
  exact hfold _ s rfl

theorem releaseStoreQueue_written (e : OooInstr) (s : O3Cpu) :
    (s.releaseStoreQueue e).written = s.written := by
  refine foldl_keeps (P := fun t => t.written = s.written) (fun t j _ ht => ?_) rfl
  cases j with
  | none => exact ht
  | some j => exact ht

theorem releaseRob_written (s : O3Cpu) : s.releaseRob.written = s.written :=
  (written_note _ s).trans (List.append_nil _)

/-- One cell of the store queue is given up. -/
def releaseSlot (s : O3Cpu) (j : Nat) : O3Cpu :=
  { s with
    sq := { s.sq with
      entry := s.sq.entry.set j {}
      occupancy := dec32 s.sq.occupancy
      head := if s.sq.head + 1 = s.sq.size then 0 else s.sq.head + 1 } }

theorem releaseStoreQueue_eq (e : OooInstr) (s : O3Cpu) :
    s.releaseStoreQueue e = e.sqIndex.reduceOption.foldl releaseSlot s := by
  unfold releaseStoreQueue
  induction e.sqIndex generalizing s with
  | nil => rfl
  | cons o os ih =>
      cases o with
      | none => exact ih s
      | some j => exact ih (releaseSlot s j)

/-- The cells of the first stores of the queue are given up. -/
theorem releaseSlots (S : List LsqEntry) {t : O3Cpu} (hsize : t.sq.size = sqSize)
    (h : Ring.Holds sqSize t.sq.head t.sq.tail (t.sq.entry.map LsqEntry.entered)
      (LsqEntry.entered {}) (S ++ Q)) (hocc : t.sq.occupancy = (S ++ Q).length) :
    ∃ entry, ((List.range S.length).map (Ring.cell sqSize t.sq.head)).foldl releaseSlot t = { t with
        sq := { t.sq with
          entry := entry, occupancy := Q.length, head := Ring.cell sqSize t.sq.head S.length } } ∧
      Ring.Holds sqSize (Ring.cell sqSize t.sq.head S.length) t.sq.tail
        (entry.map LsqEntry.entered) (LsqEntry.entered {}) Q := by
  induction S generalizing t with
  | nil =>
      rw [List.nil_append] at h hocc
      refine ⟨t.sq.entry, ?_, ?_⟩
      · rw [List.length_nil, List.range_zero, List.map_nil, List.foldl_nil,
          Ring.cell_zero h.head_lt, ← hocc]
      · rw [List.length_nil, Ring.cell_zero h.head_lt]
        exact h
  | cons x S ih =>
      have hlt := h.head_lt
      rw [List.cons_append] at h hocc
      rw [List.length_cons] at hocc ⊢
      have hfirst : releaseSlot t t.sq.head = { t with
          sq := { t.sq with
            entry := t.sq.entry.set t.sq.head {}
            occupancy := (S ++ Q).length
            head := Ring.advance sqSize t.sq.head } } := by
        unfold releaseSlot
        rw [hsize, advance_eq hlt, hocc]
        rfl
      have hpop := h.pop
      rw [← List.map_set] at hpop
      obtain ⟨entry, heq, hholds⟩ := ih (t := releaseSlot t t.sq.head)
        (by rw [hfirst]; exact hsize) (by rw [hfirst]; exact hpop) (by rw [hfirst])
      have hnext : ∀ r, Ring.cell sqSize (releaseSlot t t.sq.head).sq.head r =
          Ring.cell sqSize t.sq.head (r + 1) := by
        rw [hfirst]
        exact Ring.cell_advance hlt
      have hcells : (List.range (S.length + 1)).map (Ring.cell sqSize t.sq.head) =
          t.sq.head :: (List.range S.length).map
            (Ring.cell sqSize (releaseSlot t t.sq.head).sq.head) := by
        rw [List.range_succ_eq_map, List.map_cons, List.map_map, Ring.cell_zero hlt]
        exact congrArg _ (List.map_congr_left fun r _ => (hnext r).symm)
      rw [hnext] at heq hholds
      refine ⟨entry, ?_, ?_⟩
      · rw [hcells, List.foldl_cons, heq, hfirst]
      · rw [hfirst] at hholds
        exact hholds

/-- An instruction with a store accesses memory. -/
theorem isMemory_of_store (hne : records ≠ []) {k j : Nat}
    (hj : j ∈ (program records k).stores) : (program records k).isMemory = true := by
  obtain ⟨r, -, r', h⟩ := program_decode hne k
  obtain ⟨-, hstore⟩ := OooInstr.mem_stores.mp hj
  rw [h] at hstore ⊢
  have hget : r.destinationMemory[j]? ≠ none := by
    intro hnone
    refine hstore ?_
    change (r.destinationMemory[j]?).getD 0 = 0
    rw [hnone]
    rfl
  obtain ⟨d, hd⟩ := Option.ne_none_iff_exists'.mp hget
  have hd0 : d ≠ 0 := by
    change (r.destinationMemory[j]?).getD 0 ≠ 0 at hstore
    rwa [hd] at hstore
  have hpos : 0 < r.destinationMemory.countP (· ≠ 0) :=
    List.countP_pos_iff.mpr ⟨d, List.mem_of_getElem? hd, decide_eq_true hd0⟩
  exact decide_eq_true (Nat.add_pos_left hpos _)

/-- **All the stores of an instruction that completes** are at the head of the
store queue. -/
theorem Stored.front (hq : Stored records s Q W) (hs : Sound records s) (hne : records ≠ [])
    (hocc : 0 < s.rob.occupancy) (hdone : (s.rob.nth 0).executed = .completed) :
    ∃ Q', Q = storesIn records s.numRetired (s.numRetired + 1) ++ Q' := by
  obtain ⟨w, is₀, is₁, hb⟩ := hs.board
  obtain ⟨hstores, hqueued⟩ := hs.pipelined.stores hne hocc
  rw [Nat.add_zero] at hstores hqueued
  have hread := hs.pipelined.read_eq hne
  have hmem : ∀ x ∈ storesIn records s.numRetired (s.numRetired + 1), x ∈ Q := by
    intro x hx
    rw [storesIn_single] at hx
    obtain ⟨j, hj, rfl⟩ := List.mem_map.mp hx
    have hmemory : (s.rob.nth 0).isMemory = true := by
      rw [show (s.rob.nth 0).isMemory = (program records s.numRetired).isMemory from
        (congrArg OooInstr.isMemory (hs.pipelined.entry hne hocc) :)]
      exact isMemory_of_store hne hj
    rw [← hqueued]
    refine hq.complete 0 hocc hmemory ?_ j (hstores ▸ hj)
    refine (hb.scoreboard.flags.memory _ hmemory).mpr ?_
    rw [show (s.rob.entryAt (Ring.cell s.rob.size s.rob.head 0)).executed = .completed from hdone]
    exact Returned.noConfusion
  have hprefix : storesIn records s.numRetired (s.numRetired + 1) <+:
      storesIn records s.numRetired s.file.instrUniqueId :=
    ⟨_, storesIn_append (Nat.le_succ _) (by omega)⟩
  rcases List.prefix_or_prefix_of_prefix hprefix ⟨W, hq.split⟩ with ⟨Q', hQ'⟩ | ⟨T, hT⟩
  · exact ⟨Q', hQ'.symm⟩
  · -- what is behind the queue would be in the queue
    have hnodup := storesIn_nodup hne s.numRetired (s.numRetired + 1)
    rw [← hT] at hnodup hmem
    cases T with
    | nil => exact ⟨[], by rw [← hT, List.append_nil, List.append_nil]⟩
    | cons x T =>
        exact absurd rfl ((List.nodup_append.mp hnodup).2.2 x
          (hmem x (List.mem_append_right _ List.mem_cons_self)) x List.mem_cons_self)

/-- The stores of an instruction are the packets its cells make. -/
theorem Stored.packet (hq : Stored records s Q W) {p j : Nat} (hp : p < s.rob.occupancy)
    (hj : j ∈ (s.rob.nth p).stores) (hmem : (s.rob.nth p).queued j ∈ Q) :
    (s.storePacket (((s.rob.nth p).sqIndex[j]?.getD none).getD 0)).store =
      ((s.rob.nth p).queued j).store := by
  obtain ⟨k, hk⟩ := List.getElem?_of_mem hmem
  have hlive := hq.ring.live k (List.getElem?_eq_some_iff.mp hk).1
  rw [hk, List.getElem?_map] at hlive
  obtain ⟨x, hx, hentered⟩ := Option.map_eq_some_iff.mp hlive
  rw [(hq.marked p hp).place j hj k hk]
  unfold storePacket LoadStoreQueue.entryAt
  rw [Option.getD_some, hx]
  exact (congrArg LsqEntry.store hentered :)

/-- What is in the cells of an instruction whose stores are first. -/
theorem Marked.slots {e : OooInstr} {head : Nat}
    (h : Marked head (e.stores.map e.queued ++ Q) e) :
    e.sqIndex.reduceOption = (List.range e.stores.length).map (Ring.cell sqSize head) := by
  have hindex : e.sqIndex = (List.range numInstrDestinations).map fun j =>
      e.sqIndex[j]?.getD none := by
    refine List.ext_getElem (by rw [List.length_map, List.length_range, h.lengthIndex]) ?_
    intro n hn _
    rw [List.getElem_map, List.getElem_range, List.getElem?_eq_getElem hn]
    rfl
  have hstores : (List.range numInstrDestinations).filterMap (fun j => e.sqIndex[j]?.getD none) =
      e.stores.filterMap fun j => e.sqIndex[j]?.getD none := by
    rw [OooInstr.stores, List.filterMap_filter]
    refine List.filterMap_congr fun j hj => ?_
    by_cases hstore : e.destinationAddress j ≠ 0
    · rw [if_pos (decide_eq_true hstore)]
    · rw [if_neg fun h => hstore (of_decide_eq_true h)]
      exact h.blank j fun hmem => absurd (OooInstr.mem_stores.mp hmem).2 hstore
  have hcells : (e.stores.map fun j => e.sqIndex[j]?.getD none) =
      ((List.range e.stores.length).map (Ring.cell sqSize head)).map some := by
    refine List.ext_getElem (by simp only [List.length_map, List.length_range]) fun r hr _ => ?_
    rw [List.length_map] at hr
    rw [List.getElem_map, List.getElem_map, List.getElem_map, List.getElem_range]
    refine h.place _ (List.getElem_mem hr) r ?_
    rw [List.getElem?_append_left (by rwa [List.length_map]), List.getElem?_map,
      List.getElem?_eq_getElem hr]
    rfl
  conv_lhs => rw [hindex]
  change List.filterMap id _ = _
  rw [List.filterMap_map, Function.id_comp, hstores,
    ← Function.id_comp (fun j => e.sqIndex[j]?.getD none), ← List.filterMap_map, hcells,
    List.filterMap_map, Function.id_comp, List.filterMap_some]

/-- The first stores of the queue, which are others', have left it. -/
theorem Marked.drop {S : List LsqEntry} {e : OooInstr} {head : Nat} (h : Marked head (S ++ Q) e)
    (hS : ∀ j ∈ e.stores, e.queued j ∉ S) : Marked (Ring.cell sqSize head S.length) Q e where
  lengthAdded := h.lengthAdded
  lengthIndex := h.lengthIndex
  added j hj := by
    rw [h.added j hj, List.mem_append]
    exact or_iff_right (hS j hj)
  place j hj k hk := by
    rw [Ring.cell_cell]
    refine h.place j hj _ ?_
    rwa [List.getElem?_append_right (Nat.le_add_right _ _), Nat.add_sub_cancel_left]
  blank j hj := h.blank j fun hstore hmem =>
    (List.mem_append.mp hmem).elim (hS j hstore) (hj hstore)

/-- **An instruction that retires** writes its stores, which are the first ones
of the queue, and these leave the queue. -/
theorem retireOne_ordered (hne : records ≠ [])
    (hdest : ∀ k, (program records k).destinationMemory.length = numInstrDestinations)
    (h : StoresInOrder records s) (hip : (s.rob.entryAt s.rob.head).ip ≠ 0)
    (hdone : (s.rob.entryAt s.rob.head).executed = .completed) :
    StoresInOrder records (releaseRob (releaseStoreQueue (s.rob.entryAt s.rob.head)
      (writeStores (s.rob.entryAt s.rob.head) s))) := by
  have hsound := releaseRob_sound hne (releaseStoreQueue_sound (s.rob.entryAt s.rob.head)
    (writeStores_sound (s.rob.entryAt s.rob.head) h.sound))
    (by rwa [releaseStoreQueue_rob, writeStores_rob])
    (by rwa [releaseStoreQueue_rob, writeStores_rob])
  obtain ⟨Q₀, W, hq⟩ := h.stored
  obtain ⟨ws, xs, ys, zs, hin⟩ := h.sound.pipelined
  obtain ⟨xs, rfl⟩ := hin.rob.eq_cons hip
  have hlen := hin.rob.occupancy
  have hpop := hin.rob.pop.occupancy
  have hbound := hin.rob.le_size
  rw [List.length_cons] at hlen hbound
  have hocc : 0 < s.rob.occupancy := by omega
  have hhead : s.rob.nth 0 = s.rob.entryAt s.rob.head := by
    unfold CoreBuffer.nth
    rw [Ring.cell_zero hin.rob.ring.head_lt]
  rw [← hhead] at hdone hsound ⊢
  obtain ⟨Q, rfl⟩ := hq.front h.sound hne hocc hdone
  obtain ⟨hstores, hqueued⟩ := h.sound.pipelined.stores hne hocc
  have hread := h.sound.pipelined.read_eq hne
  rw [Nat.add_zero] at hstores hqueued
  have hS : storesIn records s.numRetired (s.numRetired + 1) =
      (s.rob.nth 0).stores.map (s.rob.nth 0).queued := by
    rw [storesIn_single, hstores]
    exact List.map_congr_left fun j _ => (hqueued j).symm
  have hmark := hq.marked 0 hocc
  have hwrite := writeStores_eq (e := s.rob.nth 0)
    ((congrArg (fun i => i.destinationMemory.length) (h.sound.pipelined.entry hne hocc)).trans
      (hdest _)) hmark.lengthIndex s
  rw [hS] at hmark
  have hwritten : (releaseRob (releaseStoreQueue (s.rob.nth 0)
      (writeStores (s.rob.nth 0) s))).written.map StorePacket.store =
      (storesIn records 0 (s.numRetired + 1)).map LsqEntry.store := by
    rw [releaseRob_written, releaseStoreQueue_written, hwrite,
      ← storesIn_append (Nat.zero_le _) (Nat.le_succ _), List.map_append, ← h.written]
    unfold O3Cpu.written
    rw [List.filterMap_append, List.map_append, List.filterMap_map, hS]
    refine congrArg _ ?_
    rw [show CoreEvent.writtenPacket ∘ (fun j => CoreEvent.written
      (s.storePacket (((s.rob.nth 0).sqIndex[j]?.getD none).getD 0))) = some ∘ fun j =>
        s.storePacket (((s.rob.nth 0).sqIndex[j]?.getD none).getD 0) from rfl,
      List.filterMap_eq_map, List.map_map, List.map_map]
    refine List.map_congr_left fun j hj => hq.packet hocc hj (List.mem_append_left _ ?_)
    rw [hS]
    exact List.mem_map_of_mem hj
  obtain ⟨entry, hslots, hring⟩ := releaseSlots (t := s.writeStores (s.rob.nth 0))
    (storesIn records s.numRetired (s.numRetired + 1)) (Q := Q)
    (by rw [hwrite]; exact hq.size) (by rw [hwrite]; exact hq.ring)
    (by rw [hwrite]; exact hq.occupancy)
  have hlength : (storesIn records s.numRetired (s.numRetired + 1)).length =
      (s.rob.nth 0).stores.length := by
    rw [hS, List.length_map]
  rw [releaseStoreQueue_eq, hmark.slots, ← hlength] at hsound hwritten ⊢
  rw [show s.sq.head = (s.writeStores (s.rob.nth 0)).sq.head by rw [hwrite]] at hsound hwritten ⊢
  rw [hslots, hwrite] at hsound hwritten ⊢
  rw [hwrite] at hring
  dsimp only at hring
  have hall : ∀ {n}, s.numRetired < n → storesIn records s.numRetired n =
      storesIn records s.numRetired (s.numRetired + 1) ++ storesIn records (s.numRetired + 1) n :=
    fun hn => (storesIn_append (Nat.le_succ _) hn).symm
  have hother : ∀ {p}, p < xs.length → ∀ j ∈ (s.rob.nth (p + 1)).stores,
      (s.rob.nth (p + 1)).queued j ∉ storesIn records s.numRetired (s.numRetired + 1) := by
    intro p hp j _ hmem
    have hid := h.sound.pipelined.instrId hne (p := p + 1) (by omega)
    have hlast := (instrId_of_mem hne hmem).2.1
    change (s.rob.nth (p + 1)).instrId < _ at hlast
    omega
  refine ⟨⟨⟨Q, W, ?_, ?_, hq.size, hring, rfl, hq.sta, fun p hp => ?_, fun p hp hm hsc j hj => ?_⟩,
    ?_, h.ifetchSize, h.decodeSize, h.fault⟩, hsound⟩
  · have hsplit := hq.split
    rw [hall (n := s.file.instrUniqueId) (by omega), List.append_assoc] at hsplit
    exact List.append_cancel_left hsplit
  · have hfirst := hq.first
    rw [hall (n := s.numRetired + s.rob.occupancy) (by omega), List.prefix_append_right_inj,
      hlen] at hfirst
    change Q <+: storesIn records (s.numRetired + 1) (s.numRetired + 1 + s.rob.pop.occupancy)
    rwa [hpop, Nat.add_assoc, Nat.add_comm 1]
  · change p < s.rob.pop.occupancy at hp
    rw [hpop] at hp
    change Marked _ Q (s.rob.pop.nth p)
    rw [hin.rob.pop_nth (by omega)]
    exact (hq.marked (p + 1) (by omega)).drop (hother hp)
  · change p < s.rob.pop.occupancy at hp
    rw [hpop] at hp
    change (s.rob.pop.nth p).isMemory = true at hm
    change (s.rob.pop.nth p).scheduled = .completed at hsc
    change j ∈ (s.rob.pop.nth p).stores at hj
    change (s.rob.pop.nth p).queued j ∈ Q
    rw [hin.rob.pop_nth (by omega)] at hm hsc hj ⊢
    have hmem := hq.complete (p + 1) (by omega) hm hsc j hj
    exact (List.mem_append.mp hmem).resolve_left (hother hp j hj)
  · exact hwritten

theorem retireFrom_ordered (hne : records ≠ [])
    (hdest : ∀ k, (program records k).destinationMemory.length = numInstrDestinations)
    (room : Nat → Bool) (left : Nat) (h : StoresInOrder records s) :
    StoresInOrder records (s.retireFrom room left) := by
  induction left generalizing s with
  | zero => exact h
  | succ left ih =>
      unfold retireFrom
      dsimp only
      split
      · exact h
      · rename_i hip
        split
        · exact h
        · rename_i hdone
          split
          · exact h
          · exact ih (retireOne_ordered hne hdest h hip (not_not.mp hdone))

end Retire

/-! ## A run -/

theorem init_ordered (records : List InputInstr) : StoresInOrder records (init records) where
  stored := by
    refine ⟨[], [], ?_, ?_, rfl, ?_, rfl, ?_, fun p hp => absurd hp (Nat.not_lt_zero p),
      fun p hp => absurd hp (Nat.not_lt_zero p)⟩
    · exact storesIn_self.symm
    · exact List.nil_prefix
    · have hnew : Ring.Holds sqSize 0 0 (List.replicate sqSize (LsqEntry.entered {})) _ [] :=
        Ring.holds_nil (by decide)
      rwa [← List.map_replicate] at hnew
    · exact Ring.holds_nil (by decide)
  written := by
    rw [show (init records).numRetired = 0 from rfl, storesIn_self]
    rfl
  ifetchSize := rfl
  decodeSize := rfl
  fault f hf := absurd hf (Option.some_ne_none f).symm
  sound := init_sound records

theorem step_ordered (hne : records ≠ [])
    (hdest : ∀ k, (program records k).destinationMemory.length = numInstrDestinations)
    (op : CoreOp) (h : StoresInOrder records s) :
    ∃ s', op.step s = some s' ∧ StoresInOrder records s' := by
  obtain ⟨s', hstep, hsound⟩ := step_sound hne op h.sound
  refine ⟨s', hstep, ?_⟩
  have hmemory := storing_memory s
  have hregisters := storing_registers s
  cases op with
  | tick | warmup | finishWarmup =>
      obtain rfl := Option.some.inj hstep
      exact h.storing (.of_eq rfl rfl rfl rfl rfl rfl rfl rfl rfl rfl fun _ _ => id) hsound
  | retireRob room =>
      obtain rfl := Option.some.inj hstep
      split
      · exact retireFrom_ordered hne hdest room retireWidth h
      · exact h
  | updateRob itlb l1i dtlb l1d =>
      obtain rfl := Option.some.inj hstep
      refine h.storing (hregisters.completeExecutions ?_) hsound
      have hfetched : ∀ isItTlb ip t, Storing s t → Storing s (completeInstrFetch isItTlb ip t) :=
        fun _ _ _ ht => (storing_front s).completeInstrFetch _ _ ht
      refine elim_keeps (fun pkt _ ht => hmemory.completeDataFetch _ pkt ht) ?_
      refine elim_keeps (fun pkt _ ht => hmemory.completeDataFetch _ pkt ht) ?_
      exact elim_keeps (hfetched false) (elim_keeps (hfetched true) (.refl s))
  | scheduleInstruction =>
      obtain rfl := Option.some.inj hstep
      refine h.storing ?_ hsound
      split
      · exact hregisters.scheduleInstruction (.refl s)
      · exact .refl s
  | executeInstruction =>
      obtain rfl := Option.some.inj hstep
      exact h.storing (hregisters.executeInstruction (.refl s)) hsound
  | scheduleMemoryInstruction =>
      obtain rfl := Option.some.inj hstep
      refine scheduleMemoryInstruction_keeps (fun t n ht => ?_)
        (fun _ i ht hm hr hsc => doMemoryScheduling_ordered hne i ht hm hr hsc) h
      exact ht.storing ((storing_memory t).searched n (.refl t))
        ((sound_memory records).searched n ht.sound)
  | operateLsq stores loads data =>
      obtain rfl := Option.some.inj hstep
      exact h.storing (hmemory.operateLsq stores loads data (.refl s)) hsound
  | decodeAndDispatch =>
      obtain rfl := Option.some.inj hstep
      split
      · rename_i hoccupied
        have hdispatched := dispatch_ordered hne decodeWidth h
        rw [if_pos hoccupied] at hsound
        exact hdispatched.storing ((storing_front _).payDecode _ _ _ (.refl _)) hsound
      · exact h
  | fetchInstruction itlb l1i =>
      obtain rfl := Option.some.inj hstep
      exact h.storing ((storing_front s).fetchInstruction itlb l1i (.refl s)) hsound
  | readFromTrace predict =>
      rw [CoreOp.step] at hstep
      split at hstep
      · rename_i hroom
        refine readLoop_ordered hne hdest predict fetchWidth 0
          (s := { s with instrsToReadThisCycle := fetchWidth }) ?_ hroom.1 hstep
        exact h.storing ((storing_front s).toRead fetchWidth (.refl s))
          (((fetching_front s).toRead fetchWidth (.refl s)).sound
            (h.sound.pipelined.frame rfl rfl (fun _ => id) rfl rfl rfl rfl) h.sound)
      · obtain rfl := Option.some.inj hstep
        exact h

/-- **The order of the stores.** Whatever calls are made, what has been written
is the stores of the instructions that have retired, each of them once, in
program order. The stores of the others are in the store queue, as far as they
have been added, and then in `STA`, in program order again; and no assertion on
either fails. -/
theorem store_order (hne : records ≠ [])
    (hdest : ∀ r ∈ records, r.destinationMemory.length = numInstrDestinations)
    (ops : List CoreOp) :
    ∃ s Q W, CoreOp.run ops (init records) = some s ∧
      s.written.map StorePacket.store = (storesIn records 0 s.numRetired).map LsqEntry.store ∧
      Q ++ W = storesIn records s.numRetired s.file.instrUniqueId ∧
      Ring.Holds sqSize s.sq.head s.sq.tail (s.sq.entry.map LsqEntry.entered)
        (LsqEntry.entered {}) Q ∧
      Ring.Holds staSize s.staHead s.staTail s.sta none (W.map fun e => some e.instrId) ∧
      s.fault ≠ some .sta ∧ s.fault ≠ some .storeQueue := by
  have hprogram : ∀ k, (program records k).destinationMemory.length = numInstrDestinations := by
    intro k
    obtain ⟨r, hr, r', h⟩ := program_decode hne k
    rw [h]
    exact hdest r hr
  obtain ⟨s, hrun, h⟩ := CoreOp.run_keeps (fun op _ hs => step_ordered hne hprogram op hs) ops
    (init_ordered records)
  obtain ⟨Q, W, hq⟩ := h.stored
  refine ⟨s, Q, W, hrun, h.written, hq.split, hq.ring, hq.sta, fun hf => ?_, fun hf => ?_⟩
  · exact Bool.false_ne_true (h.fault _ hf).symm
  · exact Bool.false_ne_true (h.fault _ hf).symm

/-- What the DTLB answers for the store of the chain. -/
def chainPacket : DataPacket :=
  { rfo := true, instrId := 3, robIndex := 3, lqIndex := 0, sqIndex := 0, dataPa := 7
    eventCycle := 5, storeMerged := false, loadMerged := false
    sqIndexDependOnMe := [], lqIndexDependOnMe := [] }

/-- The translation of the store is known in the fifth cycle; the store is
executed in the sixth, and written in the seventh. -/
def chainStore : List CoreOp :=
  chainCycles 4 ++ CoreOp.cycle 4 true (some chainPacket) ++ CoreOp.cycle 4 false none ++
    CoreOp.cycle 4 false none

theorem store_order_chain : ∃ s Q W, CoreOp.run chainStore (init chain) = some s ∧
    s.written.map StorePacket.store = (storesIn chain 0 s.numRetired).map LsqEntry.store ∧
    Q ++ W = storesIn chain s.numRetired s.file.instrUniqueId ∧
    Ring.Holds sqSize s.sq.head s.sq.tail (s.sq.entry.map LsqEntry.entered)
      (LsqEntry.entered {}) Q ∧
    Ring.Holds staSize s.staHead s.staTail s.sta none (W.map fun e => some e.instrId) ∧
    s.fault ≠ some .sta ∧ s.fault ≠ some .storeQueue ∧
    s.numRetired = 6 ∧ s.written.map StorePacket.store = [(3, 0, 12)] ∧ s.sq.occupancy = 5 := by
  obtain ⟨s, Q, W, hrun, hwritten, hsplit, hq, hw, hsta, hqueue⟩ := store_order
    chain_ne_nil
    (by decide : ∀ r ∈ chain, r.destinationMemory.length = numInstrDestinations) chainStore
  have hcheck : (CoreOp.run chainStore (init chain)).map (fun s =>
      (s.numRetired, s.written.map StorePacket.store, s.sq.occupancy)) =
        some (6, [(3, 0, 12)], 5) := by
    decide +kernel
  rw [hrun] at hcheck
  simp only [Option.map_some, Option.some.injEq, Prod.mk.injEq] at hcheck
  exact ⟨s, Q, W, hrun, hwritten, hsplit, hq, hw, hsta, hqueue, hcheck⟩

end O3Cpu

end DramCache
