import DramCache.Matching
import DramCache.Queues

/-!
# Banks and scheduled slots

A scheduled slot stands at the bank its address maps to, and the bank names
the slot: `Booked` says that the two agree, that a working bank is one with
a slot, and that the counters of scheduled requests are right. Scheduling
books a slot, a mode switch and a finished transfer release it, everything
else leaves the bookings as they are. It follows that no assertion fails:
`operate_books` and `processReadDone_books`.
-/

namespace DramCache

open Matching (Matched)

/-- A packet, up to the time of its next event. -/
def Packet.payload (p : Packet) : Packet := { p with eventCycle := 0 }

theorem dec32_add_one {n : Nat} (h : n ≠ 0) : dec32 n + 1 = n := by
  rw [dec32, if_neg h]
  omega

/-- The slot a bank works on. -/
def BankRequest.serving (r : BankRequest) : Option (QueueKind × Nat) :=
  r.requestIndex.map fun i => (if r.isWrite then .wq else .rq, i)

structure BankRequest.Coherent (tCAS : Nat) (r : BankRequest) : Prop where
  index : r.requestIndex.isSome = r.working
  write : r.isWrite = true → r.working = true
  read : r.isRead = (r.working && !r.isWrite)
  /-- `cycle_available - tCAS` does not wrap while it is of use. -/
  paid : r.working = true → tCAS ≤ r.cycleAvailable

theorem BankRequest.Coherent.serving_isSome {tCAS : Nat} {r : BankRequest}
    (h : r.Coherent tCAS) : r.serving.isSome = r.working := by
  rw [serving, Option.isSome_map, h.index]

/-- An idle bank serves no slot. -/
theorem BankRequest.Coherent.serving_none {tCAS : Nat} {r : BankRequest} (h : r.Coherent tCAS)
    (hidle : r.working = false) : r.serving = none := by
  rw [← Option.not_isSome_iff_eq_none, h.serving_isSome, hidle]
  simp

/-- What a bank that serves a slot has in its fields. -/
theorem BankRequest.Coherent.of_serving {tCAS : Nat} {r : BankRequest} {k : QueueKind} {i : Nat}
    (h : r.Coherent tCAS) (hs : r.serving = some (k, i)) :
    r.working = true ∧ r.requestIndex = some i ∧ r.isWrite = decide (k = .wq) ∧
      r.isRead = decide (k = .rq) := by
  have hw : r.working = true := by rw [← h.serving_isSome, hs]; rfl
  obtain ⟨j, hj, heq⟩ := Option.map_eq_some_iff.mp hs
  obtain ⟨hk, rfl⟩ := Prod.mk.inj heq
  have hr := h.read
  refine ⟨hw, hj, ?_, ?_⟩
  · cases hwr : r.isWrite <;> rw [hwr] at hk <;> subst hk <;> rfl
  · rw [hr, hw]
    cases hwr : r.isWrite <;> rw [hwr] at hk <;> subst hk <;> rfl

theorem serving_update (f : Nat → BankRequest) (b : Nat) (r : BankRequest) :
    (fun b' => (Function.update f b r b').serving)
      = Function.update (fun b' => (f b').serving) b r.serving :=
  Function.comp_update BankRequest.serving f b r

theorem coherent_update {f : Nat → BankRequest} {tCAS b : Nat} {r : BankRequest}
    (h : ∀ b', (f b').Coherent tCAS) (hr : r.Coherent tCAS) (b' : Nat) :
    (Function.update f b r b').Coherent tCAS := by
  by_cases hb : b' = b
  · subst hb
    rw [Function.update_self]
    exact hr
  · rw [Function.update_of_ne hb]
    exact h b'

namespace PacketQueue

theorem slotAt_set_self {q q' : PacketQueue} {i : Nat} {sl : Slot}
    (h : q'.entry = q.entry.set i sl) (hi : i < q.entry.length) : q'.slotAt i = sl := by
  rw [slotAt, h, List.getElem?_set_self hi]
  rfl

theorem slotAt_set_ne {q q' : PacketQueue} {i j : Nat} {sl : Slot}
    (h : q'.entry = q.entry.set i sl) (hij : i ≠ j) : q'.slotAt j = q.slotAt j := by
  rw [slotAt, h, List.getElem?_set_ne hij, slotAt]

theorem slotAt_congr {q q' : PacketQueue} (h : q'.entry = q.entry) (i : Nat) :
    q'.slotAt i = q.slotAt i := by
  rw [slotAt, h, slotAt]

/-- A used slot is within the array. -/
theorem lt_of_used {q : PacketQueue} {i : Nat} (h : (q.slotAt i).pkt.address ≠ 0) :
    i < q.entry.length := by
  by_contra hi
  rw [slotAt, List.getElem?_eq_none (not_lt.mp hi)] at h
  exact h rfl

theorem lt_of_scheduled {q : PacketQueue} {i : Nat} (h : (q.slotAt i).scheduled = true) :
    i < q.entry.length := by
  by_contra hi
  rw [slotAt, List.getElem?_eq_none (not_lt.mp hi)] at h
  cases h

theorem slotAt_mem {q : PacketQueue} {i : Nat} (hi : i < q.entry.length) :
    q.slotAt i ∈ q.entry := by
  rw [slotAt, List.getElem?_eq_getElem hi]
  exact List.getElem_mem hi

theorem Sane.used_of_scheduled {q : PacketQueue} (h : q.Sane) {i : Nat}
    (hs : (q.slotAt i).scheduled = true) : (q.slotAt i).pkt.address ≠ 0 :=
  h.scheduled _ (slotAt_mem (lt_of_scheduled hs)) hs

/-- The number of scheduled slots. -/
def scheduledCount (q : PacketQueue) : Nat := q.entry.countP (·.scheduled)

theorem scheduledCount_set {q q' : PacketQueue} {i : Nat} {sl : Slot}
    (h : q'.entry = q.entry.set i sl) (hi : i < q.entry.length) :
    q'.scheduledCount + (if (q.slotAt i).scheduled then 1 else 0)
      = q.scheduledCount + (if sl.scheduled then 1 else 0) := by
  have hget : q.slotAt i = q.entry[i] := by simp [slotAt, hi]
  have hle : (if q.entry[i].scheduled then 1 else 0) ≤ q.entry.countP (·.scheduled) := by
    split
    · rename_i hs
      exact List.countP_pos_iff.mpr ⟨_, List.getElem_mem hi, hs⟩
    · exact Nat.zero_le _
  rw [scheduledCount, h, List.countP_set hi, scheduledCount, hget]
  omega

theorem scheduledCount_congr {q q' : PacketQueue} (h : q'.entry = q.entry) :
    q'.scheduledCount = q.scheduledCount := by
  rw [scheduledCount, h, scheduledCount]

theorem scheduledCount_eq_zero {q : PacketQueue} (h : ∀ i, (q.slotAt i).scheduled = false) :
    q.scheduledCount = 0 := by
  refine List.countP_eq_zero.mpr fun sl hsl => ?_
  obtain ⟨i, hi, rfl⟩ := List.getElem_of_mem hsl
  have := h i
  simp [slotAt, hi] at this
  simp [this]

end PacketQueue

namespace MemoryController

/-- Where a slot is placed: the bank of its address, while it is scheduled. -/
def placed (mc : MemoryController) (x : QueueKind × Nat) : Option Nat :=
  if ((mc.queue x.1).slotAt x.2).scheduled then
    some (dramGetBank ((mc.queue x.1).slotAt x.2).pkt.address)
  else none

/-- `scheduled_reads` and `scheduled_writes`. -/
def scheduledIn (mc : MemoryController) : QueueKind → Nat
  | .rq => mc.scheduledReads
  | .wq => mc.scheduledWrites

structure Booked (mc : MemoryController) : Prop where
  matched : Matched mc.placed fun b => (mc.bankRequest b).serving
  coherent : ∀ b, (mc.bankRequest b).Coherent mc.tCAS
  counts : ∀ k, mc.scheduledIn k = (mc.queue k).scheduledCount

/-- Only slot `i` of queue `k` changes. -/
structure SetsSlot (mc mc' : MemoryController) (k : QueueKind) (i : Nat) (sl : Slot) : Prop where
  hit : (mc'.queue k).entry = (mc.queue k).entry.set i sl
  miss : ∀ k', k' ≠ k → (mc'.queue k').entry = (mc.queue k').entry

/-- One queue is replaced by one with the slot set. -/
theorem SetsSlot.of_setQueue {mc mc' : MemoryController} {k : QueueKind} {i : Nat} {sl : Slot}
    {q : PacketQueue} (hrq : mc'.rq = mc.rq) (hwq : mc'.wq = mc.wq)
    (hq : q.entry = (mc.queue k).entry.set i sl) : SetsSlot mc (mc'.setQueue k q) k i sl := by
  cases k with
  | rq => exact ⟨hq, fun k' hk => by cases k' <;> [exact absurd rfl hk; exact congrArg _ hwq]⟩
  | wq => exact ⟨hq, fun k' hk => by cases k' <;> [exact congrArg _ hrq; exact absurd rfl hk]⟩

section Set

variable {mc mc' : MemoryController} {k : QueueKind} {i : Nat} {sl : Slot}

theorem SetsSlot.other (h : SetsSlot mc mc' k i sl) {k' : QueueKind} {j : Nat}
    (hne : (k', j) ≠ (k, i)) : (mc'.queue k').slotAt j = (mc.queue k').slotAt j := by
  by_cases hk : k' = k
  · subst hk
    exact PacketQueue.slotAt_set_ne h.hit fun hij => hne (by rw [hij])
  · rw [PacketQueue.slotAt, h.miss k' hk, PacketQueue.slotAt]

theorem SetsSlot.self (h : SetsSlot mc mc' k i sl) (hi : i < (mc.queue k).entry.length) :
    (mc'.queue k).slotAt i = sl := PacketQueue.slotAt_set_self h.hit hi

theorem SetsSlot.placed (h : SetsSlot mc mc' k i sl) (hi : i < (mc.queue k).entry.length) :
    mc'.placed = Function.update mc.placed (k, i)
      (if sl.scheduled then some (dramGetBank sl.pkt.address) else none) := by
  funext x
  by_cases hx : x = (k, i)
  · subst hx
    rw [Function.update_self, MemoryController.placed, h.self hi]
  · rw [Function.update_of_ne hx, MemoryController.placed, MemoryController.placed,
      h.other hx]

theorem SetsSlot.scheduledCount (h : SetsSlot mc mc' k i sl)
    (hi : i < (mc.queue k).entry.length) (k' : QueueKind) :
    (mc'.queue k').scheduledCount
        + (if k' = k ∧ ((mc.queue k).slotAt i).scheduled = true then 1 else 0)
      = (mc.queue k').scheduledCount + (if k' = k ∧ sl.scheduled = true then 1 else 0) := by
  by_cases hk : k' = k
  · subst hk
    simpa using PacketQueue.scheduledCount_set h.hit hi
  · simp [hk, PacketQueue.scheduledCount_congr (h.miss k' hk)]

/-- A slot is booked at an idle bank. -/
theorem Booked.book (h : mc.Booked) (hset : SetsSlot mc mc' k i sl)
    (hi : i < (mc.queue k).entry.length)
    (hfree : ((mc.queue k).slotAt i).scheduled = false) (hsl : sl.scheduled = true) {r : BankRequest}
    (hidle : (mc.bankRequest (dramGetBank sl.pkt.address)).working = false)
    (hbank : mc'.bankRequest = Function.update mc.bankRequest (dramGetBank sl.pkt.address) r)
    (htCAS : mc'.tCAS = mc.tCAS) (hr : r.serving = some (k, i)) (hcoh : r.Coherent mc.tCAS)
    (hcount : ∀ k', mc'.scheduledIn k' = mc.scheduledIn k' + if k' = k then 1 else 0) :
    mc'.Booked := by
  refine ⟨?_, ?_, ?_⟩
  · have hplaced : mc.placed (k, i) = none := by simp [MemoryController.placed, hfree]
    rw [hset.placed hi, if_pos hsl, hbank, serving_update, hr]
    exact h.matched.assign hplaced ((h.coherent _).serving_none hidle)
  · rw [hbank, htCAS]
    exact coherent_update h.coherent hcoh
  · intro k'
    have := hset.scheduledCount hi k'
    simp only [hfree, hsl, and_true, and_false, Bool.false_eq_true, if_false] at this
    rw [hcount, h.counts]
    exact this.symm

/-- A slot is released and its bank idle. -/
theorem Booked.release (h : mc.Booked) (hset : SetsSlot mc mc' k i sl)
    (hs : ((mc.queue k).slotAt i).scheduled = true) (hsl : sl.scheduled = false) {b : Nat}
    (hb : dramGetBank ((mc.queue k).slotAt i).pkt.address = b) {r : BankRequest}
    (hbank : mc'.bankRequest = Function.update mc.bankRequest b r)
    (htCAS : mc'.tCAS = mc.tCAS) (hr : r.serving = none) (hcoh : r.Coherent mc.tCAS)
    (hcount : ∀ k', mc'.scheduledIn k' + (if k' = k then 1 else 0) = mc.scheduledIn k') :
    mc'.Booked := by
  have hi := PacketQueue.lt_of_scheduled hs
  refine ⟨?_, ?_, ?_⟩
  · have hplaced : mc.placed (k, i) = some b := by simp [MemoryController.placed, hs, hb]
    rw [hset.placed hi, hsl, if_neg Bool.false_ne_true, hbank, serving_update, hr]
    exact h.matched.release hplaced
  · rw [hbank, htCAS]
    exact coherent_update h.coherent hcoh
  · intro k'
    have hc := hset.scheduledCount hi k'
    simp only [hs, hsl, and_true, and_false, Bool.false_eq_true, if_false] at hc
    have := hcount k'
    have := h.counts k'
    omega

/-- A slot changes, but not what of it is booked. -/
theorem Booked.touch (h : mc.Booked) (hset : SetsSlot mc mc' k i sl)
    (hi : i < (mc.queue k).entry.length)
    (hs : sl.scheduled = ((mc.queue k).slotAt i).scheduled)
    (hline : sl.scheduled = true → sl.pkt.address = ((mc.queue k).slotAt i).pkt.address)
    (hbank : mc'.bankRequest = mc.bankRequest) (htCAS : mc'.tCAS = mc.tCAS)
    (hcount : ∀ k', mc'.scheduledIn k' = mc.scheduledIn k') : mc'.Booked := by
  refine ⟨?_, ?_, ?_⟩
  · have hplaced : mc'.placed = mc.placed := by
      rw [hset.placed hi]
      refine Function.update_eq_iff.mpr ⟨?_, fun _ _ => rfl⟩
      rw [MemoryController.placed, ← hs]
      split
      · rename_i hsl
        rw [hline hsl]
      · rfl
    rw [hplaced, hbank]
    exact h.matched
  · rw [hbank, htCAS]
    exact h.coherent
  · intro k'
    have hc := hset.scheduledCount hi k'
    rw [← hs] at hc
    rw [hcount, h.counts]
    omega

end Set

/-! ## What a step leaves alone -/

/-- What stands in a slot, up to the time of its next event. -/
def content (mc : MemoryController) (x : QueueKind × Nat) : Packet :=
  ((mc.queue x.1).slotAt x.2).pkt.payload

/-- No slot of a queue is scheduled. -/
def Quiet (mc : MemoryController) (k : QueueKind) : Prop :=
  ∀ i, ((mc.queue k).slotAt i).scheduled = false

/-- The queue that is not served. -/
def offQueue (mc : MemoryController) : QueueKind := if mc.writeMode then .rq else .wq

/-- Banks and slots agree, and only the queue being served is scheduled. -/
structure InStep (mc : MemoryController) : Prop extends mc.Booked where
  mode : mc.Quiet mc.offQueue

theorem Quiet.of_entry {mc mc' : MemoryController} {k : QueueKind} (h : mc.Quiet k)
    (heq : (mc'.queue k).entry = (mc.queue k).entry) : mc'.Quiet k := by
  intro i
  rw [PacketQueue.slotAt_congr heq]
  exact h i

theorem content_of_entry {mc mc' : MemoryController}
    (h : ∀ k, (mc'.queue k).entry = (mc.queue k).entry) : mc'.content = mc.content := by
  funext x
  rw [content, PacketQueue.slotAt_congr (h _), content]

theorem SetsSlot.content {mc mc' : MemoryController} {k : QueueKind} {i : Nat} {sl : Slot}
    (h : SetsSlot mc mc' k i sl) (hi : i < (mc.queue k).entry.length) :
    mc'.content = Function.update mc.content (k, i) sl.pkt.payload := by
  funext x
  by_cases hx : x = (k, i)
  · subst hx
    rw [Function.update_self, MemoryController.content, h.self hi]
  · rw [Function.update_of_ne hx, MemoryController.content, MemoryController.content, h.other hx]

/-- A slot changes, but not its content. -/
theorem SetsSlot.content_eq {mc mc' : MemoryController} {k : QueueKind} {i : Nat} {sl : Slot}
    (h : SetsSlot mc mc' k i sl) (hi : i < (mc.queue k).entry.length)
    (hsl : sl.pkt.payload = ((mc.queue k).slotAt i).pkt.payload) : mc'.content = mc.content := by
  rw [h.content hi]
  exact Function.update_eq_iff.mpr ⟨hsl, fun _ _ => rfl⟩

/-- The entries of the queues stay as they are. -/
theorem Booked.of_entry {mc mc' : MemoryController} (h : mc.Booked)
    (hentry : ∀ k, (mc'.queue k).entry = (mc.queue k).entry)
    (hserving : ∀ b, (mc'.bankRequest b).serving = (mc.bankRequest b).serving)
    (hcoherent : ∀ b, (mc'.bankRequest b).Coherent mc'.tCAS)
    (hcount : ∀ k, mc'.scheduledIn k = mc.scheduledIn k) : mc'.Booked := by
  refine ⟨?_, hcoherent, ?_⟩
  · have hplaced : mc'.placed = mc.placed := by
      funext x
      rw [MemoryController.placed, PacketQueue.slotAt_congr (hentry _), MemoryController.placed]
    have hbank : (fun b => (mc'.bankRequest b).serving) = fun b => (mc.bankRequest b).serving :=
      funext hserving
    rw [hplaced, hbank]
    exact h.matched
  · intro k
    rw [hcount, h.counts, PacketQueue.scheduledCount_congr (hentry k)]

/-- What a scheduled slot's bank has in its fields. -/
theorem Booked.bank {mc : MemoryController} (h : mc.Booked) {k : QueueKind} {i : Nat}
    (hs : ((mc.queue k).slotAt i).scheduled = true) {r : BankRequest}
    (hr : mc.bankRequest (dramGetBank ((mc.queue k).slotAt i).pkt.address) = r) :
    r.working = true ∧ r.requestIndex = some i ∧ r.isWrite = decide (k = .wq) ∧
      r.isRead = decide (k = .rq) ∧ mc.tCAS ≤ r.cycleAvailable := by
  have hplaced : mc.placed (k, i) = some (dramGetBank ((mc.queue k).slotAt i).pkt.address) := by
    simp [MemoryController.placed, hs]
  have hserving := (h.matched _ _).mp hplaced
  subst hr
  obtain ⟨hw, hidx, hwr, hrd⟩ := (h.coherent _).of_serving hserving
  exact ⟨hw, hidx, hwr, hrd, (h.coherent _).paid hw⟩

/-- A scheduled slot is of the queue being served. -/
theorem InStep.served {mc : MemoryController} (h : mc.InStep) {k : QueueKind} {i : Nat}
    (hs : ((mc.queue k).slotAt i).scheduled = true) : mc.offQueue ≠ k := by
  rintro rfl
  rw [h.mode i] at hs
  cases hs

/-- A slot of the queue being served changes. -/
theorem InStep.of_set {mc mc' : MemoryController} (h : mc.InStep) (hb : mc'.Booked)
    {k : QueueKind} {i : Nat} {sl : Slot} (hset : SetsSlot mc mc' k i sl)
    (hk : mc.offQueue ≠ k) (hmode : mc'.writeMode = mc.writeMode) : mc'.InStep := by
  refine ⟨hb, ?_⟩
  rw [offQueue, hmode, ← offQueue]
  exact h.mode.of_entry (hset.miss _ hk)

/-! ## Mode switches -/

/-- A step that unschedules slots of one queue. -/
structure Unschedules (k : QueueKind) (mc mc' : MemoryController) : Prop where
  booked : mc.Booked → mc'.Booked
  quiet : ∀ i, ((mc.queue k).slotAt i).scheduled = false →
    ((mc'.queue k).slotAt i).scheduled = false
  other : ∀ k', k' ≠ k → (mc'.queue k').entry = (mc.queue k').entry
  content : mc'.content = mc.content
  length : (mc'.queue k).entry.length = (mc.queue k).entry.length
  writeMode : mc'.writeMode = mc.writeMode

theorem Unschedules.refl (k : QueueKind) (mc : MemoryController) : Unschedules k mc mc :=
  ⟨id, fun _ h => h, fun _ _ => rfl, rfl, rfl, rfl⟩

theorem Unschedules.trans {k : QueueKind} {mc₁ mc₂ mc₃ : MemoryController}
    (h₁ : Unschedules k mc₁ mc₂) (h₂ : Unschedules k mc₂ mc₃) : Unschedules k mc₁ mc₃ :=
  ⟨fun hb => h₂.booked (h₁.booked hb), fun i hi => h₂.quiet i (h₁.quiet i hi),
    fun k' hk => (h₂.other k' hk).trans (h₁.other k' hk), h₂.content.trans h₁.content,
    h₂.length.trans h₁.length, h₂.writeMode.trans h₁.writeMode⟩

/-- A scheduled slot is released, an unscheduled one left alone. -/
theorem resetSlot_unschedules {mc : MemoryController} (h : mc.Booked) (clk : Clock)
    (k : QueueKind) (i : Nat) : Unschedules k mc (mc.resetSlot clk k i) ∧
      (((mc.resetSlot clk k i).queue k).slotAt i).scheduled = false := by
  by_cases hs : ((mc.queue k).slotAt i).scheduled = true
  swap
  · have heq : mc.resetSlot clk k i = mc := by
      unfold resetSlot
      exact if_neg hs
    rw [heq]
    exact ⟨.refl k mc, by simpa using hs⟩
  have hi := PacketQueue.lt_of_scheduled hs
  obtain ⟨hw, -, hwr, hrd, -⟩ := h.bank hs rfl
  have hpos : mc.scheduledIn k ≠ 0 := by
    rw [h.counts]
    exact (List.countP_pos_iff.mpr ⟨_, PacketQueue.slotAt_mem hi, hs⟩).ne'
  -- the bank is the slot's own, so the counter of its own queue is decremented
  have hrelease : ∀ (mc₁ : MemoryController) (r : BankRequest) (now : Nat),
      mc₁.rq = mc.rq → mc₁.wq = mc.wq → mc₁.tCAS = mc.tCAS → mc₁.writeMode = mc.writeMode →
      mc₁.bankRequest = Function.update mc.bankRequest
        (dramGetBank ((mc.queue k).slotAt i).pkt.address) r →
      r.requestIndex = none → r.working = false → r.isWrite = false → r.isRead = false →
      (∀ k', mc₁.scheduledIn k' + (if k' = k then 1 else 0) = mc.scheduledIn k') →
      let sl : Slot :=
        { pkt := { ((mc.queue k).slotAt i).pkt with eventCycle := now }, scheduled := false }
      let mc' := mc₁.setQueue k ((mc₁.queue k).setSlot i sl)
      Unschedules k mc mc' ∧ ((mc'.queue k).slotAt i).scheduled = false := by
    intro mc₁ r now hrq hwq htCAS hmode hbank hidx hidle hw' hr' hcount sl mc'
    have hentry : ((mc₁.queue k).setSlot i sl).entry = (mc.queue k).entry.set i sl := by
      cases k
      · exact congrArg (fun q : PacketQueue => q.entry.set i sl) hrq
      · exact congrArg (fun q : PacketQueue => q.entry.set i sl) hwq
    have hset : SetsSlot mc mc' k i sl := .of_setQueue hrq hwq hentry
    have hslot : (mc'.queue k).slotAt i = sl := hset.self hi
    refine ⟨⟨fun _ => ?_, ?_, hset.miss, hset.content_eq hi rfl, ?_, ?_⟩, by rw [hslot]⟩
    · refine h.release hset hs rfl rfl (r := r) ?_ ?_ (by rw [BankRequest.serving, hidx]; rfl)
        ⟨by rw [hidx, hidle]; rfl, by simp [hw'], by simp [hr', hidle], by simp [hidle]⟩ ?_
      · cases k <;> exact hbank
      · cases k <;> exact htCAS
      · cases k <;> exact hcount
    · intro j hj
      by_cases hij : i = j
      · rw [← hij, hslot]
      · rw [hset.other fun heq => hij (Prod.mk.inj heq).2.symm]
        exact hj
    · rw [hset.hit, List.length_set]
    · cases k <;> exact hmode
  unfold resetSlot
  dsimp only
  rw [if_pos hs, hwr]
  cases k with
  | rq =>
      rw [if_neg (by decide), hrd, if_pos (by decide)]
      refine hrelease _ _ _ rfl rfl rfl rfl rfl rfl rfl rfl rfl fun k' => ?_
      cases k'
      · exact dec32_add_one hpos
      · rfl
  | wq =>
      rw [if_pos (by decide)]
      refine hrelease _ _ _ rfl rfl rfl rfl rfl rfl rfl rfl hrd fun k' => ?_
      cases k'
      · rfl
      · exact dec32_add_one hpos

theorem foldl_resetSlot_unschedules (clk : Clock) (k : QueueKind) (is : List Nat) :
    ∀ {mc : MemoryController}, mc.Booked → Unschedules k mc (is.foldl (resetSlot clk k) mc) ∧
      ∀ i ∈ is, (((is.foldl (resetSlot clk k) mc).queue k).slotAt i).scheduled = false := by
  induction is with
  | nil => exact fun _ => ⟨.refl _ _, by simp⟩
  | cons i is ih =>
      intro mc h
      obtain ⟨hstep, hi⟩ := resetSlot_unschedules h clk k i
      obtain ⟨hrest, his⟩ := ih (hstep.booked h)
      refine ⟨hstep.trans hrest, fun j hj => ?_⟩
      rcases List.mem_cons.mp hj with rfl | hj
      · exact hrest.quiet j hi
      · exact his j hj

/-- A reset releases every slot of its queue, so its assertion holds. -/
theorem resetRemainRequests_books {mc : MemoryController} (h : mc.Booked) (clk : Clock)
    (k : QueueKind) (hlen : (mc.queue k).entry.length = (mc.queue k).size) :
    ∃ mc', mc.resetRemainRequests clk k = .ok mc' ∧ mc'.Booked ∧ (∀ k', k' = k ∨ mc.Quiet k' →
      mc'.Quiet k') ∧ mc'.content = mc.content ∧ mc'.writeMode = mc.writeMode := by
  obtain ⟨hun, hall⟩ := foldl_resetSlot_unschedules clk k (List.range (mc.queue k).size) h
  set mc₁ := (List.range (mc.queue k).size).foldl (resetSlot clk k) mc
  let mc₂ : MemoryController :=
    { mc₁ with
      rq := mc₁.rq.updateScheduleCycle.updateProcessCycle
      wq := mc₁.wq.updateScheduleCycle.updateProcessCycle }
  have hentry : ∀ k, (mc₂.queue k).entry = (mc₁.queue k).entry := fun k => by cases k <;> rfl
  have hbooked : mc₂.Booked := (hun.booked h).of_entry hentry (fun _ => rfl)
    (hun.booked h).coherent fun k => by cases k <;> rfl
  have hquiet : mc₂.Quiet k := by
    refine Quiet.of_entry (fun i => ?_) (hentry k)
    by_cases hi : i < (mc.queue k).size
    · exact hall i (List.mem_range.mpr hi)
    · rw [PacketQueue.slotAt, List.getElem?_eq_none (by rw [hun.length, hlen]; omega)]
      rfl
  have hzero : mc₂.scheduledIn k = 0 := by
    rw [hbooked.counts]
    exact PacketQueue.scheduledCount_eq_zero hquiet
  refine ⟨mc₂, ?_, hbooked, ?_, (content_of_entry hentry).trans hun.content, hun.writeMode⟩
  · cases k
    · exact if_neg (not_not.mpr hzero)
    · exact if_neg (not_not.mpr hzero)
  · rintro k' hk'
    by_cases hk : k' = k
    · exact hk ▸ hquiet
    · exact (hk'.resolve_left hk).of_entry ((hentry k').trans (hun.other k' hk))

/-- The switch leaves only the queue of the new mode to be scheduled. -/
theorem switchMode_books {mc : MemoryController} (h : mc.InStep) (hs : mc.Sane) (clk : Clock) :
    ∃ mc', mc.switchMode clk = .ok mc' ∧ mc'.InStep ∧ mc'.content = mc.content := by
  -- either way the queue served so far is reset, and the other was quiet
  have hswitch : ∀ (k : QueueKind) (b : Bool) (f : MemoryController → MemoryController),
      mc.offQueue ≠ k → (if b then QueueKind.rq else .wq) = k →
      (∀ mc : MemoryController, mc.Booked → (f mc).Booked) →
      (∀ mc k, (f mc).queue k = queue mc k) → (∀ mc, (f mc).writeMode = mc.writeMode) →
      ∃ mc', (resetRemainRequests clk k { mc with writeMode := b }).map f = .ok mc' ∧
        mc'.InStep ∧ mc'.content = mc.content := by
    intro k b f hoff hb hf hfq hfm
    have hbooked : ({ mc with writeMode := b } : MemoryController).Booked :=
      h.toBooked.of_entry (fun k => by cases k <;> rfl) (fun _ => rfl) h.coherent
        fun k => by cases k <;> rfl
    have hlen : ((({ mc with writeMode := b } : MemoryController).queue k).entry).length
        = (({ mc with writeMode := b } : MemoryController).queue k).size := by
      cases k
      · exact hs.rq.length
      · exact hs.wq.length
    obtain ⟨mc', hr, hbk, hquiet, hcontent, hmode⟩ := resetRemainRequests_books hbooked clk k hlen
    have hentry : ∀ k, ((f mc').queue k).entry = (mc'.queue k).entry := fun k => by rw [hfq]
    refine ⟨f mc', by rw [hr]; rfl, ⟨hf mc' hbk, ?_⟩, ?_⟩
    · have hoff' : (f mc').offQueue = k := by
        rw [offQueue, hfm, hmode]
        exact hb
      rw [hoff']
      exact (hquiet k (.inl rfl)).of_entry (hentry k)
    · rw [content_of_entry hentry, hcontent]
      exact content_of_entry fun k => by cases k <;> rfl
  unfold switchMode
  dsimp only
  split
  · rename_i hc
    have hmode : mc.writeMode = false := by
      simp only [Bool.and_eq_true, Bool.not_eq_true'] at hc
      exact hc.1
    refine hswitch .rq true _ (by rw [offQueue, hmode]; decide) rfl ?_ ?_ ?_
    · exact fun mc hmc => ⟨hmc.matched, hmc.coherent, hmc.counts⟩
    · exact fun mc k => by cases k <;> rfl
    · exact fun mc => rfl
  · split
    · rename_i hc
      have hmode : mc.writeMode = true := (Bool.and_eq_true_iff.mp hc).1
      refine hswitch .wq false _ (by rw [offQueue, hmode]; decide) rfl ?_ ?_ ?_
      · exact fun mc hmc => ⟨hmc.matched, hmc.coherent, hmc.counts⟩
      · exact fun mc k => by cases k <;> rfl
      · exact fun mc => rfl
    · exact ⟨mc, rfl, h, rfl⟩

/-! ## Scheduling -/

/-- A scheduled slot is booked at its bank. -/
theorem schedule_books {mc : MemoryController} (h : mc.InStep) (clk : Clock) {k : QueueKind}
    (hk : mc.offQueue ≠ k) : (mc.schedule clk k).InStep ∧
      (mc.schedule clk k).content = mc.content ∧
      (mc.schedule clk k).writeMode = mc.writeMode := by
  by_cases hlt : mc.scheduleSlot (mc.queue k) < (mc.queue k).size
  swap
  · have heq : mc.schedule clk k = mc := by
      unfold schedule
      exact if_neg hlt
    rw [heq]
    exact ⟨h, rfl, rfl⟩
  obtain ⟨hfree, hused, hidle⟩ := schedulable_iff.mp (scheduleSlot_schedulable hlt)
  have hi := PacketQueue.lt_of_used hused
  have hbook : ∀ (mc₁ : MemoryController) (q : PacketQueue) (done : Nat) (r : BankRequest),
      mc₁.rq = mc.rq → mc₁.wq = mc.wq → mc₁.tCAS = mc.tCAS → mc₁.writeMode = mc.writeMode →
      mc₁.bankRequest = Function.update mc.bankRequest
        (dramGetBank ((mc.queue k).slotAt (mc.scheduleSlot (mc.queue k))).pkt.address) r →
      r.serving = some (k, mc.scheduleSlot (mc.queue k)) → r.Coherent mc.tCAS →
      (∀ k', mc₁.scheduledIn k' = mc.scheduledIn k' + if k' = k then 1 else 0) →
      q.entry = (mc.queue k).entry.set (mc.scheduleSlot (mc.queue k))
        { pkt := { ((mc.queue k).slotAt (mc.scheduleSlot (mc.queue k))).pkt with
            eventCycle := done }, scheduled := true } →
      (mc₁.setQueue k q).InStep ∧ (mc₁.setQueue k q).content = mc.content ∧
        (mc₁.setQueue k q).writeMode = mc.writeMode := by
    intro mc₁ q done r hrq hwq htCAS hmode hbank hserving hcoh hcount hentry
    have hset := SetsSlot.of_setQueue hrq hwq hentry
    have hmode' : (mc₁.setQueue k q).writeMode = mc.writeMode := by cases k <;> exact hmode
    refine ⟨h.of_set (h.toBooked.book hset hi hfree rfl (r := r) hidle ?_ ?_ hserving hcoh ?_)
      hset hk hmode', hset.content_eq hi rfl, hmode'⟩
    · cases k <;> exact hbank
    · cases k <;> exact htCAS
    · cases k <;> exact hcount
  have hpaid : ∀ cpu : Nat, mc.tCAS ≤ clk.cycle cpu
      + if decide (mc.rowHitSlot (mc.queue k) < (mc.queue k).size) then mc.tCAS
        else mc.tRP + mc.tRCD + mc.tCAS := by
    intro cpu
    split <;> omega
  unfold schedule
  dsimp only
  rw [if_pos hlt]
  cases k with
  | rq =>
      refine hbook _ _ _ _ rfl rfl rfl rfl rfl rfl ⟨rfl, fun _ => rfl, rfl, fun _ => hpaid _⟩ ?_ rfl
      exact fun k' => by cases k' <;> rfl
  | wq =>
      refine hbook _ _ _ _ rfl rfl rfl rfl rfl rfl ⟨rfl, fun _ => rfl, rfl, fun _ => hpaid _⟩ ?_ rfl
      exact fun k' => by cases k' <;> rfl

/-! ## Transfers -/

/-- Once the bank is free and the count is down, the slot is emptied. -/
theorem removeTransferred_books {mc mc₁ : MemoryController} {q : PacketQueue} (h : mc.InStep)
    (hs : mc.Sane) {k : QueueKind} {i b : Nat} (hi : ((mc.queue k).slotAt i).scheduled = true)
    (hb : dramGetBank ((mc.queue k).slotAt i).pkt.address = b) (hrq : mc₁.rq = mc.rq)
    (hwq : mc₁.wq = mc.wq) (htCAS : mc₁.tCAS = mc.tCAS) (hmode : mc₁.writeMode = mc.writeMode)
    (hbank : mc₁.bankRequest = Function.update mc.bankRequest b
      { mc.bankRequest b with
        requestIndex := none, rowBufferHit := false, working := false, isWrite := false,
        isRead := false })
    (hcount : ∀ k', mc₁.scheduledIn k' + (if k' = k then 1 else 0) = mc.scheduledIn k')
    (hentry : q.entry = (mc.queue k).entry) (hocc : q.occupancy = (mc.queue k).occupancy) :
    ∃ mc', (match q.removeQueue i with
        | none => Except.error Assertion.failed
        | some q => .ok (mc₁.setQueue k q.updateProcessCycle)) = .ok mc' ∧ mc'.InStep ∧
      mc'.content = Function.update mc.content (k, i) Slot.empty.pkt.payload ∧
      mc'.writeMode = mc.writeMode := by
  have hlt := PacketQueue.lt_of_scheduled hi
  have hused := (hs.queue k).used_of_scheduled hi
  have hne : (mc.queue k).occupancy ≠ 0 := by
    rw [(hs.queue k).occupancy]
    refine (Multiset.card_pos_iff_exists_mem.mpr
      ⟨_, (Slots.mem_used 0).mpr ⟨?_, hused⟩⟩).ne'
    exact List.mem_of_getElem? (PacketQueue.slotAt_line hused)
  have hrem : ∃ q', q.removeQueue i = some q' ∧
      q'.entry = (mc.queue k).entry.set i Slot.empty := by
    rw [PacketQueue.removeQueue, if_neg fun hc => hne (hocc ▸ hc.1), ← hentry]
    exact ⟨_, rfl, rfl⟩
  obtain ⟨q', hq', hentry'⟩ := hrem
  rw [hq']
  have hset := SetsSlot.of_setQueue (q := q'.updateProcessCycle) hrq hwq hentry'
  have hmode' : (mc₁.setQueue k q'.updateProcessCycle).writeMode = mc.writeMode := by
    cases k <;> exact hmode
  refine ⟨_, rfl, h.of_set (h.toBooked.release hset hi rfl hb (r := { mc.bankRequest b with
    requestIndex := none, rowBufferHit := false, working := false, isWrite := false,
    isRead := false }) ?_ ?_ rfl ⟨rfl, by simp, rfl, by simp⟩ ?_) hset (h.served hi) hmode',
    hset.content hlt, hmode'⟩
  · cases k <;> exact hbank
  · cases k <;> exact htCAS
  · cases k <;> exact hcount

/-- The end of a transfer releases its slot and empties it. -/
theorem finishTransfer_books {mc : MemoryController} (h : mc.InStep) (hs : mc.Sane)
    {k : QueueKind} {i b : Nat} (hi : ((mc.queue k).slotAt i).scheduled = true)
    (hb : dramGetBank ((mc.queue k).slotAt i).pkt.address = b) :
    ∃ mc', mc.finishTransfer k i b = .ok mc' ∧ mc'.InStep ∧
      mc'.content = Function.update mc.content (k, i) Slot.empty.pkt.payload ∧
      mc'.writeMode = mc.writeMode := by
  have hpos : mc.scheduledIn k ≠ 0 := by
    rw [h.counts]
    exact (List.countP_pos_iff.mpr
      ⟨_, PacketQueue.slotAt_mem (PacketQueue.lt_of_scheduled hi), hi⟩).ne'
  unfold finishTransfer
  dsimp only
  cases k with
  | rq =>
      refine removeTransferred_books h hs hi hb rfl rfl rfl rfl rfl ?_ ?_ ?_
      · intro k'
        cases k'
        · exact dec32_add_one hpos
        · rfl
      · split <;> rfl
      · split <;> rfl
  | wq =>
      refine removeTransferred_books h hs hi hb rfl rfl rfl rfl rfl ?_ ?_ ?_
      · intro k'
        cases k'
        · rfl
        · exact dec32_add_one hpos
      · split <;> rfl
      · split <;> rfl

/-- The bank has the data of the slot next to be processed, and the bus is
free. -/
def granted (clk : Clock) (k : QueueKind) (mc : MemoryController) : Bool :=
  let sl := (mc.queue k).slotAt (mc.queue k).nextProcessIndex
  decide ((mc.bankOf sl).cycleAvailable ≤ clk.cycle sl.pkt.cpu)
    && decide (mc.dbusCycleAvailable ≤ clk.cycle sl.pkt.cpu)

/-- What a step does to the contents when it makes the transfer named: a
write leaves its slot, a read is handed over and still in it. -/
inductive Transfers (mc : MemoryController) :
    Option (QueueKind × Nat) → MemoryController × Option Nat → Prop
  | written {mc' : MemoryController} {i : Nat} (hi : (mc.content (.wq, i)).address ≠ 0)
      (h : mc'.content = Function.update mc.content (.wq, i) Slot.empty.pkt.payload) :
      Transfers mc (some (.wq, i)) (mc', none)
  | handed {mc' : MemoryController} {i : Nat} (hi : (mc.content (.rq, i)).address ≠ 0)
      (hs : (mc'.rq.slotAt i).scheduled = true) (h : mc'.content = mc.content) :
      Transfers mc (some (.rq, i)) (mc', some i)
  | none {mc' : MemoryController} (h : mc'.content = mc.content) : Transfers mc none (mc', none)

theorem Transfers.of_content {mc₀ mc : MemoryController} {t : Option (QueueKind × Nat)}
    {r : MemoryController × Option Nat} (h : Transfers mc t r) (heq : mc.content = mc₀.content) :
    Transfers mc₀ t r := by
  cases h with
  | written hi h => exact .written (heq ▸ hi) (heq ▸ h)
  | handed hi hs h => exact .handed (heq ▸ hi) hs (h.trans heq)
  | none h => exact .none (h.trans heq)

theorem busBusy_books {mc : MemoryController} (h : mc.InStep) {now : Nat} {sl : Slot}
    (hbus : mc.dbusCycleAvailable > now) (havail : (mc.bankOf sl).cycleAvailable ≤ now) :
    (mc.busBusy now sl).InStep := by
  refine ⟨h.toBooked.of_entry (fun k => by cases k <;> rfl) ?_ ?_ fun k => by cases k <;> rfl, h.mode⟩
  · intro b
    have hs := congrFun (serving_update mc.bankRequest (dramGetBank sl.pkt.address)
      { mc.bankOf sl with cycleAvailable := mc.dbusCycleAvailable }) b
    refine hs.trans (congrFun (Function.update_eq_iff.mpr ⟨rfl, fun _ _ => rfl⟩) b)
  · have hcoh := h.coherent (dramGetBank sl.pkt.address)
    refine coherent_update h.coherent ⟨hcoh.index, hcoh.write, hcoh.read, fun hw => ?_⟩
    have hpaid := hcoh.paid hw
    exact hpaid.trans (havail.trans hbus.le)

/-- Neither assertion of `process` fails. -/
theorem process_books {mc : MemoryController} (h : mc.InStep) (hok : mc.Ok) {clk : Clock}
    {k : QueueKind} (hready : processReady clk (mc.queue k) = true) :
    ∃ r, mc.process clk k = .ok r ∧ r.1.InStep ∧ Transfers mc
      (if mc.granted clk k then some (k, (mc.queue k).nextProcessIndex) else none) r := by
  obtain ⟨hlt, hs⟩ := processReady_scheduled hok hready
  have hused : (mc.content (k, (mc.queue k).nextProcessIndex)).address ≠ 0 :=
    processReady_used hok hready
  have hne : (mc.queue k).nextProcessIndex ≠ (mc.queue k).size :=
    ne_of_lt (hlt.trans_eq (hok.queue k).length)
  obtain ⟨-, hidx, -⟩ := h.bank hs rfl
  unfold process
  dsimp only
  rw [if_neg hne, if_neg (not_not.mpr hidx)]
  by_cases havail : (mc.bankRequest (dramGetBank ((mc.queue k).slotAt
      (mc.queue k).nextProcessIndex).pkt.address)).cycleAvailable
        ≤ clk.cycle ((mc.queue k).slotAt (mc.queue k).nextProcessIndex).pkt.cpu
  swap
  · have hgrant : mc.granted clk k = false := by simp [granted, bankOf, havail]
    rw [if_neg havail, hgrant]
    exact ⟨(mc, none), rfl, h, .none rfl⟩
  by_cases hbus : mc.dbusCycleAvailable
      ≤ clk.cycle ((mc.queue k).slotAt (mc.queue k).nextProcessIndex).pkt.cpu
  swap
  · have hgrant : mc.granted clk k = false := by simp [granted, hbus]
    rw [if_pos havail, if_neg hbus, hgrant]
    exact ⟨_, rfl, busBusy_books h (not_le.mp hbus) havail,
      .none (content_of_entry fun k => by cases k <;> rfl)⟩
  have hgrant : mc.granted clk k = true := by simp [granted, bankOf, havail, hbus]
  rw [if_pos havail, if_pos hbus, hgrant]
  cases k with
  | wq =>
      let mc₁ : MemoryController := { mc with
        dbusCycleAvailable := clk.cycle (mc.wq.slotAt mc.wq.nextProcessIndex).pkt.cpu
          + mc.dbusReturnTime }
      have hbusy : mc₁.InStep := ⟨⟨h.matched, h.coherent, h.counts⟩, h.mode⟩
      obtain ⟨mc', hf, hstep, hcontent, -⟩ := finishTransfer_books hbusy
        ⟨hok.rq.toSane, hok.wq.toSane⟩ (k := .wq) hs rfl
      refine ⟨(mc', none), ?_, hstep, .written hused hcontent⟩
      exact congrArg (Except.map fun mc => (mc, none)) hf
  | rq =>
      let sl : Slot := { mc.rq.slotAt mc.rq.nextProcessIndex with
        pkt := { (mc.rq.slotAt mc.rq.nextProcessIndex).pkt with
          eventCycle := clk.cycle (mc.rq.slotAt mc.rq.nextProcessIndex).pkt.cpu
            + mc.dbusReturnTime } }
      let mc₁ : MemoryController := { mc with
        dbusCycleAvailable := clk.cycle (mc.rq.slotAt mc.rq.nextProcessIndex).pkt.cpu
          + mc.dbusReturnTime }
      have hset : SetsSlot mc (mc₁.setQueue .rq (mc.rq.setSlot mc.rq.nextProcessIndex sl)) .rq
        mc.rq.nextProcessIndex sl := .of_setQueue rfl rfl rfl
      refine ⟨_, rfl, h.of_set (h.toBooked.touch hset hlt rfl (fun _ => rfl) rfl rfl fun k => ?_)
        hset (h.served hs) rfl, .handed hused ?_ (hset.content_eq hlt rfl)⟩
      · cases k <;> rfl
      · exact (congrArg Slot.scheduled (hset.self hlt)).trans hs

/-! ## The functions of the controller -/

/-- The slot `serve` transfers. -/
def serveTransfer (clk : Clock) (k : QueueKind) (mc : MemoryController) :
    Option (QueueKind × Nat) :=
  let mc := if scheduleReady clk (mc.queue k) then mc.schedule clk k else mc
  if processReady clk (mc.queue k) && mc.granted clk k then
    some (k, (mc.queue k).nextProcessIndex)
  else none

/-- The slot transferred in a cycle. -/
def transfer (clk : Clock) (mc : MemoryController) : Option (QueueKind × Nat) :=
  match mc.switchMode clk with
  | .error _ => none
  | .ok mc => mc.serveTransfer clk (if mc.writeMode then .wq else .rq)

theorem serve_books {mc : MemoryController} (h : mc.InStep) (hok : mc.Ok) (clk : Clock)
    {k : QueueKind} (hk : mc.offQueue ≠ k) : ∃ r, mc.serve clk k = .ok r ∧ r.1.InStep ∧
      Transfers mc (mc.serveTransfer clk k) r := by
  have hmc : ∀ b : Bool, (if b then mc.schedule clk k else mc).InStep ∧
      (if b then mc.schedule clk k else mc).Ok ∧
      (if b then mc.schedule clk k else mc).content = mc.content := by
    intro b
    cases b
    · exact ⟨h, hok, rfl⟩
    · obtain ⟨hstep, hcontent, -⟩ := schedule_books h clk hk
      exact ⟨hstep, (schedule_spec hok clk k).1, hcontent⟩
  unfold serve serveTransfer
  dsimp only
  obtain ⟨hstep, hok₁, hcontent⟩ := hmc (scheduleReady clk (mc.queue k))
  generalize (if scheduleReady clk (mc.queue k) then mc.schedule clk k else mc) = mc₁
    at hstep hok₁ hcontent
  split
  · rename_i hready
    obtain ⟨r, hp, hstep', htr⟩ := process_books hstep hok₁ hready
    rw [hready, Bool.true_and]
    exact ⟨r, hp, hstep', htr.of_content hcontent⟩
  · rename_i hready
    rw [Bool.not_eq_true] at hready
    rw [hready]
    exact ⟨(mc₁, none), rfl, hstep, .none hcontent⟩

/-- **A cycle of a controller.** No assertion fails, banks and slots stay in
step, and the contents change by the cycle's transfer only. -/
theorem operate_books {mc : MemoryController} (h : mc.InStep) (hok : mc.Ok) (clk : Clock) :
    ∃ r, mc.operate clk = .ok r ∧ r.1.InStep ∧ Transfers mc (mc.transfer clk) r := by
  obtain ⟨mc₁, hsw, hstep, hcontent⟩ := switchMode_books h hok.sane clk
  have hok₁ := (switchMode_spec hok hsw).1
  have hoperate : mc.operate clk = if mc₁.writeMode then mc₁.serve clk .wq else mc₁.serve clk .rq := by
    rw [operate, hsw]
    rfl
  rw [hoperate, transfer, hsw]
  by_cases hmode : mc₁.writeMode = true
  · obtain ⟨r, hs, hr, htr⟩ := serve_books hstep hok₁ clk (k := .wq)
      (by rw [offQueue, if_pos hmode]; decide)
    refine ⟨r, by rw [if_pos hmode, hs], hr, ?_⟩
    simp only [hmode, if_true]
    exact htr.of_content hcontent
  · obtain ⟨r, hs, hr, htr⟩ := serve_books hstep hok₁ clk (k := .rq)
      (by rw [offQueue, if_neg hmode]; decide)
    refine ⟨r, by rw [if_neg hmode, hs], hr, ?_⟩
    simp only [hmode]
    exact htr.of_content hcontent

/-- The rest of `process` after the callback: the read leaves its slot. -/
theorem processReadDone_books {mc : MemoryController} (h : mc.InStep) (hok : mc.Ok) {i b : Nat}
    (hi : (mc.rq.slotAt i).scheduled = true)
    (hb : dramGetBank (mc.rq.slotAt i).pkt.address = b) :
    ∃ mc', mc.processReadDone i b = .ok mc' ∧ mc'.InStep ∧
      mc'.content = Function.update mc.content (.rq, i) Slot.empty.pkt.payload := by
  obtain ⟨mc', hf, hstep, hcontent, -⟩ := finishTransfer_books h hok.sane (k := .rq) hi hb
  exact ⟨mc', hf, hstep, hcontent⟩

/-- A packet takes an empty slot. -/
theorem insert_books {mc mc' : MemoryController} (h : mc.InStep) (hs : mc.Sane) {k : QueueKind}
    {pkt : Packet} {i : Nat} (hmc' : mc' = mc.setQueue k ((mc.queue k).insert pkt))
    (hi : (mc.queue k).emptyIndex = some i) (h0 : (mc.queue k).lines[i]? = some 0) :
    mc'.InStep ∧ SetsSlot mc mc' k i { pkt := pkt } ∧
      mc'.content = Function.update mc.content (k, i) pkt.payload := by
  have hentry : ((mc.queue k).insert pkt).entry = (mc.queue k).entry.set i { pkt := pkt } := by
    simp only [PacketQueue.insert, hi]
    rfl
  have hset : SetsSlot mc mc' k i { pkt := pkt } := hmc' ▸ .of_setQueue rfl rfl hentry
  have hlt : i < (mc.queue k).entry.length := by
    rw [← PacketQueue.lines_length]
    exact (List.getElem?_eq_some_iff.mp h0).1
  have hfree : ((mc.queue k).slotAt i).scheduled = false := by
    by_contra hc
    rw [Bool.not_eq_false] at hc
    refine (hs.queue k).used_of_scheduled hc ?_
    rw [PacketQueue.slotAt_address, h0]
    rfl
  have hbooked : mc'.Booked := by
    refine h.toBooked.touch hset hlt hfree.symm (by simp) ?_ ?_ ?_
    · subst hmc'
      cases k <;> rfl
    · subst hmc'
      cases k <;> rfl
    · subst hmc'
      cases k <;> exact fun k' => by cases k' <;> rfl
  refine ⟨⟨hbooked, fun j => ?_⟩, hset, hset.content hlt⟩
  have hoff : mc'.offQueue = mc.offQueue := by
    subst hmc'
    cases k <;> rfl
  rw [hoff]
  by_cases hx : (mc.offQueue, j) = (k, i)
  · obtain ⟨hk, rfl⟩ := Prod.mk.inj hx
    rw [hk, hset.self hlt]
  · rw [hset.other hx]
    exact h.mode j

/-- With room, a packet whose line is not held is stored. -/
theorem store_books {mc : MemoryController} (h : mc.InStep) (hok : mc.Ok) (k : QueueKind)
    {pkt : Packet} (hroom : (mc.queue k).occupancy < (mc.queue k).size)
    (hnone : (mc.queue k).checkDramQueue pkt = none) :
    ∃ i, (mc.queue k).emptyIndex = some i ∧ (mc.content (k, i)).address = 0 ∧
      (mc.setQueue k ((mc.queue k).insert pkt)).Ok ∧
      (mc.setQueue k ((mc.queue k).insert pkt)).InStep ∧
      SetsSlot mc (mc.setQueue k ((mc.queue k).insert pkt)) k i { pkt := pkt } ∧
      (mc.setQueue k ((mc.queue k).insert pkt)).content
        = Function.update mc.content (k, i) pkt.payload := by
  obtain ⟨i, hi, h0⟩ := (hok.queue k).toSane.emptyIndex hroom
  have hpkt := address_ne_zero_of_room (hok.queue k).toSane hroom hnone
  obtain ⟨hstep, hset, hcontent⟩ := insert_books h hok.sane rfl hi h0
  have hq := ((hok.queue k).insert hi h0 hpkt (checkDramQueue_none hnone)).1
  refine ⟨i, hi, ?_, hok.setQueue hq, hstep, hset, hcontent⟩
  show ((mc.queue k).slotAt i).pkt.address = 0
  rw [PacketQueue.slotAt_address, h0]
  rfl

theorem forwardDone_books {mc : MemoryController} (h : mc.InStep) :
    mc.forwardDone.InStep ∧ mc.forwardDone.content = mc.content := by
  have hentry : ∀ k, (mc.forwardDone.queue k).entry = (mc.queue k).entry :=
    fun k => by cases k <;> rfl
  refine ⟨⟨h.toBooked.of_entry hentry (fun _ => rfl) h.coherent fun k => by cases k <;> rfl, ?_⟩,
    content_of_entry hentry⟩
  exact h.mode.of_entry (hentry _)

theorem new_slotAt (tRP tRCD tCAS dbus : Nat) (k : QueueKind) (i : Nat) :
    ((new tRP tRCD tCAS dbus).queue k).slotAt i = Slot.empty := by
  have hget : ∀ n, ((List.replicate n Slot.empty)[i]?).getD Slot.empty = Slot.empty := by
    intro n
    rw [List.getElem?_replicate]
    split <;> rfl
  cases k
  · exact hget _
  · exact hget _

theorem new_inStep (tRP tRCD tCAS dbus : Nat) : (new tRP tRCD tCAS dbus).InStep := by
  refine ⟨⟨fun x b => ?_, fun b => ⟨rfl, by simp [new], rfl, by simp [new]⟩, fun k => ?_⟩, ?_⟩
  · have hplaced : (new tRP tRCD tCAS dbus).placed x = none := by
      rw [placed, new_slotAt]
      rfl
    rw [hplaced]
    simp [new, BankRequest.serving]
  · rw [PacketQueue.scheduledCount_eq_zero fun i => by rw [new_slotAt]; rfl]
    cases k <;> rfl
  · intro i
    rw [new_slotAt]
    rfl

end MemoryController

end DramCache
