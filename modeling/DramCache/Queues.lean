import DramCache.Controller
import DramCache.Slots

/-!
# The controllers' queues

What a memory controller keeps true of its two queues, and what its
functions do to the lines they hold. `PacketQueue.Ok` is the invariant:
the occupancy counts the used slots, no line is held twice, and the slot
next to be processed is a scheduled one. Read completions leave in two
steps, as `process` is cut at its callback: `operate_spec` and
`processReadDone_spec`.
-/

namespace DramCache

/-- A mapped computation succeeds when the computation does. -/
theorem ok_of_map {ε α β : Type*} {f : α → β} {x : Except ε α} {b : β}
    (h : x.map f = .ok b) : ∃ a, x = .ok a ∧ f a = b := by
  cases x with
  | error e => cases h
  | ok a => exact ⟨a, rfl, Except.ok.inj h⟩

namespace PacketQueue

/-- The lines a queue holds. -/
def held (q : PacketQueue) : Multiset Nat := Slots.used 0 q.lines

/-- The invariant between two calls of `update_process_cycle`. -/
structure Sane (q : PacketQueue) : Prop where
  length : q.entry.length = q.size
  occupancy : q.occupancy = q.held.card
  nodup : q.held.Nodup
  scheduled : ∀ sl ∈ q.entry, sl.scheduled = true → sl.pkt.address ≠ 0

structure Ok (q : PacketQueue) : Prop extends q.Sane where
  process : q.nextProcessIndex < q.size → q.nextProcessCycle < uint64Max →
    (q.slotAt q.nextProcessIndex).scheduled = true

theorem new_ok (size : Nat) : (new size).Ok := by
  have hlines : (new size).lines = List.replicate size 0 := by
    simp [lines, new]
  have hheld : (new size).held = 0 := by
    refine Multiset.eq_zero_iff_forall_notMem.mpr fun a ha => ?_
    obtain ⟨hmem, hne⟩ := (Slots.mem_used 0).mp ha
    rw [hlines] at hmem
    exact hne (List.eq_of_mem_replicate hmem)
  refine { length := by simp [new], occupancy := by rw [hheld]; rfl,
           nodup := by simp [hheld], scheduled := ?_, process := ?_ }
  · intro sl hsl hs
    rw [List.eq_of_mem_replicate hsl] at hs
    cases hs
  · intro _ h
    exact absurd h (lt_irrefl _)

theorem lines_getElem? (q : PacketQueue) (i : Nat) :
    q.lines[i]? = q.entry[i]?.map fun sl => sl.pkt.address := by
  simp [lines]

@[simp] theorem setSlot_lines (q : PacketQueue) (i : Nat) (sl : Slot) :
    (q.setSlot i sl).lines = q.lines.set i sl.pkt.address := by
  simp [lines, setSlot, List.map_set]

/-! ## The scans -/

theorem scanMin_spec (sel : Slot → Bool) (l : List Slot) : ∀ (i : Nat) (best : Nat × Nat),
    scanMin sel l i best = best ∨ ∃ j sl, l[j]? = some sl ∧ sel sl = true ∧
      scanMin sel l i best = (sl.pkt.eventCycle, i + j) := by
  induction l with
  | nil => exact fun i best => .inl rfl
  | cons sl l ih =>
      intro i best
      rw [scanMin]
      rcases ih (i + 1) (if sel sl && decide (sl.pkt.eventCycle < best.1)
        then (sl.pkt.eventCycle, i) else best) with h | ⟨j, sl', hj, hsel, h⟩
      · rw [h]
        split
        · rename_i hc
          simp only [Bool.and_eq_true] at hc
          exact .inr ⟨0, sl, rfl, hc.1, rfl⟩
        · exact .inl rfl
      · refine .inr ⟨j + 1, sl', by simpa using hj, hsel, ?_⟩
        rw [h, Nat.add_right_comm, Nat.add_assoc]

/-- A scan that finds a slot finds a selected one. -/
theorem minSlot_spec {q : PacketQueue} {sel : Slot → Bool} (h : (q.minSlot sel).2 < q.size) :
    ∃ sl, q.entry[(q.minSlot sel).2]? = some sl ∧ sel sl = true := by
  rcases scanMin_spec sel q.entry 0 (uint64Max, q.size) with hm | ⟨j, sl, hj, hsel, hm⟩
  · unfold minSlot at h
    rw [hm] at h
    exact absurd h (lt_irrefl _)
  · unfold minSlot
    rw [hm, Nat.zero_add]
    exact ⟨sl, hj, hsel⟩

theorem slotAt_eq {q : PacketQueue} {i : Nat} {sl : Slot} (h : q.entry[i]? = some sl) :
    q.slotAt i = sl := by
  simp [slotAt, h]

/-! ## Updates -/

theorem Sane.updateScheduleCycle {q : PacketQueue} (h : q.Sane) : q.updateScheduleCycle.Sane :=
  ⟨h.length, h.occupancy, h.nodup, h.scheduled⟩

/-- The scan restores the invariant. -/
theorem Sane.updateProcessCycle {q : PacketQueue} (h : q.Sane) : q.updateProcessCycle.Ok := by
  refine ⟨⟨h.length, h.occupancy, h.nodup, h.scheduled⟩, fun hi _ => ?_⟩
  obtain ⟨sl, hsl, hs⟩ := minSlot_spec hi
  have hslot : q.updateProcessCycle.slotAt q.updateProcessCycle.nextProcessIndex = sl :=
    slotAt_eq hsl
  rw [hslot]
  exact hs

/-- A slot changes, but not its line. -/
theorem Sane.setSlot {q : PacketQueue} (h : q.Sane) {i : Nat} {sl : Slot}
    (hline : sl.pkt.address = (q.slotAt i).pkt.address)
    (hs : sl.scheduled = true → sl.pkt.address ≠ 0) :
    (q.setSlot i sl).Sane ∧ (q.setSlot i sl).lines = q.lines := by
  have hlines : (q.setSlot i sl).lines = q.lines := by
    rw [setSlot_lines]
    by_cases hi : i < q.entry.length
    · have hget : q.lines[i]? = some sl.pkt.address := by
        rw [lines_getElem?, List.getElem?_eq_getElem hi, hline]
        simp [slotAt, List.getElem?_eq_getElem hi]
      refine List.ext_getElem? fun j => ?_
      by_cases hj : i = j
      · subst hj
        rw [List.getElem?_set_self (by simpa [lines] using hi), hget]
      · rw [List.getElem?_set_ne hj]
    · rw [List.set_eq_of_length_le]
      simpa [lines] using not_lt.mp hi
  have hheld : (q.setSlot i sl).held = q.held := by rw [held, hlines, held]
  refine ⟨⟨?_, ?_, ?_, ?_⟩, hlines⟩
  · exact (List.length_set ..).trans h.length
  · rw [hheld]
    exact h.occupancy
  · rw [hheld]
    exact h.nodup
  · intro sl' hmem hs'
    rcases List.mem_or_eq_of_mem_set hmem with hmem | rfl
    · exact h.scheduled sl' hmem hs'
    · exact hs hs'

/-- A slot changes, but neither its line nor whether it is scheduled. -/
theorem Ok.setSlot {q : PacketQueue} (h : q.Ok) {i : Nat} {sl : Slot}
    (hline : sl.pkt.address = (q.slotAt i).pkt.address)
    (hs : sl.scheduled = (q.slotAt i).scheduled) :
    (q.setSlot i sl).Ok ∧ (q.setSlot i sl).lines = q.lines := by
  by_cases hi : i < q.entry.length
  · have hmem : q.slotAt i ∈ q.entry := by
      rw [slotAt, List.getElem?_eq_getElem hi]
      exact List.getElem_mem hi
    obtain ⟨hsane, hlines⟩ := h.toSane.setSlot hline fun hsl =>
      hline ▸ h.scheduled _ hmem (hs ▸ hsl)
    refine ⟨⟨hsane, fun hlt hcyc => ?_⟩, hlines⟩
    have hp := h.process hlt hcyc
    change (((q.entry.set i sl)[q.nextProcessIndex]?).getD Slot.empty).scheduled = true
    by_cases hni : i = q.nextProcessIndex
    · rw [← hni, List.getElem?_set_self hi]
      rw [← hni] at hp
      exact hs.trans hp
    · rw [List.getElem?_set_ne hni]
      exact hp
  · have hsame : q.setSlot i sl = q := by
      rw [PacketQueue.setSlot, List.set_eq_of_length_le (not_lt.mp hi)]
    rw [hsame]
    exact ⟨h, rfl⟩

theorem lines_length (q : PacketQueue) : q.lines.length = q.entry.length := by simp [lines]

/-- A slot's line, 0 beyond the array. -/
theorem slotAt_address (q : PacketQueue) (i : Nat) :
    (q.slotAt i).pkt.address = (q.lines[i]?).getD 0 := by
  rw [lines_getElem?, slotAt]
  cases q.entry[i]? <;> rfl

theorem slotAt_address_congr {q q' : PacketQueue} (h : q'.lines = q.lines) (i : Nat) :
    (q'.slotAt i).pkt.address = (q.slotAt i).pkt.address := by
  rw [slotAt_address, h, ← slotAt_address]

/-- A used slot's line. -/
theorem slotAt_line {q : PacketQueue} {i : Nat} (h : (q.slotAt i).pkt.address ≠ 0) :
    q.lines[i]? = some (q.slotAt i).pkt.address := by
  rw [lines_getElem?]
  cases hi : q.entry[i]? with
  | none => simp [slotAt, hi] at h
  | some sl => simp [slotAt, hi]

/-- With room there is an empty slot. -/
theorem Sane.emptyIndex {q : PacketQueue} (h : q.Sane) (hroom : q.occupancy < q.size) :
    ∃ i, q.emptyIndex = some i ∧ q.lines[i]? = some 0 := by
  have hfree : 0 ∈ q.lines := by
    refine Slots.exists_free ?_
    rw [lines_length, h.length]
    exact h.occupancy ▸ hroom
  cases hi : q.emptyIndex with
  | none =>
      obtain ⟨sl, hsl, h0⟩ := List.mem_map.mp hfree
      have := List.findIdx?_eq_none_iff.mp hi sl hsl
      simp [h0] at this
  | some i =>
      obtain ⟨hlt, h0, -⟩ := List.findIdx?_eq_some_iff_getElem.mp hi
      refine ⟨i, rfl, ?_⟩
      rw [lines_getElem?, List.getElem?_eq_getElem hlt]
      simpa using h0

/-- A packet whose line is not held takes an empty slot. -/
theorem Ok.insert {q : PacketQueue} (h : q.Ok) {pkt : Packet} {i : Nat}
    (hi : q.emptyIndex = some i) (h0 : q.lines[i]? = some 0) (hpkt : pkt.address ≠ 0)
    (hnew : pkt.address ∉ q.held) :
    (q.insert pkt).Ok ∧ (q.insert pkt).held = pkt.address ::ₘ q.held ∧
      (q.insert pkt).lines = q.lines.set i pkt.address ∧ (q.insert pkt).size = q.size := by
  have heq : q.insert pkt = PacketQueue.updateScheduleCycle
      { q with entry := q.entry.set i { pkt := pkt }, occupancy := q.occupancy + 1 } := by
    simp [PacketQueue.insert, hi]
  have hlines : (q.insert pkt).lines = q.lines.set i pkt.address := by
    rw [heq]
    exact q.setSlot_lines i { pkt := pkt }
  have hheld : (q.insert pkt).held = pkt.address ::ₘ q.held := by
    rw [held, hlines, Slots.used_fill h0 hpkt, held]
  refine ⟨⟨⟨?_, ?_, ?_, ?_⟩, ?_⟩, hheld, hlines, by rw [heq]; rfl⟩
  · rw [heq]
    exact (List.length_set ..).trans h.length
  · rw [hheld, Multiset.card_cons, ← h.occupancy, heq]
    rfl
  · rw [hheld]
    exact Multiset.nodup_cons.mpr ⟨hnew, h.nodup⟩
  · intro sl hsl hs
    rw [heq] at hsl
    rcases List.mem_or_eq_of_mem_set hsl with hmem | rfl
    · exact h.scheduled sl hmem hs
    · cases hs
  · intro hlt hcyc
    rw [heq] at hlt hcyc ⊢
    -- the slot to process is scheduled, so it is not the empty one
    have hs := h.process hlt hcyc
    have hne : i ≠ q.nextProcessIndex := by
      rintro rfl
      have hmem : q.slotAt q.nextProcessIndex ∈ q.entry := by
        have hlt' : q.nextProcessIndex < q.entry.length := h.length ▸ hlt
        rw [slotAt, List.getElem?_eq_getElem hlt']
        exact List.getElem_mem hlt'
      have hnz := h.scheduled _ hmem hs
      rw [slotAt_line hnz] at h0
      exact hnz (Option.some.inj h0)
    change (((q.entry.set i { pkt := pkt })[q.nextProcessIndex]?).getD Slot.empty).scheduled = _
    rw [List.getElem?_set_ne hne]
    exact hs

/-- A used slot is emptied. -/
theorem Sane.removeQueue {q q' : PacketQueue} (h : q.Sane) {i : Nat}
    (hi : (q.slotAt i).pkt.address ≠ 0) (hr : q.removeQueue i = some q') :
    q'.Sane ∧ q'.lines = q.lines.set i 0 := by
  unfold PacketQueue.removeQueue at hr
  split at hr
  · cases hr
  · obtain rfl := Option.some.inj hr
    have hlines : ∀ n h, PacketQueue.lines
        { q with entry := q.entry.set i Slot.empty, occupancy := n, head := h }
          = q.lines.set i 0 := fun n h => q.setSlot_lines i Slot.empty
    have hfree := Slots.used_free (slotAt_line hi) hi
    have hcard : q.occupancy = (Slots.used 0 (q.lines.set i 0)).card + 1 := by
      rw [h.occupancy, held, hfree, Multiset.card_cons]
    refine ⟨⟨(List.length_set ..).trans h.length, ?_, ?_, ?_⟩, hlines ..⟩
    · rw [held, hlines]
      simp only [dec32, hcard]
      simp
    · rw [held, hlines]
      have hnd := h.nodup
      rw [held, hfree] at hnd
      exact (Multiset.nodup_cons.mp hnd).2
    · intro sl hsl hs
      rcases List.mem_or_eq_of_mem_set hsl with hmem | rfl
      · exact h.scheduled sl hmem hs
      · cases hs

end PacketQueue

namespace MemoryController

/-! ## The invariant of a controller -/

structure Sane (mc : MemoryController) : Prop where
  rq : mc.rq.Sane
  wq : mc.wq.Sane

structure Ok (mc : MemoryController) : Prop where
  rq : mc.rq.Ok
  wq : mc.wq.Ok

theorem Ok.sane {mc : MemoryController} (h : mc.Ok) : mc.Sane := ⟨h.rq.toSane, h.wq.toSane⟩

theorem new_ok (tRP tRCD tCAS dbus : Nat) : (new tRP tRCD tCAS dbus).Ok :=
  ⟨PacketQueue.new_ok _, PacketQueue.new_ok _⟩

theorem Ok.queue {mc : MemoryController} (h : mc.Ok) (k : QueueKind) : (mc.queue k).Ok := by
  cases k
  · exact h.rq
  · exact h.wq

theorem Sane.queue {mc : MemoryController} (h : mc.Sane) (k : QueueKind) :
    (mc.queue k).Sane := by
  cases k
  · exact h.rq
  · exact h.wq

theorem Ok.setQueue {mc : MemoryController} (h : mc.Ok) {k : QueueKind} {q : PacketQueue}
    (hq : q.Ok) : (mc.setQueue k q).Ok := by
  cases k
  · exact ⟨hq, h.wq⟩
  · exact ⟨h.rq, hq⟩

theorem Sane.setQueue {mc : MemoryController} (h : mc.Sane) {k : QueueKind} {q : PacketQueue}
    (hq : q.Sane) : (mc.setQueue k q).Sane := by
  cases k
  · exact ⟨hq, h.wq⟩
  · exact ⟨h.rq, hq⟩

/-- The read queue's lines after one of the queues is replaced. -/
theorem setQueue_rq_lines {mc : MemoryController} {k : QueueKind} {q : PacketQueue}
    (h : q.lines = (mc.queue k).lines) : (mc.setQueue k q).rq.lines = mc.rq.lines := by
  cases k
  · exact h
  · rfl

/-! ## Adding -/

/-- A line not found is not held. -/
theorem checkDramQueue_none {q : PacketQueue} {pkt : Packet}
    (h : q.checkDramQueue pkt = none) : pkt.address ∉ q.held := by
  intro hmem
  obtain ⟨hl, -⟩ := (Slots.mem_used 0).mp hmem
  obtain ⟨sl, hsl, ha⟩ := List.mem_map.mp hl
  have := List.findIdx?_eq_none_iff.mp h sl hsl
  simp [ha] at this

/-- With room, only a used line's address is not found: 0 is. -/
theorem address_ne_zero_of_room {q : PacketQueue} (h : q.Sane) (hroom : q.occupancy < q.size)
    {pkt : Packet} (hnone : q.checkDramQueue pkt = none) : pkt.address ≠ 0 := by
  obtain ⟨i, -, h0⟩ := h.emptyIndex hroom
  obtain ⟨sl, hsl, hline⟩ := List.mem_map.mp (List.mem_of_getElem? h0)
  have := List.findIdx?_eq_none_iff.mp hnone sl hsl
  rw [hline] at this
  simpa using Ne.symm (by simpa using this)

/-- What `add_rq` does with a read when there is room. -/
theorem addRq_spec {mc : MemoryController} (h : mc.Ok) (pkt : Packet)
    (hroom : mc.rq.occupancy < mc.rq.size) :
    (∃ i, mc.addRq pkt = (mc, .forwarded i) ∧ mc.wq.checkDramQueue pkt = some i) ∨
    (∃ i, mc.addRq pkt = (mc, .merged i)) ∨
    ∃ mc', mc.addRq pkt = (mc', .inserted) ∧ mc'.Ok ∧ mc'.wq = mc.wq ∧
      mc.wq.checkDramQueue pkt = none ∧
      pkt.address ≠ 0 ∧
      ∃ i, mc.rq.lines[i]? = some 0 ∧ mc'.rq.lines = mc.rq.lines.set i pkt.address := by
  cases hwq : mc.wq.checkDramQueue pkt with
  | some i => exact .inl ⟨i, by simp [addRq, hwq], rfl⟩
  | none =>
      cases hrq : mc.rq.checkDramQueue pkt with
      | some i => exact .inr (.inl ⟨i, by simp [addRq, hwq, hrq]⟩)
      | none =>
          obtain ⟨i, hi, h0⟩ := h.rq.toSane.emptyIndex hroom
          have hpkt := address_ne_zero_of_room h.rq.toSane hroom hrq
          obtain ⟨hok, -, hlines, -⟩ := h.rq.insert hi h0 hpkt (checkDramQueue_none hrq)
          exact .inr (.inr ⟨{ mc with rq := mc.rq.insert pkt }, by simp [addRq, hwq, hrq, hi],
            ⟨hok, h.wq⟩, rfl, rfl, hpkt, i, h0, hlines⟩)

/-- What `add_wq` does with a write when there is room. -/
theorem addWq_spec {mc : MemoryController} (h : mc.Ok) (pkt : Packet)
    (hroom : mc.wq.occupancy < mc.wq.size) :
    (∃ i, mc.addWq pkt = (mc, .merged i)) ∨
    ∃ mc', mc.addWq pkt = (mc', .inserted) ∧ mc'.Ok ∧ mc'.rq = mc.rq := by
  unfold addWq
  split
  · exact .inl ⟨_, rfl⟩
  · rename_i hnone
    obtain ⟨i, hi, h0⟩ := h.wq.toSane.emptyIndex hroom
    have hpkt := address_ne_zero_of_room h.wq.toSane hroom hnone
    obtain ⟨hok, -⟩ := h.wq.insert hi h0 hpkt (checkDramQueue_none hnone)
    refine .inr ⟨{ mc with wq := mc.wq.insert pkt }, ?_, ⟨h.rq, hok⟩, rfl⟩
    rw [hi]
    rfl

theorem forwardDone_ok {mc : MemoryController} (h : mc.Ok) : mc.forwardDone.Ok where
  rq := ⟨⟨h.rq.length, h.rq.occupancy, h.rq.nodup, h.rq.scheduled⟩, h.rq.process⟩
  wq := ⟨⟨h.wq.length, h.wq.occupancy, h.wq.nodup, h.wq.scheduled⟩, h.wq.process⟩

/-! ## One cycle -/

/-- A change to a controller that keeps its lines. -/
structure Keeps (mc mc' : MemoryController) : Prop where
  sane : mc'.Sane
  lines : mc'.rq.lines = mc.rq.lines

theorem Keeps.trans {mc₁ mc₂ mc₃ : MemoryController} (h₁ : Keeps mc₁ mc₂)
    (h₂ : Keeps mc₂ mc₃) : Keeps mc₁ mc₃ :=
  ⟨h₂.sane, h₂.lines.trans h₁.lines⟩

/-- A slot of one queue changes, but not its line; the rest of the
controller is free. -/
theorem Sane.keeps_setSlot {mc mc' : MemoryController} (h : mc.Sane) (hrq : mc'.rq = mc.rq)
    (hwq : mc'.wq = mc.wq) {k : QueueKind} {i : Nat} {sl : Slot}
    (hline : sl.pkt.address = ((mc.queue k).slotAt i).pkt.address)
    (hs : sl.scheduled = true → sl.pkt.address ≠ 0) :
    Keeps mc (mc'.setQueue k ((mc'.queue k).setSlot i sl)) := by
  have h' : mc'.Sane := ⟨hrq ▸ h.rq, hwq ▸ h.wq⟩
  have hq : mc'.queue k = mc.queue k := by
    cases k
    · exact hrq
    · exact hwq
  rw [← hq] at hline
  obtain ⟨hsane, hlines⟩ := (h'.queue k).setSlot hline hs
  exact ⟨h'.setQueue hsane, (setQueue_rq_lines hlines).trans (by rw [hrq])⟩

theorem resetSlot_keeps {mc : MemoryController} (h : mc.Sane) (clk : Clock) (k : QueueKind)
    (i : Nat) : Keeps mc (mc.resetSlot clk k i) := by
  unfold resetSlot
  dsimp only
  split
  · refine h.keeps_setSlot ?_ ?_ rfl (by simp)
    · split
      · rfl
      · split <;> rfl
    · split
      · rfl
      · split <;> rfl
  · exact ⟨h, rfl⟩

theorem foldl_resetSlot_keeps (clk : Clock) (k : QueueKind) (is : List Nat) :
    ∀ {mc : MemoryController}, mc.Sane → Keeps mc (is.foldl (resetSlot clk k) mc) := by
  induction is with
  | nil => exact fun h => ⟨h, rfl⟩
  | cons i is ih =>
      intro mc h
      have hstep := resetSlot_keeps h clk k i
      exact hstep.trans (ih hstep.sane)

theorem resetRemainRequests_spec {mc mc' : MemoryController} (h : mc.Sane) {clk : Clock}
    {k : QueueKind} (hr : mc.resetRemainRequests clk k = .ok mc') :
    mc'.Ok ∧ mc'.rq.lines = mc.rq.lines := by
  have hfold := foldl_resetSlot_keeps clk k (List.range (mc.queue k).size) h
  have hok : ∀ mc₁ : MemoryController, Keeps mc mc₁ →
      ({ mc₁ with
        rq := mc₁.rq.updateScheduleCycle.updateProcessCycle
        wq := mc₁.wq.updateScheduleCycle.updateProcessCycle } : MemoryController).Ok :=
    fun mc₁ h₁ => ⟨h₁.sane.rq.updateScheduleCycle.updateProcessCycle,
      h₁.sane.wq.updateScheduleCycle.updateProcessCycle⟩
  unfold resetRemainRequests at hr
  dsimp only at hr
  split at hr
  · split at hr
    · cases hr
    · obtain rfl := Except.ok.inj hr
      exact ⟨hok _ hfold, hfold.lines⟩
  · split at hr
    · cases hr
    · obtain rfl := Except.ok.inj hr
      exact ⟨hok _ hfold, hfold.lines⟩

theorem switchMode_spec {mc mc' : MemoryController} (h : mc.Ok) {clk : Clock}
    (hr : mc.switchMode clk = .ok mc') : mc'.Ok ∧ mc'.rq.lines = mc.rq.lines := by
  have hmap : ∀ (k : QueueKind) (b : Bool) (f : MemoryController → MemoryController),
      (∀ mc, (f mc).rq = mc.rq ∧ (f mc).wq = mc.wq) →
      (resetRemainRequests clk k { mc with writeMode := b }).map f = .ok mc' →
      mc'.Ok ∧ mc'.rq.lines = mc.rq.lines := by
    intro k b f hf hr
    obtain ⟨mc₁, hreset, rfl⟩ := ok_of_map hr
    have hsane : ({ mc with writeMode := b } : MemoryController).Sane := ⟨h.sane.rq, h.sane.wq⟩
    obtain ⟨hok, hlines⟩ := resetRemainRequests_spec hsane hreset
    obtain ⟨hrq, hwq⟩ := hf mc₁
    exact ⟨⟨hrq ▸ hok.rq, hwq ▸ hok.wq⟩, by rw [hrq]; exact hlines⟩
  unfold switchMode at hr
  dsimp only at hr
  split at hr
  · refine hmap .rq true _ ?_ hr
    exact fun _ => ⟨rfl, rfl⟩
  · split at hr
    · refine hmap .wq false _ ?_ hr
      exact fun _ => ⟨rfl, rfl⟩
    · obtain rfl := Except.ok.inj hr
      exact ⟨h, rfl⟩

/-- A scan over schedulable slots finds one. -/
theorem minSlot_schedulable {mc : MemoryController} {q : PacketQueue} {sel : Slot → Bool}
    (hsel : ∀ sl, sel sl = true → mc.schedulable sl = true)
    (h : (q.minSlot sel).2 < q.size) : mc.schedulable (q.slotAt (q.minSlot sel).2) = true := by
  obtain ⟨sl, hsl, hs⟩ := PacketQueue.minSlot_spec h
  rw [PacketQueue.slotAt_eq hsl]
  exact hsel sl hs

theorem scheduleSlot_schedulable {mc : MemoryController} {q : PacketQueue}
    (h : mc.scheduleSlot q < q.size) :
    mc.schedulable (q.slotAt (mc.scheduleSlot q)) = true := by
  unfold scheduleSlot at h ⊢
  split
  · rename_i hrow
    exact minSlot_schedulable (fun sl hs => (Bool.and_eq_true_iff.mp hs).1) hrow
  · rename_i hrow
    rw [if_neg hrow] at h
    exact minSlot_schedulable (fun _ hs => hs) h

theorem schedulable_iff {mc : MemoryController} {sl : Slot} : mc.schedulable sl = true ↔
    sl.scheduled = false ∧ sl.pkt.address ≠ 0 ∧ (mc.bankOf sl).working = false := by
  simp [schedulable, and_assoc]

theorem schedule_spec {mc : MemoryController} (h : mc.Ok) (clk : Clock) (k : QueueKind) :
    (mc.schedule clk k).Ok ∧ (mc.schedule clk k).rq.lines = mc.rq.lines := by
  have hset : ∀ (mc' : MemoryController) (i cycle : Nat),
      mc'.rq = mc.rq → mc'.wq = mc.wq → ((mc.queue k).slotAt i).pkt.address ≠ 0 →
      let sl : Slot :=
        { pkt := { ((mc.queue k).slotAt i).pkt with eventCycle := cycle }, scheduled := true }
      let q := ((mc.queue k).setSlot i sl).updateScheduleCycle.updateProcessCycle
      (mc'.setQueue k q).Ok ∧ (mc'.setQueue k q).rq.lines = mc.rq.lines := by
    intro mc' i cycle hrq hwq hi sl q
    have hok' : mc'.Ok := ⟨hrq ▸ h.rq, hwq ▸ h.wq⟩
    have haddr : sl.pkt.address = ((mc.queue k).slotAt i).pkt.address := rfl
    obtain ⟨hsane, hlines⟩ := (h.sane.queue k).setSlot haddr fun _ => hi
    refine ⟨hok'.setQueue hsane.updateScheduleCycle.updateProcessCycle, ?_⟩
    cases k
    · exact hlines
    · exact congrArg PacketQueue.lines hrq
  unfold schedule
  dsimp only
  split
  · rename_i hlt
    refine hset _ _ _ ?_ ?_ (schedulable_iff.mp (scheduleSlot_schedulable hlt)).2.1
    · cases k <;> rfl
    · cases k <;> rfl
  · exact ⟨h, rfl⟩

/-- A finished transfer empties its slot. -/
theorem finishTransfer_spec {mc mc' : MemoryController} (h : mc.Ok) {k : QueueKind}
    {i b : Nat} (hi : ((mc.queue k).slotAt i).pkt.address ≠ 0)
    (hf : mc.finishTransfer k i b = .ok mc') : mc'.Ok ∧
      mc'.rq.lines = (match k with
        | .rq => mc.rq.lines.set i 0
        | .wq => mc.rq.lines) := by
  have hcount : ∀ q : PacketQueue, q.Sane → (q.slotAt i).pkt.address ≠ 0 →
      ∀ hits misses q', { q with rowBufferHit := hits, rowBufferMiss := misses }.removeQueue i
        = some q' → q'.updateProcessCycle.Ok ∧ q'.lines = q.lines.set i 0 := by
    intro q hq hi hits misses q' hr
    obtain ⟨hsane, hlines⟩ := PacketQueue.Sane.removeQueue
      (q := { q with rowBufferHit := hits, rowBufferMiss := misses })
      ⟨hq.length, hq.occupancy, hq.nodup, hq.scheduled⟩ hi hr
    exact ⟨hsane.updateProcessCycle, hlines⟩
  unfold finishTransfer at hf
  dsimp only at hf
  split at hf
  · cases hf
  · rename_i q' hr
    obtain rfl := Except.ok.inj hf
    have hq' : q'.updateProcessCycle.Ok ∧ q'.lines = (mc.queue k).lines.set i 0 := by
      split at hr
      · exact hcount _ (h.sane.queue k) hi _ _ q' hr
      · exact hcount _ (h.sane.queue k) hi _ _ q' hr
    cases k with
    | rq => exact ⟨⟨hq'.1, h.wq⟩, hq'.2⟩
    | wq => exact ⟨⟨h.rq, hq'.1⟩, rfl⟩

/-- The slot next to be processed is a scheduled one. -/
theorem processReady_scheduled {mc : MemoryController} (h : mc.Ok) {clk : Clock} {k : QueueKind}
    (hr : processReady clk (mc.queue k) = true) :
    (mc.queue k).nextProcessIndex < (mc.queue k).entry.length ∧
      ((mc.queue k).slotAt (mc.queue k).nextProcessIndex).scheduled = true := by
  simp only [processReady, Bool.and_eq_true, decide_eq_true_eq] at hr
  exact ⟨(h.queue k).length ▸ hr.1,
    (h.queue k).process hr.1 (lt_of_le_of_lt hr.2 (clk.cycle_lt _))⟩

/-- ... and so is used. -/
theorem processReady_used {mc : MemoryController} (h : mc.Ok) {clk : Clock} {k : QueueKind}
    (hr : processReady clk (mc.queue k) = true) :
    ((mc.queue k).slotAt (mc.queue k).nextProcessIndex).pkt.address ≠ 0 := by
  obtain ⟨hlt, hs⟩ := processReady_scheduled h hr
  refine (h.queue k).scheduled _ ?_ hs
  rw [PacketQueue.slotAt, List.getElem?_eq_getElem hlt]
  exact List.getElem_mem hlt

theorem process_spec {mc mc' : MemoryController} (h : mc.Ok) {clk : Clock} {k : QueueKind}
    {r : Option Nat} (hready : processReady clk (mc.queue k) = true)
    (hp : mc.process clk k = .ok (mc', r)) : mc'.Ok ∧ mc'.rq.lines = mc.rq.lines ∧
      ∀ i, r = some i → (mc'.rq.slotAt i).pkt.address ≠ 0 := by
  have hused := processReady_used h hready
  unfold process at hp
  dsimp only at hp
  split at hp
  · cases hp
  · split at hp
    · cases hp
    · split at hp
      · split at hp
        · cases k with
          | wq =>
              obtain ⟨mc₁, hf, heq⟩ := ok_of_map hp
              cases heq
              have hbus : ({ mc with
                  dbusCycleAvailable := clk.cycle (mc.wq.slotAt mc.wq.nextProcessIndex).pkt.cpu
                    + mc.dbusReturnTime } : MemoryController).Ok := ⟨h.rq, h.wq⟩
              obtain ⟨hok, hlines⟩ := finishTransfer_spec (k := .wq) hbus hused hf
              exact ⟨hok, hlines, by simp⟩
          | rq =>
              cases hp
              let sl : Slot := { mc.rq.slotAt mc.rq.nextProcessIndex with
                pkt := { (mc.rq.slotAt mc.rq.nextProcessIndex).pkt with
                  eventCycle := clk.cycle (mc.rq.slotAt mc.rq.nextProcessIndex).pkt.cpu
                    + mc.dbusReturnTime } }
              have haddr : sl.pkt.address
                  = (mc.rq.slotAt mc.rq.nextProcessIndex).pkt.address := rfl
              obtain ⟨hok, hlines⟩ := h.rq.setSlot haddr rfl
              refine ⟨⟨hok, h.wq⟩, hlines, ?_⟩
              rintro i ⟨⟩ h0
              exact hused ((PacketQueue.slotAt_address_congr hlines _).symm.trans h0)
        · cases hp
          exact ⟨⟨h.rq, h.wq⟩, rfl, by simp⟩
      · cases hp
        exact ⟨h, rfl, by simp⟩

theorem serve_spec {mc mc' : MemoryController} (h : mc.Ok) {clk : Clock} {k : QueueKind}
    {r : Option Nat} (hs : mc.serve clk k = .ok (mc', r)) : mc'.Ok ∧
      mc'.rq.lines = mc.rq.lines ∧ ∀ i, r = some i → (mc'.rq.slotAt i).pkt.address ≠ 0 := by
  have hmc : ∀ b : Bool, (if b then mc.schedule clk k else mc).Ok ∧
      (if b then mc.schedule clk k else mc).rq.lines = mc.rq.lines := by
    intro b
    cases b
    · exact ⟨h, rfl⟩
    · exact schedule_spec h clk k
  unfold serve at hs
  dsimp only at hs
  obtain ⟨hok, hlines⟩ := hmc (scheduleReady clk (mc.queue k))
  generalize (if scheduleReady clk (mc.queue k) then mc.schedule clk k else mc) = mc₁
    at hs hok hlines
  split at hs
  · rename_i hready
    obtain ⟨hok', hlines', hr⟩ := process_spec hok hready hs
    exact ⟨hok', hlines'.trans hlines, hr⟩
  · cases hs
    exact ⟨hok, hlines, by simp⟩

/-- One cycle keeps the lines of the read queue; a read handed over still
stands in its slot. -/
theorem operate_spec {mc mc' : MemoryController} (h : mc.Ok) {clk : Clock} {r : Option Nat}
    (ho : mc.operate clk = .ok (mc', r)) : mc'.Ok ∧ mc'.rq.lines = mc.rq.lines ∧
      ∀ i, r = some i → (mc'.rq.slotAt i).pkt.address ≠ 0 := by
  unfold operate at ho
  cases hsw : mc.switchMode clk with
  | error a =>
      rw [hsw] at ho
      cases ho
  | ok mc₁ =>
      rw [hsw] at ho
      obtain ⟨hok, hlines⟩ := switchMode_spec h hsw
      have hserve : ∀ k, mc₁.serve clk k = .ok (mc', r) → mc'.Ok ∧
          mc'.rq.lines = mc.rq.lines ∧
          ∀ i, r = some i → (mc'.rq.slotAt i).pkt.address ≠ 0 := by
        intro k hs
        obtain ⟨hok', hlines', hr⟩ := serve_spec hok hs
        exact ⟨hok', hlines'.trans hlines, hr⟩
      have ho : (if mc₁.writeMode then mc₁.serve clk .wq else mc₁.serve clk .rq)
          = .ok (mc', r) := ho
      split at ho
      · exact hserve .wq ho
      · exact hserve .rq ho

/-- After its callback a read leaves the read queue. -/
theorem processReadDone_spec {mc mc' : MemoryController} (h : mc.Ok) {i b : Nat}
    (hi : (mc.rq.slotAt i).pkt.address ≠ 0) (hp : mc.processReadDone i b = .ok mc') :
    mc'.Ok ∧ mc'.rq.lines = mc.rq.lines.set i 0 :=
  finishTransfer_spec (k := .rq) h hi hp

end MemoryController

end DramCache
