import DramCache.Banks

/-!
# First ready, first come first served

Which entry `schedule` picks, said without its two passes: an entry that is
in use, not scheduled and maps to an idle bank qualifies; if some of those
that qualify hit the open row of their bank the oldest of the hits is picked,
otherwise the oldest of all, the lower slot first among equals. `Oldest` is
what a scan with a running minimum finds (`minSlot_cases`), and the cached
indices of the queues rest on it too.
-/

namespace DramCache

namespace PacketQueue

/-- Slot `i` is selected, and no selected slot is older, nor as old and
lower. -/
structure Oldest (q : PacketQueue) (sel : Slot → Bool) (i : Nat) : Prop where
  lt : i < q.entry.length
  selected : sel (q.slotAt i) = true
  least : ∀ j, j < q.entry.length → sel (q.slotAt j) = true →
    (q.slotAt i).pkt.eventCycle < (q.slotAt j).pkt.eventCycle ∨
      (q.slotAt i).pkt.eventCycle = (q.slotAt j).pkt.eventCycle ∧ i ≤ j

/-! ## What a scan finds -/

/-- The running minimum over a list: it stays when nothing selected lies
below it, and else is the first of the least selected entries. -/
theorem scanMin_cases (sel : Slot → Bool) (l : List Slot) : ∀ (i : Nat) (best : Nat × Nat),
    (scanMin sel l i best = best ∧
      ∀ (j : Nat) (sl : Slot), l[j]? = some sl → sel sl = true → best.1 ≤ sl.pkt.eventCycle) ∨
    ∃ j sl, l[j]? = some sl ∧ sel sl = true ∧ sl.pkt.eventCycle < best.1 ∧
      scanMin sel l i best = (sl.pkt.eventCycle, i + j) ∧
      ∀ (j' : Nat) (sl' : Slot), l[j']? = some sl' → sel sl' = true →
        sl.pkt.eventCycle < sl'.pkt.eventCycle ∨
          sl.pkt.eventCycle = sl'.pkt.eventCycle ∧ j ≤ j' := by
  induction l with
  | nil => exact fun i best => .inl ⟨rfl, fun j sl h => by simp at h⟩
  | cons sl l ih =>
      intro i best
      rw [scanMin]
      by_cases hc : sel sl = true ∧ sl.pkt.eventCycle < best.1
      · rw [if_pos (by simpa using hc)]
        rcases ih (i + 1) (sl.pkt.eventCycle, i) with ⟨heq, hle⟩ | ⟨j, sl', hj, hsel, hlt, heq, hleast⟩
        · refine .inr ⟨0, sl, rfl, hc.1, hc.2, heq, fun j' sl' hj' hs' => ?_⟩
          cases j' with
          | zero => exact .inr ⟨by rw [Option.some.inj hj'], le_rfl⟩
          | succ j' =>
              rcases (hle j' sl' hj' hs').lt_or_eq with h | h
              · exact .inl h
              · exact .inr ⟨h, Nat.zero_le _⟩
        · refine .inr ⟨j + 1, sl', hj, hsel, hlt.trans hc.2, ?_, fun j' sl₂ hj' hs' => ?_⟩
          · rw [heq, Nat.add_right_comm, Nat.add_assoc]
          · cases j' with
            | zero => exact .inl (by rw [← Option.some.inj hj']; exact hlt)
            | succ j' =>
                rcases hleast j' sl₂ hj' hs' with h | ⟨h, hjj⟩
                · exact .inl h
                · exact .inr ⟨h, by omega⟩
      · rw [if_neg (by simpa using hc)]
        have hhead : sel sl = true → best.1 ≤ sl.pkt.eventCycle := fun hs =>
          not_lt.mp fun hlt => hc ⟨hs, hlt⟩
        rcases ih (i + 1) best with ⟨heq, hle⟩ | ⟨j, sl', hj, hsel, hlt, heq, hleast⟩
        · refine .inl ⟨heq, fun j' sl' hj' hs' => ?_⟩
          cases j' with
          | zero =>
              obtain rfl := Option.some.inj hj'
              exact hhead hs'
          | succ j' => exact hle j' sl' hj' hs'
        · refine .inr ⟨j + 1, sl', hj, hsel, hlt, ?_, fun j' sl₂ hj' hs' => ?_⟩
          · rw [heq, Nat.add_right_comm, Nat.add_assoc]
          · cases j' with
            | zero =>
                obtain rfl := Option.some.inj hj'
                exact .inl (hlt.trans_le (hhead hs'))
            | succ j' =>
                rcases hleast j' sl₂ hj' hs' with h | ⟨h, hjj⟩
                · exact .inl h
                · exact .inr ⟨h, by omega⟩

theorem getElem?_slotAt {q : PacketQueue} {i : Nat} (h : i < q.entry.length) :
    q.entry[i]? = some (q.slotAt i) := by
  rw [slotAt, List.getElem?_eq_getElem h]
  rfl

/-- A scan over a queue finds the oldest selected slot, or none lies below
`UINT64_MAX`. -/
theorem minSlot_cases (q : PacketQueue) (sel : Slot → Bool) :
    (q.minSlot sel = (uint64Max, q.size) ∧ ∀ j, j < q.entry.length → sel (q.slotAt j) = true →
      uint64Max ≤ (q.slotAt j).pkt.eventCycle) ∨
    ∃ i, q.Oldest sel i ∧ q.minSlot sel = ((q.slotAt i).pkt.eventCycle, i) := by
  rcases scanMin_cases sel q.entry 0 (uint64Max, q.size) with
    ⟨heq, hle⟩ | ⟨i, sl, hi, hsel, -, heq, hleast⟩
  · exact .inl ⟨heq, fun j hj hs => hle j _ (getElem?_slotAt hj) hs⟩
  · obtain rfl := slotAt_eq hi
    have hlt := (List.getElem?_eq_some_iff.mp hi).1
    rw [Nat.zero_add] at heq
    exact .inr ⟨i, ⟨hlt, hsel, fun j hj hs => hleast j _ (getElem?_slotAt hj) hs⟩, heq⟩

/-- The event cycles of the slots in use lie below `UINT64_MAX`, the mark
for "none". -/
def Timely (q : PacketQueue) : Prop :=
  ∀ i, (q.slotAt i).pkt.address ≠ 0 → (q.slotAt i).pkt.eventCycle < uint64Max

theorem timely_of_entries {q : PacketQueue}
    (h : ∀ sl ∈ q.entry, sl.pkt.address ≠ 0 → sl.pkt.eventCycle < uint64Max) : q.Timely :=
  fun _ hi => h _ (slotAt_mem (lt_of_used hi)) hi

/-- On timely slots a scan finds the oldest, and `SIZE` only when nothing
is selected. -/
theorem Timely.minSlot {q : PacketQueue} (h : q.Timely) (sel : Slot → Bool)
    (hused : ∀ i, sel (q.slotAt i) = true → (q.slotAt i).pkt.address ≠ 0) :
    (q.minSlot sel = (uint64Max, q.size) ∧
      ∀ j, j < q.entry.length → sel (q.slotAt j) = false) ∨
    ∃ i, q.Oldest sel i ∧ q.minSlot sel = ((q.slotAt i).pkt.eventCycle, i) := by
  rcases q.minSlot_cases sel with ⟨heq, hle⟩ | hold
  · refine .inl ⟨heq, fun j hj => Bool.eq_false_iff.mpr fun hs => ?_⟩
    exact absurd (h j (hused j hs)) (not_lt.mpr (hle j hj hs))
  · exact .inr hold

end PacketQueue

namespace MemoryController

open PacketQueue (Oldest Timely)

/-! ## The rule -/

/-- The entry in a slot qualifies: it is in use, not scheduled, and its bank
is idle. -/
structure Qualifies (mc : MemoryController) (k : QueueKind) (i : Nat) : Prop where
  lt : i < (mc.queue k).size
  used : ((mc.queue k).slotAt i).pkt.address ≠ 0
  waiting : ((mc.queue k).slotAt i).scheduled = false
  idle : (mc.bankRequest (dramGetBank ((mc.queue k).slotAt i).pkt.address)).working = false

/-- It hits the open row of its bank. -/
def RowHit (mc : MemoryController) (k : QueueKind) (i : Nat) : Prop :=
  (mc.bankRequest (dramGetBank ((mc.queue k).slotAt i).pkt.address)).openRow
    = dramGetRow ((mc.queue k).slotAt i).pkt.address

instance (mc : MemoryController) (k : QueueKind) (i : Nat) : Decidable (mc.RowHit k i) :=
  inferInstanceAs (Decidable (_ = _))

/-- Slot `i` comes before slot `j`: by event cycle, and the lower slot first. -/
def Before (mc : MemoryController) (k : QueueKind) (i j : Nat) : Prop :=
  ((mc.queue k).slotAt i).pkt.eventCycle < ((mc.queue k).slotAt j).pkt.eventCycle ∨
    ((mc.queue k).slotAt i).pkt.eventCycle = ((mc.queue k).slotAt j).pkt.eventCycle ∧ i ≤ j

/-- FR-FCFS: the oldest row hit, and the oldest entry when there is none. -/
structure Picks (mc : MemoryController) (k : QueueKind) (i : Nat) : Prop where
  qualifies : mc.Qualifies k i
  first : (mc.RowHit k i ∧ ∀ j, mc.Qualifies k j → mc.RowHit k j → mc.Before k i j) ∨
    ((∀ j, mc.Qualifies k j → ¬ mc.RowHit k j) ∧ ∀ j, mc.Qualifies k j → mc.Before k i j)

/-- When the entry picked has its data. -/
def completion (mc : MemoryController) (clk : Clock) (k : QueueKind) (i : Nat) : Nat :=
  clk.cycle ((mc.queue k).slotAt i).pkt.cpu
    + if mc.RowHit k i then mc.tCAS else mc.tRP + mc.tRCD + mc.tCAS

/-- Slot `i` is marked scheduled and its bank working, to be done at the
completion time; no other slot and no other bank is touched. -/
structure Schedules (mc : MemoryController) (clk : Clock) (k : QueueKind) (i : Nat)
    (mc' : MemoryController) : Prop where
  slot : (mc'.queue k).slotAt i =
    { pkt := { ((mc.queue k).slotAt i).pkt with eventCycle := mc.completion clk k i }
      scheduled := true }
  bank : mc'.bankRequest (dramGetBank ((mc.queue k).slotAt i).pkt.address) =
    { cycleAvailable := mc.completion clk k i
      openRow := dramGetRow ((mc.queue k).slotAt i).pkt.address
      working := true
      workingType := ((mc.queue k).slotAt i).pkt.type
      rowBufferHit := decide (mc.RowHit k i)
      isWrite := decide (k = .wq)
      isRead := decide (k = .rq)
      requestIndex := some i }
  otherSlots : ∀ j, j ≠ i → (mc'.queue k).slotAt j = (mc.queue k).slotAt j
  otherQueue : ∀ k', k' ≠ k → mc'.queue k' = mc.queue k'
  otherBanks : ∀ b, b ≠ dramGetBank ((mc.queue k).slotAt i).pkt.address →
    mc'.bankRequest b = mc.bankRequest b

/-! ## The two passes -/

section Passes

variable {mc : MemoryController} {k : QueueKind}

theorem qualifies_iff (hlen : (mc.queue k).entry.length = (mc.queue k).size) {i : Nat} :
    mc.Qualifies k i ↔ i < (mc.queue k).entry.length ∧
      mc.schedulable ((mc.queue k).slotAt i) = true := by
  rw [schedulable_iff, hlen]
  constructor
  · exact fun h => ⟨h.lt, h.waiting, h.used, h.idle⟩
  · exact fun ⟨hlt, hwait, hused, hidle⟩ => ⟨hlt, hused, hwait, hidle⟩

/-- The rule picks at most one entry. -/
theorem Picks.unique {i j : Nat} (hi : mc.Picks k i) (hj : mc.Picks k j) : i = j := by
  have horder : ∀ {i j}, mc.Before k i j → mc.Before k j i → i = j := by
    rintro i j (h | ⟨h, hij⟩) (h' | ⟨h', hji⟩) <;> omega
  rcases hi.first with ⟨hit, hleast⟩ | ⟨hmiss, hleast⟩
  · rcases hj.first with ⟨hjt, hleast'⟩ | ⟨hmiss', -⟩
    · exact horder (hleast j hj.qualifies hjt) (hleast' i hi.qualifies hit)
    · exact absurd hit (hmiss' i hi.qualifies)
  · rcases hj.first with ⟨hjt, -⟩ | ⟨-, hleast'⟩
    · exact absurd hjt (hmiss j hj.qualifies)
    · exact horder (hleast j hj.qualifies) (hleast' i hi.qualifies)

/-- The two passes find what the rule picks, or nothing qualifies. -/
theorem scheduleSlot_cases (hlen : (mc.queue k).entry.length = (mc.queue k).size)
    (htime : (mc.queue k).Timely) :
    (∃ i, mc.Picks k i ∧ mc.scheduleSlot (mc.queue k) = i ∧
      (mc.rowHitSlot (mc.queue k) < (mc.queue k).size ↔ mc.RowHit k i)) ∨
    (∀ i, ¬ mc.Qualifies k i) ∧ ¬ mc.scheduleSlot (mc.queue k) < (mc.queue k).size := by
  have hused : ∀ i, mc.schedulable ((mc.queue k).slotAt i) = true →
      ((mc.queue k).slotAt i).pkt.address ≠ 0 := fun i h => (schedulable_iff.mp h).2.1
  have hits : ∀ i, (mc.schedulable ((mc.queue k).slotAt i) &&
      decide ((mc.bankOf ((mc.queue k).slotAt i)).openRow
        = dramGetRow ((mc.queue k).slotAt i).pkt.address)) = true ↔
      mc.schedulable ((mc.queue k).slotAt i) = true ∧ mc.RowHit k i := fun i => by
    rw [Bool.and_eq_true, decide_eq_true_eq]
    exact Iff.rfl
  rcases htime.minSlot (fun sl => mc.schedulable sl &&
      decide ((mc.bankOf sl).openRow = dramGetRow sl.pkt.address))
      fun i h => hused i ((hits i).mp h).1 with
    ⟨hrow, hnone⟩ | ⟨i, hold, hrow⟩
  · -- no hit: the second pass decides
    have hmiss : ∀ j, mc.Qualifies k j → ¬ mc.RowHit k j := fun j hq hit => by
      obtain ⟨hlt, hs⟩ := (qualifies_iff hlen).mp hq
      exact Bool.eq_false_iff.mp (hnone j hlt) ((hits j).mpr ⟨hs, hit⟩)
    have hslot : mc.rowHitSlot (mc.queue k) = (mc.queue k).size := congrArg Prod.snd hrow
    have hsecond : mc.scheduleSlot (mc.queue k) = ((mc.queue k).minSlot mc.schedulable).2 := by
      rw [scheduleSlot, hslot, if_neg (lt_irrefl _)]
    rcases htime.minSlot mc.schedulable hused with ⟨hmin, hnone⟩ | ⟨i, hold, hmin⟩
    · refine .inr ⟨fun j hq => ?_, ?_⟩
      · obtain ⟨hlt, hs⟩ := (qualifies_iff hlen).mp hq
        exact Bool.eq_false_iff.mp (hnone j hlt) hs
      · rw [hsecond, hmin]
        exact lt_irrefl _
    · have hq := (qualifies_iff hlen).mpr ⟨hold.lt, hold.selected⟩
      refine .inl ⟨i, ⟨hq, .inr ⟨hmiss, fun j hj => ?_⟩⟩, by rw [hsecond, hmin], ?_⟩
      · obtain ⟨hlt, hs⟩ := (qualifies_iff hlen).mp hj
        exact hold.least j hlt hs
      · rw [hslot]
        exact ⟨fun h => absurd h (lt_irrefl _), fun h => absurd h (hmiss i hq)⟩
  · have hs := (hits i).mp hold.selected
    have hq := (qualifies_iff hlen).mpr ⟨hold.lt, hs.1⟩
    have hslot : mc.rowHitSlot (mc.queue k) = i := congrArg Prod.snd hrow
    refine .inl ⟨i, ⟨hq, .inl ⟨hs.2, fun j hj hit => ?_⟩⟩, ?_, ?_⟩
    · obtain ⟨hlt, hsj⟩ := (qualifies_iff hlen).mp hj
      exact hold.least j hlt ((hits j).mpr ⟨hsj, hit⟩)
    · rw [scheduleSlot, hslot, if_pos hq.lt]
    · rw [hslot]
      exact ⟨fun _ => hs.2, fun _ => hq.lt⟩

/-- What `schedule` does with the entry its passes have found. -/
theorem schedule_found {i : Nat} (clk : Clock)
    (hlen : (mc.queue k).entry.length = (mc.queue k).size) (hi : i < (mc.queue k).size)
    (hslot : mc.scheduleSlot (mc.queue k) = i)
    (hrow : mc.rowHitSlot (mc.queue k) < (mc.queue k).size ↔ mc.RowHit k i) :
    mc.Schedules clk k i (mc.schedule clk k) := by
  have hlt : i < (mc.queue k).entry.length := hlen ▸ hi
  have hhit : decide (mc.rowHitSlot (mc.queue k) < (mc.queue k).size) = decide (mc.RowHit k i) :=
    decide_eq_decide.mpr hrow
  have hdone : clk.cycle ((mc.queue k).slotAt i).pkt.cpu
      + (if decide (mc.RowHit k i) = true then mc.tCAS else mc.tRP + mc.tRCD + mc.tCAS)
        = mc.completion clk k i := by
    rw [completion]
    simp only [decide_eq_true_eq]
  unfold schedule
  dsimp only
  rw [hslot, if_pos hi, hhit, hdone]
  refine ⟨?_, ?_, fun j hj => ?_, fun k' hk => ?_, fun b hb => ?_⟩
  · cases k <;> exact PacketQueue.slotAt_set_self rfl hlt
  · cases k <;> exact Function.update_self ..
  · cases k <;> exact PacketQueue.slotAt_set_ne rfl hj.symm
  · cases k <;> cases k' <;> first | exact absurd rfl hk | rfl
  · cases k <;> exact Function.update_of_ne hb ..

end Passes

/-- **FR-FCFS.** `schedule` schedules the one entry the rule picks, and
leaves the controller as it is when no entry qualifies. -/
theorem schedule_fr_fcfs (mc : MemoryController) (clk : Clock) (k : QueueKind)
    (hlen : (mc.queue k).entry.length = (mc.queue k).size) (htime : (mc.queue k).Timely) :
    (∃ i, mc.Picks k i ∧ (∀ j, mc.Picks k j → j = i) ∧
      mc.Schedules clk k i (mc.schedule clk k)) ∨
    (∀ i, ¬ mc.Qualifies k i) ∧ mc.schedule clk k = mc := by
  rcases scheduleSlot_cases hlen htime with ⟨i, hpick, hslot, hrow⟩ | ⟨hnone, hslot⟩
  · exact .inl ⟨i, hpick, fun j hj => hj.unique hpick,
      schedule_found clk hlen hpick.qualifies.lt hslot hrow⟩
  · refine .inr ⟨hnone, ?_⟩
    unfold schedule
    exact if_neg hslot

/-- An older entry in slot 0 that misses the open row of its bank, and a
younger one in slot 1 that hits it. -/
def missAndHit : MemoryController :=
  { new 22 22 22 10 with
    bankRequest := fun _ => { openRow := 0 }
    rq := ((PacketQueue.new dramRqSize).insert { Packet.readOf 1029 with eventCycle := 3 }).insert
      { Packet.readOf 5 with eventCycle := 9 } }

/-- The hit is picked, and done after `tCAS`. -/
theorem schedule_fr_fcfs_row_hit : missAndHit.Picks .rq 1 ∧
    missAndHit.Schedules .zero .rq 1 (missAndHit.schedule .zero .rq) ∧
    missAndHit.completion .zero .rq 1 = 22 := by
  have htime : missAndHit.rq.Timely := PacketQueue.timely_of_entries (by decide +kernel)
  have honly : ∀ i < 64, ((missAndHit.schedule .zero .rq).rq.slotAt i).scheduled = true → i = 1 := by
    decide +kernel
  rcases schedule_fr_fcfs missAndHit .zero .rq rfl htime with ⟨i, hpick, -, hs⟩ | ⟨hnone, -⟩
  · obtain rfl : i = 1 := honly i hpick.qualifies.lt (congrArg Slot.scheduled hs.slot)
    exact ⟨hpick, hs, by decide +kernel⟩
  · exact absurd ⟨by decide, by decide +kernel, by decide +kernel, rfl⟩ (hnone 1)

end MemoryController

end DramCache
