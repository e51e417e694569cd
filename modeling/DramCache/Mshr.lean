import DramCache.Llc
import DramCache.Slots

/-!
# The MSHR of the last-level cache

A miss status register is an entry whose address is not 0. The addresses it
holds are distinct, the entries that are `INFLIGHT` are the lines a callback
may still come for, and the entry to be filled next is `COMPLETED`. Every
operation on the MSHR keeps this and says what it does to the two multisets
`held` and `awaited`.
-/

namespace DramCache

/-- The line an entry waits for, 0 when it waits for none. -/
def CachePacket.awaited (e : CachePacket) : Nat := if e.returned = .inflight then e.address else 0

namespace CacheQueue

/-- The line addresses entry by entry. -/
def lines (q : CacheQueue) : List Nat := q.entry.map fun e => e.address

/-- The lines that have an entry. -/
def held (q : CacheQueue) : Multiset Nat := Slots.used 0 q.lines

/-- The lines whose entry is in flight. -/
def awaited (q : CacheQueue) : Multiset Nat := Slots.used 0 (q.entry.map CachePacket.awaited)

/-- What is true of the MSHR between its operations. -/
structure MshrBase (q : CacheQueue) : Prop where
  length : q.entry.length = llcMshrSize
  nodup : q.held.Nodup
  occupancy : q.occupancy = q.held.card
  idle : ∀ i, (q.entryAt i).returned ≠ .idle → (q.entryAt i).address ≠ 0

/-- With the entry to fill next: one that is completed, or never. -/
structure MshrOk (q : CacheQueue) : Prop extends MshrBase q where
  next : q.nextFillCycle = uint64Max ∨ (q.entryAt q.nextFillIndex).returned = .completed

/-! ## Entries -/

section Entry

variable {q : CacheQueue} {i : Nat}

theorem entryAt_of_length_le (h : q.entry.length ≤ i) : q.entryAt i = {} := by
  rw [entryAt, List.getElem?_eq_none h]
  rfl

theorem entryAt_setEntry (q : CacheQueue) (i j : Nat) (e : CachePacket) :
    (q.setEntry i e).entryAt j = if i = j ∧ i < q.entry.length then e else q.entryAt j := by
  unfold entryAt setEntry
  rw [List.getElem?_set]
  by_cases hij : i = j
  · subst hij
    by_cases hi : i < q.entry.length
    · simp [hi]
    · simp [hi]
  · simp [hij]

theorem lines_get (h : i < q.entry.length) : q.lines[i]? = some (q.entryAt i).address := by
  simp [lines, entryAt, h]

theorem awaited_get (h : i < q.entry.length) :
    (q.entry.map CachePacket.awaited)[i]? = some (q.entryAt i).awaited := by
  simp [entryAt, h]

theorem lines_setEntry (e : CachePacket) : (q.setEntry i e).lines = q.lines.set i e.address := by
  rw [lines, setEntry, List.map_set, lines]

theorem awaited_setEntry (e : CachePacket) :
    (q.setEntry i e).entry.map CachePacket.awaited
      = (q.entry.map CachePacket.awaited).set i e.awaited := by
  rw [setEntry, List.map_set]

/-- Putting what stands there. -/
theorem set_same {α : Type*} {l : List α} {i : Nat} {a : α} (h : i < l.length → l[i]? = some a) :
    l.set i a = l := by
  by_cases hi : i < l.length
  · have hget := h hi
    rw [List.getElem?_eq_getElem hi, Option.some_inj] at hget
    rw [← hget, List.set_getElem_self]
  · exact List.set_eq_of_length_le (not_lt.mp hi)

/-- An entry that keeps its address and its state. -/
theorem setEntry_same {e : CachePacket} (ha : e.address = (q.entryAt i).address)
    (hr : e.returned = (q.entryAt i).returned) :
    (q.setEntry i e).held = q.held ∧ (q.setEntry i e).awaited = q.awaited := by
  have haw : e.awaited = (q.entryAt i).awaited := by rw [CachePacket.awaited, CachePacket.awaited, ha, hr]
  refine ⟨?_, ?_⟩
  · rw [held, lines_setEntry, set_same, held]
    intro hi
    rw [lines, List.length_map] at hi
    rw [lines_get hi, ha]
  · rw [awaited, awaited_setEntry, set_same, awaited]
    intro hi
    rw [List.length_map] at hi
    rw [awaited_get hi, haw]

end Entry

/-! ## Looking up an address -/

section Check

variable {q : CacheQueue} {i a : Nat}

theorem checkMshr_some (h : q.checkMshr a = some i) :
    i < q.entry.length ∧ (q.entryAt i).address = a := by
  obtain ⟨hi, hp, -⟩ := List.findIdx?_eq_some_iff_getElem.mp h
  refine ⟨hi, ?_⟩
  rw [entryAt, List.getElem?_eq_getElem hi]
  simpa using hp

theorem checkMshr_none (h : q.checkMshr a = none) : a ∉ q.lines := by
  intro hm
  obtain ⟨e, he, rfl⟩ := List.mem_map.mp hm
  have := List.findIdx?_eq_none_iff.mp h e he
  simp at this

/-- A line that is held is found. -/
theorem checkMshr_of_held (h : a ∈ q.held) : ∃ i, q.checkMshr a = some i := by
  cases hc : q.checkMshr a with
  | some i => exact ⟨i, rfl⟩
  | none => exact absurd ((Slots.mem_used 0).mp h).1 (checkMshr_none hc)

end Check

/-- A line is awaited once at most, by the entry that holds it. -/
theorem awaited_le (q : CacheQueue) : q.awaited ≤ q.held := by
  unfold awaited held lines
  induction q.entry with
  | nil => exact le_rfl
  | cons e l ih =>
      have hcons : ∀ (b : Nat) (m : List Nat),
          Slots.used 0 (b :: m) = (if b = 0 then 0 else {b}) + Slots.used 0 m := by
        intro b m
        unfold Slots.used
        rw [← Multiset.cons_coe, Multiset.filter_cons]
        by_cases hb : b = 0 <;> simp [hb]
      rw [List.map_cons, List.map_cons, hcons, hcons]
      refine add_le_add ?_ ih
      unfold CachePacket.awaited
      split
      · exact le_rfl
      · exact Multiset.zero_le _

theorem mem_held_of_awaited {q : CacheQueue} {a : Nat} (h : a ∈ q.awaited) : a ∈ q.held :=
  Multiset.mem_of_le q.awaited_le h

theorem MshrBase.count_awaited {q : CacheQueue} (h : q.MshrBase) (a : Nat) :
    q.awaited.count a ≤ 1 :=
  (Multiset.count_le_of_le a q.awaited_le).trans (Multiset.nodup_iff_count_le_one.mp h.nodup a)

/-! ## The entry to fill next -/

/-- The scan ends where it began or at a completed entry. -/
theorem scanFill_spec : ∀ (l : List CachePacket) (i : Nat) (best : Nat × Nat),
    scanFill l i best = best ∨
      ∃ j e, l[j]? = some e ∧ e.returned = .completed ∧ (scanFill l i best).2 = i + j
  | [], _, _ => .inl rfl
  | e :: rest, i, best => by
      rw [scanFill]
      rcases scanFill_spec rest (i + 1)
        (if e.returned = .completed ∧ e.eventCycle < best.1 then (e.eventCycle, i) else best)
        with h | ⟨j, e', hj, hc, hi⟩
      · rw [h]
        split
        · rename_i hsel
          exact .inr ⟨0, e, rfl, hsel.1, rfl⟩
        · exact .inl rfl
      · refine .inr ⟨j + 1, e', by simpa using hj, hc, ?_⟩
        rw [hi]
        omega

@[simp] theorem updateFillCycle_awaited (q : CacheQueue) : q.updateFillCycle.awaited = q.awaited :=
  rfl

@[simp] theorem updateFillCycle_entryAt (q : CacheQueue) (i : Nat) :
    q.updateFillCycle.entryAt i = q.entryAt i := rfl

/-- The entry to fill next is completed, or there is none. -/
theorem updateFillCycle_next (q : CacheQueue) :
    q.updateFillCycle.nextFillCycle = uint64Max ∨
      (q.updateFillCycle.entryAt q.updateFillCycle.nextFillIndex).returned = .completed := by
  rcases scanFill_spec q.entry 0 (uint64Max, q.size) with hs | ⟨j, e, hj, hc, hi⟩
  · left
    rw [CacheQueue.updateFillCycle, hs]
  · right
    have hat : q.entryAt j = e := by rw [entryAt, hj, Option.getD_some]
    rw [updateFillCycle_entryAt, CacheQueue.updateFillCycle, hi, Nat.zero_add, hat]
    exact hc

theorem MshrBase.updateFillCycle {q : CacheQueue} (h : q.MshrBase) : q.updateFillCycle.MshrOk where
  toMshrBase := ⟨h.length, h.nodup, h.occupancy, h.idle⟩
  next := q.updateFillCycle_next

/-! ## The operations -/

section Operations

variable {q : CacheQueue} {i : Nat}

/-- A new miss takes a free entry. -/
theorem MshrOk.addMshr (h : q.MshrOk) {pkt : CachePacket} (hpkt : pkt.address ≠ 0)
    (hnew : q.checkMshr pkt.address = none) (hroom : q.occupancy < llcMshrSize) :
    (q.addMshr pkt).MshrOk ∧ (q.addMshr pkt).awaited = pkt.address ::ₘ q.awaited ∧
      ∀ j, (q.entryAt j).returned = .completed →
        ((q.addMshr pkt).entryAt j).returned = .completed := by
  obtain ⟨i, hi⟩ : ∃ i, q.checkMshr 0 = some i := by
    have hfree : (0 : Nat) ∈ q.lines := by
      refine Slots.exists_free ?_
      rw [lines, List.length_map, h.length, ← lines, ← held, ← h.occupancy]
      exact hroom
    cases hc : q.checkMshr 0 with
    | some i => exact ⟨i, rfl⟩
    | none => exact absurd hfree (checkMshr_none hc)
  obtain ⟨hlt, hzero⟩ := checkMshr_some hi
  have hidle : (q.entryAt i).returned = .idle := by
    by_contra hr
    exact h.idle i hr hzero
  have hnotin : pkt.address ∉ q.held := fun hm =>
    checkMshr_none hnew ((Slots.mem_used 0).mp hm).1
  have hadd : q.addMshr pkt =
      { q.setEntry i { pkt with returned := .inflight } with occupancy := q.occupancy + 1 } := by
    rw [CacheQueue.addMshr, hi]
    rfl
  have hlines : (q.addMshr pkt).held = pkt.address ::ₘ q.held := by
    rw [hadd]
    show Slots.used 0 (q.setEntry i { pkt with returned := .inflight }).lines = _
    rw [lines_setEntry]
    exact Slots.used_fill (by rw [lines_get hlt, hzero]) hpkt
  have hat : ∀ j, (q.addMshr pkt).entryAt j
      = if i = j ∧ i < q.entry.length then { pkt with returned := .inflight } else q.entryAt j := by
    intro j
    rw [hadd]
    exact entryAt_setEntry ..
  have hkept : ∀ j, (q.entryAt j).returned = .completed →
      ((q.addMshr pkt).entryAt j).returned = .completed := by
    intro j hj
    have hne : ¬ (i = j ∧ i < q.entry.length) := by
      rintro ⟨rfl, -⟩
      rw [hidle] at hj
      cases hj
    rw [hat, if_neg hne]
    exact hj
  refine ⟨⟨⟨?_, ?_, ?_, ?_⟩, ?_⟩, ?_, hkept⟩
  · rw [hadd]
    simp [setEntry, h.length]
  · rw [hlines, Multiset.nodup_cons]
    exact ⟨hnotin, h.nodup⟩
  · rw [hlines, Multiset.card_cons, hadd, h.occupancy]
  · intro j
    rw [hat]
    split
    · exact fun _ => hpkt
    · exact h.idle j
  · rcases h.next with hn | hn
    · exact .inl (by rw [hadd]; exact hn)
    · refine .inr ?_
      have hix : (q.addMshr pkt).nextFillIndex = q.nextFillIndex := by rw [hadd]; rfl
      rw [hix]
      exact hkept _ hn
  · rw [hadd]
    show Slots.used 0 ((q.setEntry i { pkt with returned := .inflight }).entry.map
      CachePacket.awaited) = _
    rw [awaited_setEntry]
    refine Slots.used_fill ?_ hpkt
    rw [awaited_get hlt, CachePacket.awaited, hidle]
    rfl

/-- A miss merges into its entry. -/
theorem MshrOk.merge (h : q.MshrOk) {e : CachePacket} (ha : e.address = (q.entryAt i).address)
    (hr : e.returned = (q.entryAt i).returned) :
    (q.setEntry i e).MshrOk ∧ (q.setEntry i e).awaited = q.awaited ∧
      ∀ j, (q.entryAt j).returned = .completed →
        ((q.setEntry i e).entryAt j).returned = .completed := by
  have hsame := setEntry_same ha hr
  have hret : ∀ j, ((q.setEntry i e).entryAt j).returned = (q.entryAt j).returned ∧
      ((q.setEntry i e).entryAt j).address = (q.entryAt j).address := by
    intro j
    rw [entryAt_setEntry]
    split
    · rename_i hij
      rw [← hij.1]
      exact ⟨hr, ha⟩
    · exact ⟨rfl, rfl⟩
  refine ⟨⟨⟨?_, ?_, ?_, ?_⟩, ?_⟩, hsame.2, fun j hj => (hret j).1.trans hj⟩
  · rw [setEntry, List.length_set]
    exact h.length
  · rw [hsame.1]
    exact h.nodup
  · rw [hsame.1]
    exact h.occupancy
  · intro j
    rw [(hret j).1, (hret j).2]
    exact h.idle j
  · exact h.next.imp id fun hn => (hret _).1.trans hn

/-- A callback for a line that is held completes its entry. -/
theorem MshrOk.complete (h : q.MshrOk) {a : Nat} (ha : a ≠ 0) (hi : q.checkMshr a = some i)
    {e : CachePacket} (he : e.address = a) (hr : e.returned = .completed) :
    (q.setEntry i e).updateFillCycle.MshrOk ∧ (q.setEntry i e).held = q.held ∧
      (∀ b, b ≠ a → (q.setEntry i e).awaited.count b = q.awaited.count b) ∧
      ∀ j, (q.entryAt j).returned = .completed →
        ((q.setEntry i e).entryAt j).returned = .completed := by
  obtain ⟨hlt, haddr⟩ := checkMshr_some hi
  have hheld : (q.setEntry i e).held = q.held := by
    rw [held, lines_setEntry, set_same, held]
    intro _
    rw [lines_get hlt, haddr, he]
  have hdone : e.awaited = 0 := by simp [CachePacket.awaited, hr]
  refine ⟨MshrBase.updateFillCycle ⟨?_, ?_, ?_, ?_⟩, hheld, fun b hb => ?_, fun j hj => ?_⟩
  · rw [setEntry, List.length_set]
    exact h.length
  · rw [hheld]
    exact h.nodup
  · rw [hheld]
    exact h.occupancy
  · intro j
    rw [entryAt_setEntry]
    split
    · rw [he]
      exact fun _ => ha
    · exact h.idle j
  · unfold awaited
    rw [awaited_setEntry, hdone]
    have hget := awaited_get hlt
    by_cases hw : (q.entryAt i).awaited = 0
    · rw [set_same fun _ => by rw [hget, hw]]
    · have hline : (q.entryAt i).awaited = a := by
        unfold CachePacket.awaited at hw ⊢
        split at hw
        · rename_i hin
          rw [if_pos hin, haddr]
        · exact absurd rfl hw
      rw [Slots.used_free hget hw, hline, Multiset.count_cons_of_ne hb]
  · rw [entryAt_setEntry]
    split
    · exact hr
    · exact hj

/-- A completed entry is filled and leaves. -/
theorem MshrOk.remove (h : q.MshrOk) {q' : CacheQueue} (hc : (q.entryAt i).returned = .completed)
    (hr : q.removeQueue i = some q') :
    q'.updateFillCycle.MshrOk ∧ q'.awaited = q.awaited := by
  have haddr : (q.entryAt i).address ≠ 0 := h.idle i (by rw [hc]; decide)
  have hlt : i < q.entry.length := by
    by_contra hi
    rw [entryAt_of_length_le (not_lt.mp hi)] at haddr
    exact haddr rfl
  unfold removeQueue at hr
  split at hr
  · cases hr
  obtain rfl := Option.some.inj hr
  have hheld : q.held = (q.entryAt i).address ::ₘ Slots.used 0 (q.lines.set i 0) :=
    Slots.used_free (lines_get hlt) haddr
  have hlines : (q.setEntry i {}).held = Slots.used 0 (q.lines.set i 0) := by
    rw [held, lines_setEntry]
  refine ⟨MshrBase.updateFillCycle ⟨?_, ?_, ?_, ?_⟩, ?_⟩
  · exact (List.length_set ..).trans h.length
  · show (q.setEntry i {}).held.Nodup
    have := h.nodup
    rw [hheld, Multiset.nodup_cons] at this
    rw [hlines]
    exact this.2
  · show dec32 q.occupancy = (q.setEntry i {}).held.card
    rw [hlines, h.occupancy, hheld, Multiset.card_cons]
    simp [dec32]
  · intro j
    show ((q.setEntry i {}).entryAt j).returned ≠ .idle → ((q.setEntry i {}).entryAt j).address ≠ 0
    rw [entryAt_setEntry]
    split
    · exact fun hn => absurd rfl hn
    · exact h.idle j
  · show (q.setEntry i {}).awaited = q.awaited
    rw [awaited, awaited_setEntry, set_same, awaited]
    intro _
    rw [awaited_get hlt, CachePacket.awaited, hc]
    rfl

end Operations

end CacheQueue

end DramCache
