import DramCache.LiveLines

/-!
# Merging into an entry of the MSHR

A miss whose line is in flight merges into the entry there is: reads in
`handle_read`, stores of the first-level data cache in `handle_writeback`,
prefetches in `handle_prefetch`. Each of them takes the smaller fill level and
the union of the upper caches that wait, but the first two then put the request
in the place of an entry that a prefetch made, and what it had of its own is
gone (`merge_keeps_waiters`).
-/

namespace DramCache

open Worklist (Reaches)

namespace Cache

variable {cfg : CacheConfig} {s s' : Cache} {ks : List CacheCall}

/-- The line of the request is not in the cache, and entry `j` waits for it. -/
def InFlight (cfg : CacheConfig) (s : Cache) (e : CachePacket) (j : Nat) : Prop :=
  s.checkHit cfg e.address = none ∧ s.mshr.checkMshr e.address = some j

/-- The three calls that merge a request `e` into entry `j` of the MSHR. -/
inductive Merges (cfg : CacheConfig) (s : Cache) : CacheCall → CachePacket → Nat → Prop
  | read {left j : Nat} (due : s.Due s.rq)
      (flight : s.InFlight cfg (s.rq.entryAt s.rq.head) j) :
      Merges cfg s (.handleRead (left + 1)) (s.rq.entryAt s.rq.head) j
  | store {j : Nat} (l1d : cfg.cacheType = .l1d) (due : s.Due s.wq)
      (flight : s.InFlight cfg (s.wq.entryAt s.wq.head) j) :
      Merges cfg s .handleWriteback (s.wq.entryAt s.wq.head) j
  | prefetch {left j : Nat} (due : s.Due s.pq)
      (flight : s.InFlight cfg (s.pq.entryAt s.pq.head) j) :
      Merges cfg s (.handlePrefetch (left + 1)) (s.pq.entryAt s.pq.head) j

instance (e : CachePacket) (j : Nat) : Decidable (s.InFlight cfg e j) :=
  inferInstanceAs (Decidable (_ ∧ _))

/-- Entry `m` has become `m'` on behalf of `e` without losing anybody. -/
structure KeepsWaiters (m e m' : CachePacket) : Prop where
  fillLevel : m'.fillLevel = min m.fillLevel e.fillLevel
  fillL1i : m'.fillL1i = (m.fillL1i || e.fillL1i)
  fillL1d : m'.fillL1d = (m.fillL1d || e.fillL1d)
  returned : m'.returned = m.returned
  eventCycle : m'.eventCycle = m.eventCycle

/-- In a second-level cache: when entry `j`, as `m'`, is filled, all that wait
for `m` or `e` are answered. -/
def AnswersAll (cfg : CacheConfig) (j : Nat) (m e m' : CachePacket) : Prop :=
  cfg.fillLevel = 2 → ∀ (t t' : Cache) (set way : Nat), t.mshr.entryAt j = m' →
    t.finishFill cfg j set way = .ok t' →
    ∀ p, p ∈ cfg.waiters m ∨ p ∈ cfg.waiters e → (p, m') ∈ t'.answers

/-- The request waits for all the entry waits for. -/
def Covers (e m : CachePacket) : Prop :=
  e.fillLevel ≤ m.fillLevel ∧ (m.fillL1i = true → e.fillL1i = true) ∧
    (m.fillL1d = true → e.fillL1d = true)

instance (e m : CachePacket) : Decidable (Covers e m) := inferInstanceAs (Decidable (_ ∧ _ ∧ _))

/-- What `merge_keeps_waiters` asks of the call, the entry and the request. -/
def SafeMerge (c : CacheCall) (m e : CachePacket) : Prop :=
  (∃ left, c = .handlePrefetch left) ∨ m.type ≠ .prefetch ∨ Covers e m

/-! ## Entries -/

variable {m e m' : CachePacket}

/-- The part the three handlers share loses nobody. -/
theorem updateFill_keeps (hl : m'.fillLevel = m.fillLevel) (hi : m'.fillL1i = m.fillL1i)
    (hd : m'.fillL1d = m.fillL1d) (hr : m'.returned = m.returned)
    (hc : m'.eventCycle = m.eventCycle) : KeepsWaiters m e (m'.updateFill e) where
  fillLevel := by
    change (if e.fillLevel < m'.fillLevel then e.fillLevel else m'.fillLevel) = _
    rw [hl]
    split <;> omega
  fillL1i := by
    change (e.fillL1i || m'.fillL1i) = _
    rw [hi, Bool.or_comm]
  fillL1d := by
    change (e.fillL1d || m'.fillL1d) = _
    rw [hd, Bool.or_comm]
  returned := hr
  eventCycle := hc

/-- A request that takes the place of the entry keeps what it waits for
itself. -/
theorem replaced_keeps_iff :
    KeepsWaiters m e { e with returned := m.returned, eventCycle := m.eventCycle } ↔
      Covers e m := by
  constructor
  · intro h
    refine ⟨?_, ?_, ?_⟩
    · have hl : e.fillLevel = min m.fillLevel e.fillLevel := h.fillLevel
      omega
    · intro hm
      have hi : e.fillL1i = (m.fillL1i || e.fillL1i) := h.fillL1i
      rw [hi, hm, Bool.true_or]
    · intro hm
      have hd : e.fillL1d = (m.fillL1d || e.fillL1d) := h.fillL1d
      rw [hd, hm, Bool.true_or]
  · rintro ⟨hl, hi, hd⟩
    refine ⟨(min_eq_right hl).symm, ?_, ?_, rfl, rfl⟩
    · change e.fillL1i = (m.fillL1i || e.fillL1i)
      cases hm : m.fillL1i
      · rfl
      · rw [hi hm, Bool.true_or]
    · change e.fillL1d = (m.fillL1d || e.fillL1d)
      cases hm : m.fillL1d
      · rfl
      · rw [hd hm, Bool.true_or]

theorem markConsumer_eq (m e : CachePacket) :
    (m.markConsumer e).fillLevel = m.fillLevel ∧ (m.markConsumer e).fillL1i = m.fillL1i ∧
      (m.markConsumer e).fillL1d = m.fillL1d ∧ (m.markConsumer e).returned = m.returned ∧
      (m.markConsumer e).eventCycle = m.eventCycle ∧ (m.markConsumer e).type = m.type := by
  unfold CachePacket.markConsumer
  split
  · exact ⟨rfl, rfl, rfl, rfl, rfl, rfl⟩
  · split <;> exact ⟨rfl, rfl, rfl, rfl, rfl, rfl⟩

/-- "update request", after what the three handlers share. -/
theorem updateRequest_keeps_iff (hl : m'.fillLevel = m.fillLevel) (hi : m'.fillL1i = m.fillL1i)
    (hd : m'.fillL1d = m.fillL1d) (hr : m'.returned = m.returned)
    (hc : m'.eventCycle = m.eventCycle) (ht : m'.type = m.type) :
    KeepsWaiters m e ((m'.updateFill e).updateRequest e) ↔ m.type ≠ .prefetch ∨ Covers e m := by
  unfold CachePacket.updateRequest
  by_cases hpf : m.type = .prefetch
  · have hty : (m'.updateFill e).type = .prefetch := ht.trans hpf
    rw [if_pos hty]
    change KeepsWaiters m e { e with returned := m'.returned, eventCycle := m'.eventCycle } ↔ _
    rw [hr, hc, replaced_keeps_iff]
    simp [hpf]
  · have hty : ¬ (m'.updateFill e).type = .prefetch := fun h => hpf (ht.symm.trans h)
    rw [if_neg hty]
    simp [hpf, updateFill_keeps hl hi hd hr hc]

/-! ## Calls -/

theorem InFlight.entryAt {j : Nat} (h : s.InFlight cfg e j) (m : CachePacket) :
    (s.mshr.setEntry j m).entryAt j = m := by
  rw [CacheQueue.entryAt_setEntry, if_pos ⟨rfl, (CacheQueue.checkMshr_some h.2).1⟩]

theorem handleRead_merge {left j : Nat} (due : s.Due s.rq)
    (flight : s.InFlight cfg (s.rq.entryAt s.rq.head) j) :
    s.handleRead cfg (left + 1) =
      .ok (s.mergeRead (s.rq.entryAt s.rq.head) j, [.readMissHandled s.rq.head left]) := by
  obtain ⟨hcpu, hdue⟩ := due
  obtain ⟨hmiss, hj⟩ := flight
  simp only [handleRead, hcpu, hdue, hmiss, hj, if_false, and_self, if_true]

theorem handleWriteback_merge {j : Nat} (l1d : cfg.cacheType = .l1d) (due : s.Due s.wq)
    (flight : s.InFlight cfg (s.wq.entryAt s.wq.head) j) :
    s.handleWriteback cfg = .ok (s.mergeRfo (s.wq.entryAt s.wq.head) j, [.removeWrite s.wq.head]) := by
  obtain ⟨hcpu, hdue⟩ := due
  obtain ⟨hmiss, hj⟩ := flight
  simp only [handleWriteback, rfoMiss, l1d, hcpu, hdue, hmiss, hj, if_false, and_self, if_true]

theorem handlePrefetch_merge {left j : Nat} (due : s.Due s.pq)
    (flight : s.InFlight cfg (s.pq.entryAt s.pq.head) j) :
    s.handlePrefetch cfg (left + 1) =
      .ok (s.mergePrefetch (s.pq.entryAt s.pq.head) j, [.removePrefetch s.pq.head left]) := by
  obtain ⟨hcpu, hdue⟩ := due
  obtain ⟨hmiss, hj⟩ := flight
  simp only [handlePrefetch, hcpu, hdue, hmiss, hj, if_false, and_self, if_true]

/-- The upper cache a packet is to be filled in. -/
def fillsAt (m : CachePacket) : Port → Bool
  | .icache => m.fillL1i
  | .dcache => m.fillL1d

theorem mem_waiters (hcfg : cfg.fillLevel = 2) {p : Port} :
    p ∈ cfg.waiters m ↔ m.fillLevel < 2 ∧ fillsAt m p = true := by
  unfold CacheConfig.waiters
  rw [hcfg, if_pos rfl]
  by_cases hlt : m.fillLevel < 2
  · rw [if_pos hlt]
    cases p <;> simp [hlt, fillsAt]
  · rw [if_neg hlt]
    simp [hlt]

theorem KeepsWaiters.fillsAt_eq (h : KeepsWaiters m e m') (p : Port) :
    fillsAt m' p = (fillsAt m p || fillsAt e p) := by
  cases p with
  | icache => exact h.fillL1i
  | dcache => exact h.fillL1d

/-- Whoever waited waits for the entry, at the second level. -/
theorem KeepsWaiters.waiters (h : KeepsWaiters m e m') (hcfg : cfg.fillLevel = 2) {p : Port}
    (hp : p ∈ cfg.waiters m ∨ p ∈ cfg.waiters e) : p ∈ cfg.waiters m' := by
  rw [mem_waiters hcfg, mem_waiters hcfg] at hp
  rw [mem_waiters hcfg, h.fillLevel, h.fillsAt_eq]
  rcases hp with ⟨hlt, hfills⟩ | ⟨hlt, hfills⟩
  · exact ⟨by omega, by rw [hfills, Bool.true_or]⟩
  · exact ⟨by omega, by rw [hfills, Bool.or_true]⟩

theorem KeepsWaiters.answersAll {j : Nat} (h : KeepsWaiters m e m') : AnswersAll cfg j m e m' := by
  intro hcfg t t' set way ht hfin p hp
  obtain ⟨block, dirty, q, -, -, rfl⟩ := finishFill_ok hfin
  refine List.mem_append_right _ (List.mem_map.mpr ⟨p, ?_, by rw [ht]⟩)
  rw [ht]
  exact h.waiters hcfg hp

/-- A merge keeps all that the entry and the request wait for exactly when the
entry is not put aside for the request, or the request waits for as much; and
then the fill of the entry at the second level answers all of them. -/
theorem merge_keeps_waiters {c : CacheCall} {j : Nat} (h : Merges cfg s c e j) :
    ∃ s' ks, s.exec cfg c = .ok (s', ks) ∧
      (KeepsWaiters (s.mshr.entryAt j) e (s'.mshr.entryAt j) ∧
          AnswersAll cfg j (s.mshr.entryAt j) e (s'.mshr.entryAt j) ↔
        SafeMerge c (s.mshr.entryAt j) e) := by
  obtain ⟨hl, hi, hd, hr, hc, ht⟩ := markConsumer_eq (s.mshr.entryAt j) e
  cases h with
  | read due flight =>
      refine ⟨_, _, handleRead_merge due flight, ?_⟩
      rw [and_iff_left_of_imp KeepsWaiters.answersAll]
      change KeepsWaiters _ _ ((s.mshr.setEntry j _).entryAt j) ↔ _
      rw [flight.entryAt, updateRequest_keeps_iff hl hi hd hr hc ht]
      simp [SafeMerge]
  | store l1d due flight =>
      refine ⟨_, _, handleWriteback_merge l1d due flight, ?_⟩
      rw [and_iff_left_of_imp KeepsWaiters.answersAll]
      change KeepsWaiters _ _ ((s.mshr.setEntry j _).entryAt j) ↔ _
      rw [flight.entryAt, updateRequest_keeps_iff rfl rfl rfl rfl rfl rfl]
      simp [SafeMerge]
  | prefetch due flight =>
      refine ⟨_, _, handlePrefetch_merge due flight, ?_⟩
      rw [and_iff_left_of_imp KeepsWaiters.answersAll]
      change KeepsWaiters _ _ ((s.mshr.setEntry j _).entryAt j) ↔ _
      rw [flight.entryAt]
      simp [SafeMerge, updateFill_keeps]

/-- A prefetch of the first-level data cache is in flight when a fetch of the
same line comes. -/
def prefetchThenFetch : List CacheOp :=
  [.addPq { address := 5, cpu := 0, type := .prefetch, fillLevel := 1, fillL1d := true,
            pfOriginLevel := 1, eventCycle := 0 },
   .operate {},
   .addRq { address := 5, cpu := 0, instruction := true, isData := false, fillLevel := 1,
            fillL1i := true, eventCycle := 0 }]

/-- A load of the line has joined the fetch before it is handled. -/
def load : CacheOp :=
  .addRq { address := 5, cpu := 0, fillLevel := 1, fillL1d := true, eventCycle := 0 }

theorem merge_keeps_waiters_load :
    ∃ s, Reaches (machine l2c) (fun _ => True) (new l2c) ([], s) ∧
      ∃ s' ks, s.exec l2c (.handleRead 1) = .ok (s', ks) ∧
        KeepsWaiters (s.mshr.entryAt 0) (s.rq.entryAt s.rq.head) (s'.mshr.entryAt 0) := by
  obtain ⟨s, hs, hfacts⟩ := Option.map_eq_some_iff.mp (show (Worklist.drive (machine l2c) 60
    (prefetchThenFetch ++ [load]) (new l2c)).map (fun s => decide (s.Due s.rq ∧
      s.InFlight l2c (s.rq.entryAt s.rq.head) 0 ∧
      Covers (s.rq.entryAt s.rq.head) (s.mshr.entryAt 0))) = some true by decide +kernel)
  obtain ⟨hdue, hflight, hcovers⟩ := of_decide_eq_true hfacts
  obtain ⟨s', ks, he, hiff⟩ := merge_keeps_waiters (.read hdue hflight)
  exact ⟨s, Worklist.drive_reaches (fun _ _ => trivial) .refl hs, s', ks, he,
    (hiff.mpr (.inr (.inr hcovers))).1⟩

/-- The line comes back and is filled. -/
def fillBack : List CacheOp :=
  [.operate {}, .returnData lineBack, .operate {}]

/-- Without the load the data cache is forgotten, and only the instruction
cache is answered. -/
theorem merge_loses_l1d :
    ∃ s s' ks, Reaches (machine l2c) (fun _ => True) (new l2c) ([], s) ∧
      Merges l2c s (.handleRead 1) (s.rq.entryAt s.rq.head) 0 ∧
      s.exec l2c (.handleRead 1) = .ok (s', ks) ∧
      ¬ KeepsWaiters (s.mshr.entryAt 0) (s.rq.entryAt s.rq.head) (s'.mshr.entryAt 0) ∧
      ∃ t, Reaches (machine l2c) (fun _ => True) (new l2c) ([], t) ∧
        t.answers.map Prod.fst = [.icache] ∧ t.mshr.occupancy = 0 := by
  obtain ⟨s, hs, hrun⟩ := Option.bind_eq_some_iff.mp (show (Worklist.drive (machine l2c) 60
    prefetchThenFetch (new l2c)).bind (fun s => (Worklist.drive (machine l2c) 60 fillBack s).map
      fun t => decide (s.Due s.rq ∧ s.InFlight l2c (s.rq.entryAt s.rq.head) 0 ∧
        ((s.mshr.entryAt 0).type = .prefetch ∧
          ¬ Covers (s.rq.entryAt s.rq.head) (s.mshr.entryAt 0)) ∧
        t.answers.map Prod.fst = [.icache] ∧ t.mshr.occupancy = 0)) = some true by decide +kernel)
  obtain ⟨t, ht, hfacts⟩ := Option.map_eq_some_iff.mp hrun
  obtain ⟨hdue, hflight, ⟨htype, hcovers⟩, hanswers⟩ := of_decide_eq_true hfacts
  have hr := Worklist.drive_reaches (fun _ _ => trivial) .refl hs
  refine ⟨s, _, _, hr, .read hdue hflight, handleRead_merge hdue hflight, ?_, t,
    Worklist.drive_reaches (fun _ _ => trivial) hr ht, hanswers⟩
  obtain ⟨hl, hi, hd, hret, hc, ht⟩ := markConsumer_eq (s.mshr.entryAt 0) (s.rq.entryAt s.rq.head)
  change ¬ KeepsWaiters _ _ ((s.mshr.setEntry 0 _).entryAt 0)
  rw [hflight.entryAt, updateRequest_keeps_iff hl hi hd hret hc ht]
  exact fun h => h.elim (fun hne => hne htype) hcovers

end Cache

end DramCache
