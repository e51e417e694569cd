import DramCache.Llc
import DramCache.MoveToFront

/-!
# LRU replacement

`lru_update` and `lru_victim` of `replacement/base_replacement.cc`, which
`replacement/lru.llc_repl` repeats for the last level cache. A block's `lru` is
its position in the order of last use: the update increments the counters
below the one it promotes, in place and one after the other, and `Recency`
says that the counters are the positions in a list that this moves to the
front.
-/

namespace DramCache

open MoveToFront (moveToFront)

namespace Lru

/-! ## The policy -/

def blockAt (blocks : List Block) (way : Nat) : Block := (blocks[way]?).getD {}

/-- The body of the loop of `lru_update`. The counter it compares with is read
anew every time, and stays below `UINT32_MAX` by that comparison. -/
def lruAge (way : Nat) (blocks : List Block) (i : Nat) : List Block :=
  if (blockAt blocks i).lru < (blockAt blocks way).lru then
    blocks.set i { blockAt blocks i with lru := (blockAt blocks i).lru + 1 }
  else blocks

/-- `lru_update`, on the blocks of the set. -/
def lruUpdate (numWay : Nat) (blocks : List Block) (way : Nat) : List Block :=
  let blocks := (List.range numWay).foldl (lruAge way) blocks
  blocks.set way { blockAt blocks way with lru := 0 }

/-- `lru_victim`; `none` is its assertion "no victim!". -/
def lruVictim (numWay : Nat) (blocks : List Block) : Option Nat :=
  match (List.range numWay).find? fun way => !(blockAt blocks way).valid with
  | some way => some way
  | none => (List.range numWay).find? fun way => (blockAt blocks way).lru == numWay - 1

/-- The blocks of a set as `CACHE` constructs them. -/
def newBlocks (numWay : Nat) : List Block := (List.range numWay).map fun j => { lru := j }

/-- `lru_update(set, way)` on `block[][]`. -/
def update (numWay : Nat) (block : Nat → List Block) (call : Nat × Nat) : Nat → List Block :=
  Function.update block call.1 (lruUpdate numWay (block call.1) call.2)

/-! ## One set -/

/-- The counters are the positions in a list of all the ways. -/
structure Recency (numWay : Nat) (blocks : List Block) (order : List Nat) : Prop where
  length : blocks.length = numWay
  perm : order.Perm (List.range numWay)
  lru : ∀ w < numWay, (blockAt blocks w).lru = order.idxOf w

variable {numWay way : Nat} {blocks : List Block} {order : List Nat}

theorem blockAt_set_self {b : Block} (h : way < blocks.length) :
    blockAt (blocks.set way b) way = b := by
  rw [blockAt, List.getElem?_set_self h]
  rfl

theorem blockAt_set_ne {b : Block} {i : Nat} (h : way ≠ i) :
    blockAt (blocks.set way b) i = blockAt blocks i := by
  rw [blockAt, List.getElem?_set_ne h, blockAt]

theorem blockAt_lru (blocks : List Block) (way : Nat) :
    (blockAt blocks way).lru = ((blocks.map (·.lru))[way]?).getD 0 := by
  rw [List.getElem?_map, blockAt]
  cases blocks[way]? <;> rfl

theorem newBlocks_recency (numWay : Nat) :
    Recency numWay (newBlocks numWay) (List.range numWay) := by
  refine ⟨by simp [newBlocks], .refl _, fun w hw => ?_⟩
  have hidx : (List.range numWay).idxOf w = w := by
    have h := List.nodup_range.idxOf_getElem w (by simpa using hw)
    rwa [List.getElem_range] at h
  simp [newBlocks, blockAt, hw, hidx]

/-- The counter of a way after the loop has visited the ways below `n`. -/
def aged (blocks : List Block) (way n i : Nat) : Nat :=
  if i < n ∧ (blockAt blocks i).lru < (blockAt blocks way).lru then (blockAt blocks i).lru + 1
  else (blockAt blocks i).lru

/-- The loop changes counters only, and each as if the others had not been
changed: the counter it compares with stays. -/
theorem foldl_lruAge (hway : way < blocks.length) (n : Nat) :
    ((List.range n).foldl (lruAge way) blocks).length = blocks.length ∧
    ∀ i < blocks.length, blockAt ((List.range n).foldl (lruAge way) blocks) i =
      { blockAt blocks i with lru := aged blocks way n i } := by
  induction n with
  | zero => exact ⟨rfl, fun i _ => by simp [aged]⟩
  | succ n ih =>
      obtain ⟨hlen, hblock⟩ := ih
      rw [List.range_succ, List.foldl_append, List.foldl_cons, List.foldl_nil]
      generalize (List.range n).foldl (lruAge way) blocks = blocks' at hlen hblock
      have hpivot : (blockAt blocks' way).lru = (blockAt blocks way).lru := by
        rw [hblock way hway]
        simp [aged]
      have hother : ∀ i ≠ n, aged blocks way (n + 1) i = aged blocks way n i := fun i hi => by
        unfold aged
        have hlt : i < n + 1 ↔ i < n := by omega
        simp only [hlt]
      unfold lruAge
      split
      · rename_i hage
        refine ⟨by rw [List.length_set, hlen], fun i hi => ?_⟩
        by_cases hin : n = i
        · subst hin
          have hn : (blockAt blocks' n).lru = (blockAt blocks n).lru := by
            rw [hblock n hi]
            simp [aged]
          rw [hn, hpivot] at hage
          rw [blockAt_set_self (by rw [hlen]; exact hi), hblock n hi]
          simp [aged, hage]
        · rw [blockAt_set_ne hin, hblock i hi, hother i (Ne.symm hin)]
      · rename_i hstay
        refine ⟨hlen, fun i hi => ?_⟩
        by_cases hin : n = i
        · subst hin
          have hn : (blockAt blocks' n).lru = (blockAt blocks n).lru := by
            rw [hblock n hi]
            simp [aged]
          rw [hn, hpivot] at hstay
          rw [hblock n hi]
          simp [aged, hstay]
        · rw [hblock i hi, hother i (Ne.symm hin)]

/-- **`lru_update`**: the ways in front of the one promoted move back by one,
and nothing but counters changes. -/
theorem lruUpdate_blockAt (hlen : blocks.length = numWay) (hway : way < numWay) :
    (lruUpdate numWay blocks way).length = numWay ∧
    ∀ i < numWay, blockAt (lruUpdate numWay blocks way) i =
      { blockAt blocks i with lru := if i = way then 0 else aged blocks way numWay i } := by
  obtain ⟨hlen', hblock⟩ := foldl_lruAge (hlen ▸ hway) numWay
  unfold lruUpdate
  dsimp only
  refine ⟨by rw [List.length_set, hlen', hlen], fun i hi => ?_⟩
  by_cases hw : i = way
  · subst hw
    rw [blockAt_set_self (by rw [hlen', hlen]; exact hi), if_pos rfl, hblock i (hlen ▸ hi)]
  · rw [blockAt_set_ne (Ne.symm hw), if_neg hw, hblock i (hlen ▸ hi)]

theorem Recency.mem (h : Recency numWay blocks order) (hway : way < numWay) : way ∈ order :=
  h.perm.mem_iff.mpr (List.mem_range.mpr hway)

/-- An update moves the way to the front. -/
theorem Recency.update (h : Recency numWay blocks order) (hway : way < numWay) :
    Recency numWay (lruUpdate numWay blocks way) (moveToFront order way) := by
  obtain ⟨hlen, hblock⟩ := lruUpdate_blockAt h.length hway
  refine ⟨hlen, (MoveToFront.moveToFront_perm (h.mem hway)).trans h.perm, fun w hw => ?_⟩
  rw [hblock w hw]
  by_cases hww : w = way
  · subst hww
    simp [MoveToFront.idxOf_moveToFront_self]
  · simp only [if_neg hww, aged, hw, true_and, h.lru w hw, h.lru way hway,
      MoveToFront.idxOf_moveToFront (h.mem hway) hww]

theorem Recency.updates (h : Recency numWay blocks order) {ways : List Nat}
    (hways : ∀ w ∈ ways, w < numWay) :
    Recency numWay (ways.foldl (lruUpdate numWay) blocks) (ways.foldl moveToFront order) := by
  induction ways generalizing blocks order with
  | nil => exact h
  | cons w ways ih =>
      exact ih (h.update (hways w (List.mem_cons_self ..))) fun w' hw' =>
        hways w' (List.mem_cons_of_mem _ hw')

/-- The counters are the numbers below `NUM_WAY`, each once. -/
theorem Recency.lrus_perm (h : Recency numWay blocks order) :
    (blocks.map (·.lru)).Perm (List.range numWay) := by
  have hlru : blocks.map (·.lru) = (List.range numWay).map (order.idxOf ·) := by
    refine List.ext_getElem (by simp [h.length]) fun i hi hi' => ?_
    rw [List.length_map] at hi
    have hblock : blockAt blocks i = blocks[i] := by simp [blockAt, hi]
    rw [List.getElem_map, List.getElem_map, List.getElem_range, ← hblock,
      h.lru i (h.length ▸ hi)]
  have hlen : order.length = numWay := by rw [h.perm.length_eq, List.length_range]
  rw [hlru]
  refine (h.perm.symm.map _).trans (.of_eq ?_)
  rw [MoveToFront.map_idxOf (h.perm.nodup_iff.mpr List.nodup_range), hlen]

/-- The way with the last counter is the one used least recently. -/
theorem Recency.last (h : Recency numWay blocks order) (hpos : 0 < numWay) :
    ∃ w < numWay, order.getLast? = some w ∧ (blockAt blocks w).lru = numWay - 1 ∧
      ∀ w' < numWay, (blockAt blocks w').lru = numWay - 1 → w' = w := by
  have hlen : order.length = numWay := by rw [h.perm.length_eq, List.length_range]
  have hnodup : order.Nodup := h.perm.nodup_iff.mpr List.nodup_range
  have hlast : numWay - 1 < order.length := by omega
  have hmem : order[numWay - 1] < numWay :=
    List.mem_range.mp (h.perm.mem_iff.mp (List.getElem_mem hlast))
  refine ⟨order[numWay - 1], hmem, ?_, ?_, fun w' hw' hlru => ?_⟩
  · rw [List.getLast?_eq_getElem?, hlen, List.getElem?_eq_getElem hlast]
  · rw [h.lru _ hmem, hnodup.idxOf_getElem]
  · rw [h.lru w' hw'] at hlru
    have hget := List.getElem_idxOf (List.idxOf_lt_length_of_mem (h.mem hw'))
    simp only [hlru] at hget
    exact hget.symm

/-- The lowest invalid way, or else the one used least recently. -/
theorem Recency.victim (h : Recency numWay blocks order) (hpos : 0 < numWay) :
    (∃ w < numWay, lruVictim numWay blocks = some w ∧ (blockAt blocks w).valid = false ∧
      ∀ w' < w, (blockAt blocks w').valid = true) ∨
    (∀ w < numWay, (blockAt blocks w).valid = true) ∧
      ∃ w, order.getLast? = some w ∧ lruVictim numWay blocks = some w := by
  unfold lruVictim
  cases hinv : (List.range numWay).find? fun way => !(blockAt blocks way).valid with
  | some w =>
      obtain ⟨hw, hmem, hlow⟩ := List.find?_range_eq_some.mp hinv
      exact .inl ⟨w, List.mem_range.mp hmem, rfl, by simpa using hw, by simpa using hlow⟩
  | none =>
      refine .inr ⟨fun w hw => ?_, ?_⟩
      · simpa using List.find?_eq_none.mp hinv w (List.mem_range.mpr hw)
      · obtain ⟨w, hw, hlast, hlru, honly⟩ := h.last hpos
        refine ⟨w, hlast, List.find?_range_eq_some.mpr
          ⟨by simpa using hlru, List.mem_range.mpr hw, fun w' hw' => ?_⟩⟩
        have hne : (blockAt blocks w').lru ≠ numWay - 1 := fun h =>
          (honly w' (hw'.trans hw) h ▸ hw').false
        simpa using hne

/-! ## A cache -/

/-- The ways updated in a set. -/
def updatesIn (set : Nat) (calls : List (Nat × Nat)) : List Nat :=
  (calls.filter fun c => c.1 = set).map (·.2)

/-- The ways of a set by recency: the last updated first, and those never
updated after them in their initial order. -/
def recencyOrder (numWay : Nat) (ways : List Nat) : List Nat :=
  ways.dedup.reverse ++ (List.range numWay).filter (· ∉ ways)

theorem foldl_update (numWay : Nat) (set : Nat) (calls : List (Nat × Nat)) :
    ∀ block : Nat → List Block, calls.foldl (update numWay) block set
      = (updatesIn set calls).foldl (lruUpdate numWay) (block set) := by
  induction calls with
  | nil => exact fun block => rfl
  | cons c calls ih =>
      intro block
      rw [List.foldl_cons, ih, updatesIn, updatesIn, update]
      by_cases hc : c.1 = set
      · rw [List.filter_cons_of_pos (by simpa using hc), List.map_cons, List.foldl_cons, ← hc,
          Function.update_self]
      · rw [List.filter_cons_of_neg (by simpa using hc), Function.update_of_ne (Ne.symm hc)]

/-- After any updates. -/
theorem recency_of_updates (numWay set : Nat) {calls : List (Nat × Nat)}
    (hcalls : ∀ c ∈ calls, c.2 < numWay) :
    Recency numWay (calls.foldl (update numWay) (fun _ => newBlocks numWay) set)
      (recencyOrder numWay (updatesIn set calls)) := by
  have hways : ∀ w ∈ updatesIn set calls, w < numWay := by
    intro w hw
    obtain ⟨c, hc, rfl⟩ := List.mem_map.mp hw
    exact hcalls c (List.mem_filter.mp hc).1
  rw [foldl_update, recencyOrder, ← MoveToFront.foldl_moveToFront List.nodup_range fun w hw =>
    List.mem_range.mpr (hways w hw)]
  exact (newBlocks_recency numWay).updates hways

/-- **LRU.** However the ways of the sets have been updated, the counters of a
set are the numbers below `NUM_WAY`, each the position of its way by recency;
so whatever the valid bits are (and the other fields), the victim is the
lowest invalid way and, when there is none, the way updated least recently:
the assertion of `lru_victim` does not fail. -/
theorem lru_recency (numWay set : Nat) (calls : List (Nat × Nat))
    (hcalls : ∀ c ∈ calls, c.2 < numWay) :
    let blocks := calls.foldl (update numWay) (fun _ => newBlocks numWay) set
    let order := recencyOrder numWay (updatesIn set calls)
    (blocks.map (·.lru)).Perm (List.range numWay) ∧ order.Perm (List.range numWay) ∧
    (∀ w < numWay, (blockAt blocks w).lru = order.idxOf w) ∧
    ∀ blocks' : List Block, blocks'.map (·.lru) = blocks.map (·.lru) → 0 < numWay →
      (∃ w < numWay, lruVictim numWay blocks' = some w ∧ (blockAt blocks' w).valid = false ∧
        ∀ w' < w, (blockAt blocks' w').valid = true) ∨
      (∀ w < numWay, (blockAt blocks' w).valid = true) ∧
        ∃ w, order.getLast? = some w ∧ lruVictim numWay blocks' = some w := by
  intro blocks order
  have h : Recency numWay blocks order := recency_of_updates numWay set hcalls
  refine ⟨h.lrus_perm, h.perm, h.lru, fun blocks' heq hpos => ?_⟩
  refine Recency.victim ⟨?_, h.perm, fun w hw => ?_⟩ hpos
  · have hlen := congrArg List.length heq
    rwa [List.length_map, List.length_map, h.length] at hlen
  · rw [blockAt_lru, heq, ← blockAt_lru]
    exact h.lru w hw

/-- Ways 2 and 1 of set 0, and way 3 of another set, are updated. -/
theorem lru_recency_four_ways :
    ([(0, 2), (5, 3), (0, 1)].foldl (update 4) (fun _ => newBlocks 4) 0).map (·.lru)
        = [2, 0, 1, 3] ∧
      ([2, 0, 1, 3] : List Nat).Perm (List.range 4) ∧
      lruVictim 4 [{ valid := true, lru := 2 }, { valid := true, lru := 0 },
        { valid := true, lru := 1 }, { valid := true, lru := 3 }] = some 3 := by
  have hlrus : ([(0, 2), (5, 3), (0, 1)].foldl (update 4) (fun _ => newBlocks 4) 0).map (·.lru)
      = [2, 0, 1, 3] := by decide
  obtain ⟨hperm, -, -, hvictim⟩ := lru_recency 4 0 [(0, 2), (5, 3), (0, 1)] (by decide)
  refine ⟨hlrus, hlrus ▸ hperm, ?_⟩
  rcases hvictim [{ valid := true, lru := 2 }, { valid := true, lru := 0 },
      { valid := true, lru := 1 }, { valid := true, lru := 3 }] (by rw [hlrus]; rfl)
      (by decide) with ⟨w, hw, -, hinv, -⟩ | ⟨-, w, hw, hv⟩
  · have hall : ∀ w < 4, (blockAt [{ valid := true, lru := 2 }, { valid := true, lru := 0 },
        { valid := true, lru := 1 }, { valid := true, lru := 3 }] w).valid = true := by decide
    exact absurd (hall w hw) (Bool.eq_false_iff.mp hinv)
  · rw [hv, ← hw]
    decide

end Lru

end DramCache
