import Mathlib.Data.List.Dedup
import Mathlib.Data.List.Induction
import Mathlib.Data.List.Nodup
import Mathlib.Data.List.Perm.Basic

/-!
# Move to front

A list of distinct elements in order of their last use. Using an element
moves it to the front; what a sequence of uses makes of the list is
`foldl_moveToFront`, and what one use does to the positions is
`idxOf_moveToFront`: those in front of the element used go up by one.
-/

namespace MoveToFront

open List

variable {α : Type*} [DecidableEq α]

def moveToFront (l : List α) (a : α) : List α := a :: l.erase a

theorem moveToFront_perm {l : List α} {a : α} (ha : a ∈ l) : (moveToFront l a).Perm l :=
  (perm_cons_erase ha).symm

/-- The positions behind an element close up when it is erased. -/
theorem idxOf_erase {l : List α} {a b : α} (ha : a ∈ l) (hab : b ≠ a) :
    (l.erase a).idxOf b = if l.idxOf b < l.idxOf a then l.idxOf b else l.idxOf b - 1 := by
  induction l with
  | nil => cases ha
  | cons x l ih =>
      by_cases hxa : x = a
      · subst hxa
        rw [erase_cons_head, idxOf_cons_self, if_neg (Nat.not_lt_zero _),
          idxOf_cons_ne _ hab.symm, Nat.succ_sub_one]
      · have ha' : a ∈ l := (mem_cons.mp ha).resolve_left (Ne.symm hxa)
        rw [erase_cons_tail (by simpa using hxa), idxOf_cons_ne _ hxa]
        by_cases hxb : x = b
        · subst hxb
          rw [idxOf_cons_self, idxOf_cons_self, if_pos (Nat.succ_pos _)]
        · rw [idxOf_cons_ne _ hxb, idxOf_cons_ne _ hxb, ih ha']
          have hne : l.idxOf b ≠ l.idxOf a := fun h => hab (idxOf_inj ha' |>.mp h.symm).symm
          split <;> split <;> omega

theorem idxOf_moveToFront_self (l : List α) (a : α) : (moveToFront l a).idxOf a = 0 :=
  idxOf_cons_self

theorem idxOf_moveToFront {l : List α} {a b : α} (ha : a ∈ l) (hab : b ≠ a) :
    (moveToFront l a).idxOf b = if l.idxOf b < l.idxOf a then l.idxOf b + 1 else l.idxOf b := by
  have hne : l.idxOf b ≠ l.idxOf a := fun h => hab (idxOf_inj ha |>.mp h.symm).symm
  rw [moveToFront, idxOf_cons_ne _ hab.symm, idxOf_erase ha hab]
  split
  · rfl
  · omega

theorem dedup_concat (l : List α) (a : α) : (l ++ [a]).dedup = l.dedup.filter (· != a) ++ [a] := by
  induction l with
  | nil => simp
  | cons b l ih =>
      rw [cons_append]
      by_cases hb : b ∈ l
      · rw [dedup_cons_of_mem (mem_append_left _ hb), dedup_cons_of_mem hb, ih]
      · rw [dedup_cons_of_notMem hb]
        by_cases hba : b = a
        · subst hba
          rw [dedup_cons_of_mem (by simp), ih]
          simp
        · rw [dedup_cons_of_notMem (by simp [hb, hba]), ih, filter_cons_of_pos (by simpa using hba),
            cons_append]

/-- **What has been used comes first**, the last used in front, and the rest
stays in its order. -/
theorem foldl_moveToFront {l : List α} (hl : l.Nodup) {uses : List α} (hu : ∀ a ∈ uses, a ∈ l) :
    uses.foldl moveToFront l = uses.dedup.reverse ++ l.filter (· ∉ uses) := by
  induction uses using reverseRecOn with
  | nil => simp
  | append_singleton uses a ih =>
      have hu' : ∀ b ∈ uses, b ∈ l := fun b hb => hu b (mem_append_left _ hb)
      have hnodup : (uses.dedup.reverse ++ l.filter (· ∉ uses)).Nodup := by
        rw [nodup_append']
        refine ⟨nodup_reverse.mpr (nodup_dedup _), hl.filter _, ?_⟩
        intro b hb hb'
        simp only [mem_reverse, mem_dedup] at hb
        simp [hb] at hb'
      rw [foldl_append, foldl_cons, foldl_nil, ih hu', moveToFront, hnodup.erase_eq_filter,
        dedup_concat, reverse_append, reverse_singleton, filter_append, filter_filter,
        singleton_append, cons_append, filter_reverse]
      have hrest : (fun b => (b != a) && decide (b ∉ uses)) = fun b => decide (b ∉ uses ++ [a]) := by
        funext b
        simp [and_comm, bne, Bool.beq_eq_decide_eq]
      rw [hrest]

/-- The positions of distinct elements, read off in their order. -/
theorem map_idxOf {l : List α} (hl : l.Nodup) : l.map (l.idxOf ·) = range l.length := by
  refine ext_getElem (by simp) fun i hi hi' => ?_
  rw [getElem_map, getElem_range, hl.idxOf_getElem]

end MoveToFront
