import Mathlib.Data.List.Basic

/-!
# Wake-up by counting

A consumer waits in some of its slots, in each of them for one producer
(`w d j = some c`). A counter of the slots in which it waits is all it takes to
know when it has everything: `wait` counts up, `release` counts down, and at
zero no slot waits (`waiting_eq_zero`).
-/

namespace Wakeup

variable {α : Type*} {slots : Nat} {w : Nat → Nat → Option α} {d d' j j' : Nat} {c : α}

/-- In how many of its slots `d` waits. -/
def waiting (slots : Nat) (w : Nat → Nat → Option α) (d : Nat) : Nat :=
  (List.range slots).countP fun j => (w d j).isSome

/-- The slot `j` of `d` waits for `c`. -/
def wait (w : Nat → Nat → Option α) (d j : Nat) (c : α) : Nat → Nat → Option α :=
  fun d' j' => if d' = d ∧ j' = j then some c else w d' j'

/-- The slot `j` of `d` waits no more. -/
def release (w : Nat → Nat → Option α) (d j : Nat) : Nat → Nat → Option α :=
  fun d' j' => if d' = d ∧ j' = j then none else w d' j'

theorem wait_self : wait w d j c d j = some c := if_pos ⟨rfl, rfl⟩

theorem wait_ne (h : ¬(d' = d ∧ j' = j)) : wait w d j c d' j' = w d' j' := if_neg h

theorem release_self : release w d j d j = none := if_pos ⟨rfl, rfl⟩

theorem release_ne (h : ¬(d' = d ∧ j' = j)) : release w d j d' j' = w d' j' := if_neg h

theorem release_eq_some : release w d j d' j' = some c ↔ w d' j' = some c ∧ ¬(d' = d ∧ j' = j) := by
  by_cases h : d' = d ∧ j' = j
  · rw [release, if_pos h]
    exact ⟨fun hc => absurd hc (Option.some_ne_none c).symm, fun hc => absurd h hc.2⟩
  · rw [release_ne h]
    exact ⟨fun hc => ⟨hc, h⟩, And.left⟩

/-! ## Counting -/

theorem waiting_eq_zero : waiting slots w d = 0 ↔ ∀ j < slots, w d j = none := by
  rw [waiting, List.countP_eq_zero]
  constructor
  · intro h j hj
    exact Option.not_isSome_iff_eq_none.mp (h j (List.mem_range.mpr hj))
  · intro h j hj
    rw [h j (List.mem_range.mp hj)]
    exact Bool.false_ne_true

/-- Slots that wait in one but not in the other count once. -/
theorem countP_range_eq_succ {p q : Nat → Bool} (hj : j < slots) (hp : p j = true)
    (hq : q j = false) (h : ∀ i, i ≠ j → p i = q i) :
    (List.range slots).countP p = (List.range slots).countP q + 1 := by
  induction slots with
  | zero => exact absurd hj (Nat.not_lt_zero j)
  | succ n ih =>
      rw [List.range_succ, List.countP_append, List.countP_append, List.countP_singleton,
        List.countP_singleton]
      by_cases hn : j = n
      · subst hn
        have hsame : (List.range j).countP p = (List.range j).countP q :=
          List.countP_congr fun i hi => by rw [h i (Nat.ne_of_lt (List.mem_range.mp hi))]
        rw [hsame, hp, hq]
        rfl
      · rw [ih (by omega), h n (Ne.symm hn)]
        omega

theorem waiting_wait (hj : j < slots) (h : w d j = none) :
    waiting slots (wait w d j c) d = waiting slots w d + 1 := by
  refine countP_range_eq_succ hj ?_ ?_ fun i hi => ?_
  · rw [wait_self]
    rfl
  · rw [h]
    rfl
  · rw [wait_ne fun h => hi h.2]

theorem waiting_wait_ne (h : d' ≠ d) : waiting slots (wait w d j c) d' = waiting slots w d' :=
  List.countP_congr fun i _ => by rw [wait_ne fun hd => h hd.1]

theorem waiting_release (hj : j < slots) (h : w d j ≠ none) :
    waiting slots w d = waiting slots (release w d j) d + 1 := by
  refine countP_range_eq_succ hj (Option.isSome_iff_ne_none.mpr h) ?_ fun i hi => ?_
  · rw [release_self]
    rfl
  · rw [release_ne fun h => hi h.2]

theorem waiting_release_ne (h : d' ≠ d) : waiting slots (release w d j) d' = waiting slots w d' :=
  List.countP_congr fun i _ => by rw [release_ne fun hd => h hd.1]

end Wakeup
