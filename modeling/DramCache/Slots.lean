import Mathlib.Data.Multiset.AddSub
import Mathlib.Data.Multiset.Filter
import Mathlib.Data.Multiset.ZeroCons

/-!
# Arrays of cells with a free value

A fixed array whose cells hold a value or a mark `free`. What it holds is
the multiset of its used cells: filling a free cell adds one value, freeing
a cell takes its value out, and an array that holds fewer values than it
has cells has a free one.
-/

namespace Slots

variable {α : Type*}

/-- Overwriting a cell swaps its value. -/
theorem coe_set {l : List α} {a b : α} : ∀ {i : Nat}, l[i]? = some b →
    (↑(l.set i a) : Multiset α) + {b} = ↑l + {a} := by
  induction l with
  | nil => intro i h; simp at h
  | cons c l ih =>
      intro i h
      cases i with
      | zero =>
          obtain rfl : c = b := by simpa using h
          rw [List.set_cons_zero, ← Multiset.cons_coe, ← Multiset.cons_coe,
            Multiset.add_comm, Multiset.singleton_add, Multiset.cons_add,
            Multiset.add_comm, Multiset.singleton_add]
      | succ i =>
          have h' : l[i]? = some b := by simpa using h
          rw [List.set_cons_succ, ← Multiset.cons_coe, ← Multiset.cons_coe, Multiset.cons_add,
            Multiset.cons_add, ih h']

/-- Putting a value that counts where none stood. -/
theorem filter_fill {p : α → Prop} [DecidablePred p] {l : List α} {i : Nat} {a b : α}
    (h : l[i]? = some b) (hb : ¬ p b) (ha : p a) :
    Multiset.filter p ↑(l.set i a) = a ::ₘ Multiset.filter p ↑l := by
  have hset := congrArg (Multiset.filter p) (coe_set (a := a) h)
  rw [Multiset.filter_add, Multiset.filter_add, Multiset.filter_singleton,
    Multiset.filter_singleton, if_neg hb, if_pos ha, Multiset.add_comm _ {a},
    Multiset.singleton_add, Multiset.empty_eq_zero, Multiset.add_zero] at hset
  exact hset

/-- Putting one that does not where one stood. -/
theorem filter_free {p : α → Prop} [DecidablePred p] {l : List α} {i : Nat} {a b : α}
    (h : l[i]? = some b) (hb : p b) (ha : ¬ p a) :
    Multiset.filter p ↑l = b ::ₘ Multiset.filter p ↑(l.set i a) := by
  have hset := congrArg (Multiset.filter p) (coe_set (a := a) h)
  rw [Multiset.filter_add, Multiset.filter_add, Multiset.filter_singleton,
    Multiset.filter_singleton, if_pos hb, if_neg ha, Multiset.add_comm _ {b},
    Multiset.singleton_add, Multiset.empty_eq_zero, Multiset.add_zero] at hset
  exact hset.symm

variable [DecidableEq α] (free : α)

/-- The values an array holds. -/
def used (l : List α) : Multiset α := Multiset.filter (fun a => a ≠ free) ↑l

theorem mem_used {l : List α} {a : α} : a ∈ used free l ↔ a ∈ l ∧ a ≠ free := by
  simp [used]

variable {free}

/-- Filling a free cell. -/
theorem used_fill {l : List α} {i : Nat} {a : α} (h : l[i]? = some free) (ha : a ≠ free) :
    used free (l.set i a) = a ::ₘ used free l := filter_fill h (not_not.mpr rfl) ha

/-- Freeing a used cell. -/
theorem used_free {l : List α} {i : Nat} {b : α} (h : l[i]? = some b) (hb : b ≠ free) :
    used free l = b ::ₘ used free (l.set i free) := filter_free h hb (not_not.mpr rfl)

theorem card_used (l : List α) :
    (used free l).card = l.countP fun a => decide (a ≠ free) := by
  rw [used, ← Multiset.countP_eq_card_filter, Multiset.coe_countP]

/-- Where no value is held twice, a value's cell is the only one. -/
theorem used_inj {l : List α} (h : (used free l).Nodup) {i j : Nat} {a : α} (ha : a ≠ free)
    (hi : l[i]? = some a) (hj : l[j]? = some a) : i = j := by
  by_contra hne
  rw [used_free hi ha] at h
  refine (Multiset.nodup_cons.mp h).1 ((mem_used free).mpr ⟨?_, ha⟩)
  refine List.mem_of_getElem? (i := j) ?_
  rw [List.getElem?_set_ne hne]
  exact hj

/-- An array that is not full has a free cell. -/
theorem exists_free {l : List α} (h : (used free l).card < l.length) : free ∈ l := by
  by_contra hfree
  have hall : used free l = ↑l := Multiset.filter_eq_self.mpr fun a ha => by
    rintro rfl
    exact hfree (by simpa using ha)
  rw [hall] at h
  simp at h

end Slots
