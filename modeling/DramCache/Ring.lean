import Mathlib.Data.List.Basic
import Mathlib.Data.List.Range

/-!
# Ring buffers

A list kept in the cells of an array from `head` on, wrapping around, with
`tail` the first cell behind it; the cells outside are blank. When the list
fills the array, and when it is empty, `head` and `tail` are the same.
`Holds.push` and `Holds.pop` are the two ends, `Holds.scan` is the order in
which a loop from `head` to `tail` comes by.
-/

namespace Ring

variable {α : Type*} {size head tail : Nat} {cells xs : List α} {blank x : α}

/-- The `i`-th cell from `head`. -/
def cell (size head i : Nat) : Nat := (head + i) % size

def advance (size i : Nat) : Nat := if i + 1 ≥ size then 0 else i + 1

/-- The cells from `head` up to `tail`, as two loops visit them. -/
def scan (size head tail : Nat) : List Nat :=
  if head < tail then List.range' head (tail - head)
  else List.range' head (size - head) ++ List.range tail

structure Holds (size head tail : Nat) (cells : List α) (blank : α) (xs : List α) : Prop where
  head_lt : head < size
  length : cells.length = size
  bound : xs.length ≤ size
  tail_eq : tail = cell size head xs.length
  live : ∀ i < xs.length, cells[cell size head i]? = xs[i]?
  dead : ∀ i < size, xs.length ≤ i → cells[cell size head i]? = some blank

/-! ## Cells -/

theorem cell_eq (hhead : head < size) {i : Nat} (hi : i ≤ size) :
    cell size head i = if head + i < size then head + i else head + i - size := by
  unfold cell
  split
  · rename_i h
    exact Nat.mod_eq_of_lt h
  · rename_i h
    rw [Nat.mod_eq_sub_mod (not_lt.mp h), Nat.mod_eq_of_lt (by omega)]

theorem cell_lt (hhead : head < size) (i : Nat) : cell size head i < size :=
  Nat.mod_lt _ (Nat.zero_lt_of_lt hhead)

theorem cell_inj (hhead : head < size) {i j : Nat} (hi : i < size) (hj : j < size)
    (h : cell size head i = cell size head j) : i = j := by
  rw [cell_eq hhead hi.le, cell_eq hhead hj.le] at h
  split at h <;> split at h <;> omega

theorem cell_zero (hhead : head < size) : cell size head 0 = head := Nat.mod_eq_of_lt hhead

theorem advance_cell (hhead : head < size) (i : Nat) :
    advance size (cell size head i) = cell size head (i + 1) := by
  have hlt := cell_lt hhead i
  have hsucc : cell size head (i + 1) = (cell size head i + 1) % size := by
    unfold cell
    rw [Nat.mod_add_mod, Nat.add_assoc]
  rw [hsucc, advance]
  split
  · rename_i h
    have heq : cell size head i + 1 = size := by omega
    rw [heq, Nat.mod_self]
  · rename_i h
    exact (Nat.mod_eq_of_lt (not_le.mp h)).symm

/-- The cells from the next head on are the same ones. -/
theorem cell_advance (hhead : head < size) (i : Nat) :
    cell size (advance size head) i = cell size head (i + 1) := by
  have hadv : advance size head = (head + 1) % size := by
    have h := advance_cell hhead 0
    rwa [cell_zero hhead, cell] at h
  unfold cell
  rw [hadv, Nat.mod_add_mod, Nat.add_right_comm, Nat.add_assoc]

/-- So are those from a later one on. -/
theorem cell_cell (n i : Nat) : cell size (cell size head n) i = cell size head (n + i) := by
  unfold cell
  rw [Nat.mod_add_mod, Nat.add_assoc]

theorem advance_lt (hpos : 0 < size) (i : Nat) : advance size i < size := by
  unfold advance
  split <;> omega

/-- Every cell is one of those from `head` on. -/
theorem exists_cell (hhead : head < size) {j : Nat} (hj : j < size) :
    ∃ i < size, cell size head i = j := by
  by_cases h : head ≤ j
  · refine ⟨j - head, by omega, ?_⟩
    rw [cell_eq hhead (by omega), if_pos (by omega)]
    omega
  · refine ⟨j + size - head, by omega, ?_⟩
    rw [cell_eq hhead (by omega), if_neg (by omega)]
    omega

/-! ## The two ends -/

theorem holds_nil (hpos : 0 < size) :
    Holds size 0 0 (List.replicate size blank) blank [] := by
  refine ⟨hpos, List.length_replicate, Nat.zero_le _, (Nat.zero_mod size).symm, nofun,
    fun i hi _ => ?_⟩
  rw [List.getElem?_replicate, if_pos (cell_lt hpos i)]

theorem Holds.push (h : Holds size head tail cells blank xs) (hroom : xs.length < size) :
    Holds size head (advance size tail) (cells.set tail x) blank (xs ++ [x]) := by
  have hne : ∀ i < size, i ≠ xs.length → tail ≠ cell size head i := fun i hi hin heq =>
    hin (cell_inj h.head_lt hi hroom (heq.symm.trans h.tail_eq))
  have htail : tail < cells.length := by
    rw [h.length, h.tail_eq]
    exact cell_lt h.head_lt _
  refine ⟨h.head_lt, by rw [List.length_set, h.length], ?_, ?_, fun i hi => ?_, fun i hi hin => ?_⟩
  · rw [List.length_append, List.length_singleton]
    exact hroom
  · rw [h.tail_eq, advance_cell h.head_lt, List.length_append, List.length_singleton]
  · rw [List.length_append, List.length_singleton] at hi
    by_cases hlast : i = xs.length
    · subst hlast
      rw [← h.tail_eq, List.getElem?_set_self htail, List.getElem?_concat_length]
    · rw [List.getElem?_set_ne (hne i (by omega) hlast), h.live i (by omega),
        List.getElem?_append_left (by omega)]
  · rw [List.length_append, List.length_singleton] at hin
    rw [List.getElem?_set_ne (hne i hi (by omega)), h.dead i hi (by omega)]

theorem Holds.pop (h : Holds size head tail cells blank (x :: xs)) :
    Holds size (advance size head) tail (cells.set head blank) blank xs := by
  have hbound := h.bound
  rw [List.length_cons] at hbound
  have hne : ∀ i < size, i ≠ 0 → head ≠ cell size head i := fun i hi hi0 heq =>
    hi0 (cell_inj h.head_lt hi (by omega) (heq.symm.trans (cell_zero h.head_lt).symm))
  refine ⟨advance_lt (by omega) _, by rw [List.length_set, h.length], by omega, ?_,
    fun i hi => ?_, fun i hi hin => ?_⟩
  · rw [cell_advance h.head_lt, h.tail_eq, List.length_cons]
  · rw [cell_advance h.head_lt, List.getElem?_set_ne (hne _ (by omega) (by omega)),
      h.live _ (by rw [List.length_cons]; omega), List.getElem?_cons_succ]
  · rw [cell_advance h.head_lt]
    by_cases hlast : i + 1 = size
    · -- around the ring, back at the cell just emptied
      have hback : cell size head (i + 1) = head := by
        rw [hlast, cell_eq h.head_lt le_rfl, if_neg (by omega)]
        omega
      rw [hback, List.getElem?_set_self (by rw [h.length]; exact h.head_lt)]
    · rw [List.getElem?_set_ne (hne _ (by omega) (by omega)),
        h.dead _ (by omega) (by rw [List.length_cons]; omega)]

/-! ## Scans -/

/-- **A scan visits the list**, from its head on, unless the buffer is empty. -/
theorem Holds.scan (h : Holds size head tail cells blank xs) (hne : xs ≠ []) :
    Ring.scan size head tail = (List.range xs.length).map (cell size head) := by
  have hpos := List.length_pos_iff.mpr hne
  have hbound := h.bound
  have hhead := h.head_lt
  have htail := h.tail_eq
  rw [cell_eq hhead hbound] at htail
  by_cases hwrap : head + xs.length < size
  · rw [if_pos hwrap] at htail
    rw [Ring.scan, if_pos (by omega), htail]
    refine List.ext_getElem (by simp) fun i hi hi' => ?_
    rw [List.length_map, List.length_range] at hi'
    rw [List.getElem_range', List.getElem_map, List.getElem_range, cell_eq hhead (by omega),
      if_pos (by omega), Nat.one_mul]
  · -- two loops: up to the end of the array, and on from its start
    rw [if_neg hwrap] at htail
    rw [Ring.scan, if_neg (by omega), htail]
    refine List.ext_getElem (by simp; omega) fun i hi hi' => ?_
    rw [List.length_map, List.length_range] at hi'
    rw [List.getElem_map, List.getElem_range, cell_eq hhead (by omega)]
    by_cases hfirst : i < size - head
    · rw [List.getElem_append_left (by simpa using hfirst), List.getElem_range', if_pos (by omega),
        Nat.one_mul]
    · rw [List.getElem_append_right (by simpa using hfirst), List.getElem_range,
        List.length_range', if_neg (by omega)]
      omega

section Find

variable {p : Nat → Bool} {q : α → Bool}

/-- What a scan finds is the first entry of the list that is looked for. -/
theorem Holds.find_scan (h : Holds size head tail cells blank xs) (hne : xs ≠ [])
    (hp : ∀ i x, xs[i]? = some x → p (cell size head i) = q x) (j : Nat) :
    (Ring.scan size head tail).find? p = some j ↔
      ∃ i x, xs[i]? = some x ∧ cell size head i = j ∧ q x = true ∧
        ∀ i' < i, ∀ x', xs[i']? = some x' → q x' = false := by
  rw [h.scan hne, List.find?_map, Option.map_eq_some_iff]
  constructor
  · rintro ⟨i, hfind, hj⟩
    obtain ⟨hi, hmem, hfirst⟩ := List.find?_range_eq_some.mp hfind
    have hget := List.getElem?_eq_getElem (List.mem_range.mp hmem)
    refine ⟨i, _, hget, hj, (hp i _ hget).symm.trans hi, fun i' hi' x' hx' => ?_⟩
    have hnot := hfirst i' hi'
    rw [Function.comp_apply, hp i' x' hx'] at hnot
    simpa using hnot
  · rintro ⟨i, x, hget, hj, hx, hfirst⟩
    have hi := (List.getElem?_eq_some_iff.mp hget).1
    refine ⟨i, List.find?_range_eq_some.mpr
      ⟨(hp i x hget).trans hx, List.mem_range.mpr hi, fun i' hi' => ?_⟩, hj⟩
    have hget' := List.getElem?_eq_getElem (hi'.trans hi)
    rw [Function.comp_apply, hp i' _ hget', hfirst i' hi' _ hget']
    rfl

theorem Holds.find_scan_none (h : Holds size head tail cells blank xs) (hne : xs ≠ [])
    (hp : ∀ i x, xs[i]? = some x → p (cell size head i) = q x) :
    (Ring.scan size head tail).find? p = none ↔ ∀ x ∈ xs, q x = false := by
  rw [h.scan hne, List.find?_eq_none]
  constructor
  · intro hall x hx
    obtain ⟨i, hget⟩ := List.getElem?_of_mem hx
    have hi := (List.getElem?_eq_some_iff.mp hget).1
    have hnot := hall _ (List.mem_map_of_mem (List.mem_range.mpr hi))
    rw [hp i x hget] at hnot
    simpa using hnot
  · intro hall j hj
    obtain ⟨i, hi, rfl⟩ := List.mem_map.mp hj
    have hget := List.getElem?_eq_getElem (List.mem_range.mp hi)
    rw [hp i _ hget, hall _ (List.getElem_mem _)]
    exact Bool.false_ne_true

end Find

end Ring
