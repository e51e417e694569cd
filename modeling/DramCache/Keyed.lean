import Mathlib.Algebra.BigOperators.Group.Multiset.Defs
import Mathlib.Algebra.Order.Group.Multiset
import Mathlib.Data.List.AList
import Mathlib.Data.Multiset.AddSub
import Mathlib.Data.Multiset.Filter
import Mathlib.Data.Multiset.MapFold
import Mathlib.Data.List.Count
import Mathlib.Algebra.Group.Int.Defs

/-!
# Keyed collections as multisets

An association list is accounted for through the multiset of its values:
erasing a present key takes one value out, inserting a key puts one in
after the key is erased. A measure of a map changes accordingly, whatever
its sum runs over.

A sequence whose elements carry a key is determined up to permutation by
its restrictions to the keys.
-/

namespace Keyed

/-! ## The values of a map -/

section Values

variable {κ β : Type*}

/-- The values of an association list. -/
def values (l : AList fun _ : κ => β) : Multiset β := (l.entries.map fun x => x.2 : List β)

@[simp] theorem values_empty : values (∅ : AList fun _ : κ => β) = 0 := rfl

theorem card_values (l : AList fun _ : κ => β) : (values l).card = l.entries.length := by
  simp [values]

variable [DecidableEq κ]

theorem mem_values {l : AList fun _ : κ => β} {b : β} :
    b ∈ values l ↔ ∃ k, l.lookup k = some b := by
  simp only [values, Multiset.mem_coe, List.mem_map]
  constructor
  · rintro ⟨⟨k, b'⟩, hmem, rfl⟩
    exact ⟨k, AList.mem_lookup_iff.mpr hmem⟩
  · rintro ⟨k, hk⟩
    exact ⟨⟨k, b⟩, AList.mem_lookup_iff.mp hk, rfl⟩

theorem values_erase {l : AList fun _ : κ => β} {k : κ} {b : β} (h : l.lookup k = some b) :
    values l = b ::ₘ values (l.erase k) := by
  have hk : k ∈ l.entries.keys := by
    have : k ∈ l := AList.lookup_isSome.mp (by rw [h]; rfl)
    exact this
  obtain ⟨b', l₁, l₂, -, hl, he⟩ := List.exists_of_kerase hk
  have hb : l.lookup k = some b' := by
    refine AList.mem_lookup_iff.mpr ?_
    rw [hl]
    simp
  obtain rfl : b' = b := by simpa [hb] using h
  simp only [values]
  change _ = b' ::ₘ ((List.kerase k l.entries).map fun x => x.2 : List β)
  rw [he, hl]
  simp

theorem values_insert (l : AList fun _ : κ => β) (k : κ) (b : β) :
    values (l.insert k b) = b ::ₘ values (l.erase k) := by
  simp only [values, AList.entries_insert, List.map_cons, Multiset.cons_coe]
  rfl

theorem erase_of_lookup_none {l : AList fun _ : κ => β} {k : κ} (h : l.lookup k = none) :
    l.erase k = l := by
  have hk : k ∉ l := AList.lookup_eq_none.mp h
  apply AList.ext
  exact List.kerase_of_notMem_keys hk

theorem lookup_insert (l : AList fun _ : κ => β) (k k' : κ) (b : β) :
    (l.insert k b).lookup k' = if k' = k then some b else l.lookup k' := by
  split
  · rename_i h
    rw [h, AList.lookup_insert]
  · rename_i h
    exact AList.lookup_insert_ne h

theorem lookup_erase (l : AList fun _ : κ => β) (k k' : κ) :
    (l.erase k).lookup k' = if k' = k then none else l.lookup k' := by
  split
  · rename_i h
    rw [h, AList.lookup_erase]
  · rename_i h
    exact AList.lookup_erase_ne h

/-- What is inserted and erased leaves no trace. -/
theorem erase_insert {l : AList fun _ : κ => β} {k : κ} (h : l.lookup k = none) (b : β) :
    (l.insert k b).erase k = l := by
  refine AList.ext ?_
  have hinsert := AList.entries_insert_of_notMem (b := b) (AList.lookup_eq_none.mp h)
  exact (congrArg (List.kerase k) hinsert).trans (List.kerase_cons_eq rfl)

/-- Replacing a value by one that measures the same changes no measure. -/
theorem map_values_insert {γ : Type*} (f : β → γ) {l : AList fun _ : κ => β} {k : κ}
    {b b' : β} (h : l.lookup k = some b) (hf : f b' = f b) :
    (values (l.insert k b')).map f = (values l).map f := by
  rw [values_insert, values_erase h, Multiset.map_cons, Multiset.map_cons, hf]

/-- A new key adds its value. -/
theorem values_insert_new {l : AList fun _ : κ => β} {k : κ} {b : β}
    (h : l.lookup k = none) : values (l.insert k b) = b ::ₘ values l := by
  rw [values_insert, erase_of_lookup_none h]

end Values

section Total

variable {κ β M : Type*} [AddCommMonoid M] (f : β → M)

/-- A measure of the values, summed up. -/
def total (l : AList fun _ : κ => β) : M := ((values l).map f).sum

@[simp] theorem total_empty : total f (∅ : AList fun _ : κ => β) = 0 := by
  rw [total, values_empty, Multiset.map_zero, Multiset.sum_zero]

variable [DecidableEq κ] {l : AList fun _ : κ => β} {k : κ} {b : β}

theorem total_erase (h : l.lookup k = some b) : total f l = f b + total f (l.erase k) := by
  rw [total, values_erase h, Multiset.map_cons, Multiset.sum_cons, total]

theorem total_insert (h : l.lookup k = some b) (b' : β) :
    total f (l.insert k b') + f b = total f l + f b' := by
  have hnew : total f (l.insert k b') = f b' + total f (l.erase k) := by
    rw [total, values_insert, Multiset.map_cons, Multiset.sum_cons, total]
  rw [hnew, total_erase f h, add_comm (f b'), add_assoc, add_comm (f b'), ← add_assoc,
    add_comm (total f (l.erase k))]

/-- An entry is replaced by one that measures the same. -/
theorem total_insert_same (h : l.lookup k = some b) {b' : β} (hf : f b' = f b) :
    total f (l.insert k b') = total f l := by
  rw [total, map_values_insert f h hf, total]

theorem total_insert_new (h : l.lookup k = none) (b : β) :
    total f (l.insert k b) = f b + total f l := by
  rw [total, values_insert_new h, Multiset.map_cons, Multiset.sum_cons, total]

end Total

/-- Values that count for at most one each. -/
theorem card_total_le {κ β γ : Type*} (f : β → Multiset γ) (h : ∀ b, Multiset.card (f b) ≤ 1)
    (l : AList fun _ : κ => β) : Multiset.card (total f l) ≤ l.entries.length := by
  have hcard : ∀ s : Multiset β, Multiset.card (s.map f).sum ≤ Multiset.card s := fun s => by
    induction s using Multiset.induction_on with
    | empty => exact le_refl _
    | cons b s ih =>
        have := h b
        rw [Multiset.map_cons, Multiset.sum_cons, Multiset.card_add, Multiset.card_cons]
        omega
  exact le_of_le_of_eq (hcard _) (by rw [values, Multiset.coe_card, List.length_map])

/-- A total of truth values counts. -/
theorem total_toNat {κ β : Type*} (p : β → Bool) (l : AList fun _ : κ => β) :
    total (fun b => ((p b).toNat : ℤ)) l = ((l.entries.map fun x => x.2).countP p : Nat) := by
  unfold total values
  induction l.entries.map fun x => x.2 with
  | nil => rfl
  | cons b bs ih =>
      simp only [Multiset.map_coe, Multiset.sum_coe, List.map_cons, List.sum_cons] at ih ⊢
      rw [ih, List.countP_cons]
      cases p b <;> simp [Int.add_comm]

/-! ## Sequences with keyed elements -/

section Sequences

variable {ι α : Type*} [DecidableEq ι] (key : α → ι)

/-- The elements with a key, in order. -/
def restrict (i : ι) (l : List α) : List α := l.filter fun a => decide (key a = i)

@[simp] theorem restrict_nil (i : ι) : restrict key i ([] : List α) = [] := rfl

@[simp] theorem restrict_append (i : ι) (l₁ l₂ : List α) :
    restrict key i (l₁ ++ l₂) = restrict key i l₁ ++ restrict key i l₂ :=
  List.filter_append ..

theorem restrict_cons_self {i : ι} {a : α} (h : key a = i) (l : List α) :
    restrict key i (a :: l) = a :: restrict key i l := by
  simp [restrict, h]

theorem restrict_cons_ne {i : ι} {a : α} (h : key a ≠ i) (l : List α) :
    restrict key i (a :: l) = restrict key i l := by
  simp [restrict, h]

theorem restrict_map {β : Type*} (f : β → α) (i : ι) (l : List β) :
    restrict key i (l.map f) = (restrict (fun b => key (f b)) i l).map f := by
  simp only [restrict, List.filter_map]
  rfl

theorem restrict_eq_nil {i : ι} {l : List α} (h : ∀ a ∈ l, key a ≠ i) :
    restrict key i l = [] :=
  List.filter_eq_nil_iff.mpr fun a ha => by simpa using h a ha

omit [DecidableEq ι] in
/-- The element a search finds is the one `eraseP` takes out. -/
theorem perm_of_find {p : α → Bool} {a : α} : ∀ {l : List α},
    l.find? p = some a → l.Perm (a :: l.eraseP p)
  | [], h => by simp at h
  | b :: l, h => by
      by_cases hb : p b = true
      · obtain rfl : b = a := by simpa [hb] using h
        rw [List.eraseP_cons_of_pos hb]
      · have h' : l.find? p = some a := by simpa [hb] using h
        rw [List.eraseP_cons_of_neg hb]
        exact ((perm_of_find h').cons b).trans (List.Perm.swap a b _)

/-- Taking out the first element with a key takes the head of that key's
restriction. -/
theorem restrict_find {i : ι} {a : α} : ∀ {l : List α},
    l.find? (fun b => decide (key b = i)) = some a →
      restrict key i l = a :: restrict key i (l.eraseP fun b => decide (key b = i))
  | [], h => by simp at h
  | b :: l, h => by
      by_cases hb : key b = i
      · obtain rfl : b = a := by simpa [hb] using h
        rw [restrict_cons_self key hb, List.eraseP_cons_of_pos (by simpa using hb)]
      · have h' : l.find? (fun b => decide (key b = i)) = some a := by simpa [hb] using h
        rw [restrict_cons_ne key hb, List.eraseP_cons_of_neg (by simpa using hb),
          restrict_cons_ne key hb]
        exact restrict_find h'

/-- ... and nothing from the others'. -/
theorem restrict_eraseP_ne {i j : ι} (hij : j ≠ i) : ∀ l : List α,
    restrict key j (l.eraseP fun b => decide (key b = i)) = restrict key j l
  | [] => rfl
  | b :: l => by
      by_cases hb : key b = i
      · rw [List.eraseP_cons_of_pos (by simpa using hb),
          restrict_cons_ne key (fun h => hij (h.symm.trans hb))]
      · rw [List.eraseP_cons_of_neg (by simpa using hb)]
        by_cases hj : key b = j
        · rw [restrict_cons_self key hj, restrict_cons_self key hj, restrict_eraseP_ne hij l]
        · rw [restrict_cons_ne key hj, restrict_cons_ne key hj, restrict_eraseP_ne hij l]

omit [DecidableEq ι] in
/-- An element of a sequence that grew is the new one or an old one. -/
theorem split_concat {l pre post : List α} {a b : α} (h : l ++ [b] = pre ++ a :: post) :
    (pre = l ∧ a = b) ∨ ∃ post', l = pre ++ a :: post' := by
  rcases List.eq_nil_or_concat post with rfl | ⟨post', x, rfl⟩
  · obtain ⟨hl, hb⟩ := List.append_inj' h rfl
    exact .inl ⟨hl.symm, (List.singleton_inj.mp hb).symm⟩
  · have h' : l ++ [b] = (pre ++ a :: post') ++ [x] := by simpa using h
    exact .inr ⟨post', List.append_inj_left' h' rfl⟩

omit [DecidableEq ι] in
/-- An element of a sequence that grew stands in the old part or in the
new one. -/
theorem split_append {l evs pre post : List α} {a : α} (h : l ++ evs = pre ++ a :: post) :
    (∃ post', l = pre ++ a :: post') ∨ ∃ pre', pre = l ++ pre' ∧ evs = pre' ++ a :: post := by
  rcases List.append_eq_append_iff.mp h with ⟨mid, hpre, hevs⟩ | ⟨mid, hl, hpost⟩
  · exact .inr ⟨mid, hpre, hevs⟩
  · cases mid with
    | nil => exact .inr ⟨[], by simpa using hl.symm, by simpa using hpost.symm⟩
    | cons b mid =>
        obtain ⟨rfl, -⟩ := List.cons.inj hpost
        exact .inl ⟨mid, hl⟩

/-- Sequences that agree key by key are permutations of one another. -/
theorem perm_of_restrict_eq {l₁ l₂ : List α}
    (h : ∀ i, restrict key i l₁ = restrict key i l₂) : l₁.Perm l₂ := by
  classical
  refine List.perm_iff_count.mpr fun a => ?_
  have hcount : ∀ l : List α, l.count a = (restrict key (key a) l).count a := fun l =>
    (List.count_filter (by simp)).symm
  rw [hcount l₁, hcount l₂, h]

/-- ... and so do measures of their elements. -/
theorem perm_map_of_restrict_eq {β : Type*} (f : α → β) {l₁ l₂ : List α}
    (h : ∀ i, (restrict key i l₁).map f = (restrict key i l₂).map f) :
    (l₁.map f).Perm (l₂.map f) := by
  have hpair : (l₁.map fun a => (key a, f a)).Perm (l₂.map fun a => (key a, f a)) := by
    refine perm_of_restrict_eq Prod.fst fun i => ?_
    have hrestrict : ∀ l : List α, restrict Prod.fst i (l.map fun a => (key a, f a))
        = ((restrict key i l).map f).map fun b => (i, b) := by
      intro l
      rw [restrict_map, List.map_map]
      refine List.map_congr_left fun a ha => ?_
      have hi : key a = i := by simpa [restrict] using (List.mem_filter.mp ha).2
      rw [← hi]
      rfl
    rw [hrestrict, hrestrict, h]
  have hsnd := hpair.map Prod.snd
  rw [List.map_map, List.map_map] at hsnd
  exact hsnd

end Sequences

end Keyed
