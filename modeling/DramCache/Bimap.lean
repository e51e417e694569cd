import DramCache.Keyed
import Mathlib.Data.List.Nodup
import Mathlib.Data.PEquiv

/-!
# Two maps kept inverse to each other

A partial bijection stored as two association lists. What keeps the two
inverse: a pair put into both, neither side of it in use; and a key given up
for a new one, the value it was for passing to that.
-/

namespace Bimap

variable {α β : Type*} [DecidableEq α] [DecidableEq β]

/-- Each map undoes the other. -/
def Inverse (f : AList fun _ : α => β) (g : AList fun _ : β => α) : Prop :=
  ∀ a b, f.lookup a = some b ↔ g.lookup b = some a

variable {f : AList fun _ : α => β} {g : AList fun _ : β => α} {a a' : α} {b : β}

theorem Inverse.empty : Inverse (∅ : AList fun _ : α => β) ∅ := by
  intro a b
  simp

/-- The partial bijection the two maps store. -/
def Inverse.toPEquiv (h : Inverse f g) : α ≃. β where
  toFun a := f.lookup a
  invFun b := g.lookup b
  inv a b := (h a b).symm

theorem Inverse.injective (h : Inverse f g) (ha : f.lookup a = some b)
    (ha' : f.lookup a' = some b) : a = a' := by
  have hb := (h a b).mp ha
  rw [(h a' b).mp ha'] at hb
  exact (Option.some.inj hb).symm

/-! ## Sizes -/

omit [DecidableEq β] in
theorem mem_keys_of_lookup (ha : f.lookup a = some b) : a ∈ f.keys :=
  AList.mem_keys.mp (AList.lookup_isSome.mp (by rw [ha]; rfl))

omit [DecidableEq β] in
theorem lookup_of_mem_keys (ha : a ∈ f.keys) : ∃ b, f.lookup a = some b :=
  Option.isSome_iff_exists.mp (AList.lookup_isSome.mpr (AList.mem_keys.mpr ha))

/-- The keys of one map are the values of the other: both have as many. -/
theorem Inverse.length_keys (h : Inverse f g) : g.keys.length = f.keys.length := by
  have hinj : ∀ x ∈ f.entries, ∀ y ∈ f.entries, x.2 = y.2 → x = y := by
    rintro ⟨a, b⟩ hx ⟨a', b'⟩ hy hb
    obtain rfl : b = b' := hb
    rw [h.injective (AList.mem_lookup_iff.mpr hx) (AList.mem_lookup_iff.mpr hy)]
  have hnodup : (f.entries.map fun x => x.2).Nodup :=
    f.nodupKeys.nodup.map_on hinj
  have hperm : (f.entries.map fun x => x.2).Perm g.keys := by
    rw [List.perm_ext_iff_of_nodup hnodup g.keys_nodup]
    intro b
    rw [List.mem_map]
    constructor
    · rintro ⟨⟨a, b⟩, hx, rfl⟩
      exact mem_keys_of_lookup ((h a b).mp (AList.mem_lookup_iff.mpr hx))
    · intro hb
      obtain ⟨a, ha⟩ := lookup_of_mem_keys hb
      exact ⟨⟨a, b⟩, AList.mem_lookup_iff.mp ((h a b).mpr ha), rfl⟩
  have hlen := hperm.length_eq
  rw [List.length_map] at hlen
  rw [← hlen]
  exact (List.length_map _).symm

omit [DecidableEq β] in
theorem length_keys_insert (ha : f.lookup a = none) :
    (f.insert a b).keys.length = f.keys.length + 1 := by
  have hmem : a ∉ f.keys := AList.lookup_eq_none.mp ha
  rw [AList.keys_insert, List.erase_of_not_mem hmem, List.length_cons]

omit [DecidableEq β] in
theorem length_keys_erase (ha : f.lookup a = some b) :
    (f.erase a).keys.length + 1 = f.keys.length := by
  have hmem := mem_keys_of_lookup ha
  rw [AList.keys_erase, List.length_erase_of_mem hmem]
  have hpos := List.length_pos_of_mem hmem
  omega

/-! ## What keeps the maps inverse -/

theorem Inverse.insert (h : Inverse f g) (ha : f.lookup a = none) (hb : g.lookup b = none) :
    Inverse (f.insert a b) (g.insert b a) := by
  intro x y
  by_cases hx : x = a <;> by_cases hy : y = b
  · rw [hx, hy, AList.lookup_insert, AList.lookup_insert]
    simp
  · -- `a` was not mapped to `y` before
    have hgy : g.lookup y ≠ some a := fun hg => by
      rw [(h a y).mpr hg] at ha
      cases ha
    rw [hx, AList.lookup_insert, AList.lookup_insert_ne hy]
    constructor
    · intro heq
      exact absurd (Option.some.inj heq).symm hy
    · intro heq
      exact absurd heq hgy
  · have hfx : f.lookup x ≠ some b := fun hf => by
      rw [(h x b).mp hf] at hb
      cases hb
    rw [hy, AList.lookup_insert, AList.lookup_insert_ne hx]
    constructor
    · intro heq
      exact absurd heq hfx
    · intro heq
      exact absurd (Option.some.inj heq).symm hx
  · rw [AList.lookup_insert_ne hx, AList.lookup_insert_ne hy]
    exact h x y

theorem Inverse.erase (h : Inverse f g) (ha : f.lookup a = some b) :
    Inverse (f.erase a) (g.erase b) := by
  intro x y
  have hb := (h a b).mp ha
  by_cases hx : x = a <;> by_cases hy : y = b
  · rw [hx, hy, AList.lookup_erase, AList.lookup_erase]
    simp
  · rw [hx, AList.lookup_erase, AList.lookup_erase_ne hy]
    constructor
    · intro heq
      cases heq
    · intro hg
      rw [(h a y).mpr hg] at ha
      exact absurd (Option.some.inj ha) hy
  · rw [hy, AList.lookup_erase, AList.lookup_erase_ne hx]
    constructor
    · intro hf
      rw [(h x b).mp hf] at hb
      exact absurd (Option.some.inj hb) hx
    · intro heq
      cases heq
  · rw [AList.lookup_erase_ne hx, AList.lookup_erase_ne hy]
    exact h x y

/-- `a` is given up for `a'`: the one map forgets the old key, the other only
overwrites. -/
theorem Inverse.rekey (h : Inverse f g) (ha : f.lookup a = some b) (ha' : f.lookup a' = none) :
    Inverse ((f.erase a).insert a' b) (g.insert b a') := by
  have hne : a' ≠ a := by
    rintro rfl
    rw [ha] at ha'
    cases ha'
  have hstep := (h.erase ha).insert (a := a') (b := b)
    (by rw [AList.lookup_erase_ne hne, ha']) (AList.lookup_erase ..)
  rwa [show (g.erase b).insert b a' = g.insert b a' from ?_] at hstep
  apply AList.ext
  have hgone : (g.erase b).erase b = g.erase b :=
    Keyed.erase_of_lookup_none (AList.lookup_erase ..)
  rw [AList.entries_insert, AList.entries_insert]
  exact congrArg (⟨b, a'⟩ :: ·) (congrArg AList.entries hgone)

omit [DecidableEq β] in
theorem length_keys_rekey (ha : f.lookup a = some b) (ha' : f.lookup a' = none) :
    ((f.erase a).insert a' b).keys.length = f.keys.length := by
  have hne : a' ≠ a := by
    rintro rfl
    rw [ha] at ha'
    cases ha'
  rw [length_keys_insert (by rw [AList.lookup_erase_ne hne, ha']), length_keys_erase ha]

end Bimap
