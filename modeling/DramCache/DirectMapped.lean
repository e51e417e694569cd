import Mathlib.Data.List.Induction
import Mathlib.Logic.Function.Basic
import DramCache.Keyed

/-!
# Direct-mapped write-back caches

The reference: every address has one slot (`key`), an access makes its
address the resident line of that slot (write-allocate), a write marks the
line dirty, and replacing a dirty line writes it back. The slot of a key
depends on the accesses of that key only (`run_apply`), and its content is
said by those accesses directly (`slotRun_isSome`, `slotRun_addr`,
`slotRun_dirty`).
-/

namespace DirectMapped

variable {ι α : Type*}

/-- A resident line: its address, and whether it was written since it was
installed. -/
structure Line (α : Type*) where
  addr : α
  dirty : Bool
deriving DecidableEq

/-- Is it a write, and to which address. -/
abbrev Access (α : Type*) := Bool × α

abbrev Cache (ι α : Type*) := ι → Option (Line α)

variable [DecidableEq α]

/-! ## One slot -/

def hit (old : Option (Line α)) (a : Access α) : Bool :=
  old.any fun l => decide (l.addr = a.2)

/-- The line resident after an access: a hit keeps what was dirty. -/
def access (old : Option (Line α)) (a : Access α) : Line α :=
  { addr := a.2, dirty := a.1 || old.any fun l => decide (l.addr = a.2) && l.dirty }

/-- The address an access writes back: that of a dirty line it replaces. -/
def victim? (old : Option (Line α)) (a : Access α) : Option α :=
  old.bind fun l => if l.addr ≠ a.2 ∧ l.dirty = true then some l.addr else none

/-- A slot after a sequence of accesses. -/
def slotRun (old : Option (Line α)) (as : List (Access α)) : Option (Line α) :=
  as.foldl (fun l a => some (access l a)) old

@[simp] theorem slotRun_nil (old : Option (Line α)) : slotRun old [] = old := rfl

theorem slotRun_concat (old : Option (Line α)) (as : List (Access α)) (a : Access α) :
    slotRun old (as ++ [a]) = some (access (slotRun old as) a) := by
  simp [slotRun]

/-- A slot is filled by the first access and stays so. -/
theorem slotRun_isSome (as : List (Access α)) : (slotRun none as).isSome ↔ as ≠ [] := by
  rcases List.eq_nil_or_concat as with rfl | ⟨as', a, rfl⟩
  · simp
  · simp [slotRun_concat]

/-- The resident address is that of the last access. -/
theorem slotRun_addr {as : List (Access α)} {l : Line α} (h : slotRun none as = some l) :
    as.getLast?.map (fun a => a.2) = some l.addr := by
  rcases List.eq_nil_or_concat as with rfl | ⟨as', a, rfl⟩
  · cases h
  · rw [List.concat_eq_append, slotRun_concat] at h
    obtain rfl := Option.some.inj h
    simp [access]

/-- The accesses since the resident line was installed: the longest run of
accesses to one address at the end. -/
def sinceInstall (a : α) (as : List (Access α)) : List (Access α) :=
  as.reverse.takeWhile fun b => decide (b.2 = a)

/-- A line is dirty iff it was written since it was installed. -/
theorem slotRun_dirty (as : List (Access α)) : ∀ {l : Line α}, slotRun none as = some l →
    (l.dirty = true ↔ ∃ a ∈ sinceInstall l.addr as, a.1 = true) := by
  induction as using List.reverseRecOn with
  | nil => intro l h; cases h
  | append_singleton as a ih =>
      intro l h
      rw [slotRun_concat] at h
      obtain rfl := Option.some.inj h
      have hsplit : sinceInstall a.2 (as ++ [a]) = a :: sinceInstall a.2 as := by
        simp [sinceInstall]
      have hold : ((slotRun none as).any fun l => decide (l.addr = a.2) && l.dirty) = true ↔
          ∃ b ∈ sinceInstall a.2 as, b.1 = true := by
        cases hs : slotRun none as with
        | none =>
            obtain rfl : as = [] := by
              by_contra hne
              have := (slotRun_isSome as).mpr hne
              simp [hs] at this
            simp [sinceInstall]
        | some l =>
            by_cases hl : l.addr = a.2
            · rw [← hl, ← ih hs]
              simp
            · have hnil : sinceInstall a.2 as = [] := by
                -- the access before `a` went to the line that `a` replaces
                have hlast := slotRun_addr hs
                rw [← List.head?_reverse] at hlast
                obtain ⟨b, hb, hba⟩ := Option.map_eq_some_iff.mp hlast
                obtain ⟨rest, hrest⟩ := List.head?_eq_some_iff.mp hb
                rw [sinceInstall, hrest, List.takeWhile_cons_of_neg]
                simpa [hba] using hl
              simp [hl, hnil]
      change (a.1 || _) = true ↔ ∃ b ∈ sinceInstall a.2 (as ++ [a]), b.1 = true
      rw [hsplit, Bool.or_eq_true, hold]
      simp

/-! ## The cache -/

variable [DecidableEq ι] (key : α → ι)

def step (c : Cache ι α) (a : Access α) : Cache ι α :=
  Function.update c (key a.2) (some (access (c (key a.2)) a))

def run (c : Cache ι α) (as : List (Access α)) : Cache ι α := as.foldl (step key) c

theorem run_concat (c : Cache ι α) (as : List (Access α)) (a : Access α) :
    run key c (as ++ [a]) = step key (run key c as) a := by
  simp [run]

/-- Slots do not interact. -/
theorem run_apply (c : Cache ι α) (as : List (Access α)) (i : ι) :
    run key c as i = slotRun (c i) (Keyed.restrict (fun a => key a.2) i as) := by
  induction as using List.reverseRecOn with
  | nil => rfl
  | append_singleton as a ih =>
      rw [run_concat, Keyed.restrict_append, step]
      by_cases h : key a.2 = i
      · subst h
        rw [Function.update_self, Keyed.restrict_cons_self (fun b : Access α => key b.2) rfl,
          Keyed.restrict_nil, slotRun_concat, ih]
      · rw [Function.update_of_ne (Ne.symm h),
          Keyed.restrict_cons_ne (fun b : Access α => key b.2) h, Keyed.restrict_nil, List.append_nil, ih]

end DirectMapped
