import Mathlib.Data.Set.Function
import Mathlib.Logic.Function.Basic

/-!
# Assignments seen from both sides

Jobs are placed at servers, one job a server and one server a job, and both
sides keep a note of it: `f` says where a job is placed, `g` which job a
server has. `Matched f g` says that the notes agree. Placing a job at an
idle server and taking one away keep it, and matched notes are a bijection
between the jobs placed and the servers at work.
-/

namespace Matching

variable {α β : Type*}

/-- Each side names the other. -/
def Matched (f : α → Option β) (g : β → Option α) : Prop :=
  ∀ a b, f a = some b ↔ g b = some a

variable {f : α → Option β} {g : β → Option α} {a : α} {b : β}

theorem Matched.idle (h : Matched f g) (hb : g b = none) (a : α) : f a ≠ some b := by
  intro ha
  rw [h] at ha
  rw [ha] at hb
  cases hb

theorem Matched.unplaced (h : Matched f g) (ha : f a = none) (b : β) : g b ≠ some a := by
  intro hb
  rw [← h] at hb
  rw [hb] at ha
  cases ha

/-- Two jobs are not placed at one server. -/
theorem Matched.unique (h : Matched f g) {a' : α} (ha : f a = some b) (ha' : f a' = some b) :
    a = a' :=
  Option.some.inj (((h a b).mp ha).symm.trans ((h a' b).mp ha'))

section Update

variable [DecidableEq α] [DecidableEq β]

theorem Matched.assign (h : Matched f g) (ha : f a = none) (hb : g b = none) :
    Matched (Function.update f a (some b)) (Function.update g b (some a)) := by
  intro x y
  by_cases hx : x = a
  · subst hx
    by_cases hy : y = b
    · subst hy
      simp
    · rw [Function.update_self, Function.update_of_ne hy]
      exact ⟨fun hb' => absurd (Option.some.inj hb').symm hy, fun hg => absurd hg (h.unplaced ha y)⟩
  · rw [Function.update_of_ne hx]
    by_cases hy : y = b
    · subst hy
      rw [Function.update_self]
      exact ⟨fun hf => absurd hf (h.idle hb x), fun ha' => absurd (Option.some.inj ha').symm hx⟩
    · rw [Function.update_of_ne hy]
      exact h x y

theorem Matched.release (h : Matched f g) (ha : f a = some b) :
    Matched (Function.update f a none) (Function.update g b none) := by
  intro x y
  by_cases hx : x = a
  · subst hx
    rw [Function.update_self]
    by_cases hy : y = b
    · subst hy
      simp
    · rw [Function.update_of_ne hy, ← h, ha]
      exact ⟨fun hn => by simp at hn, fun hb => absurd (Option.some.inj hb).symm hy⟩
  · rw [Function.update_of_ne hx]
    by_cases hy : y = b
    · subst hy
      rw [Function.update_self]
      exact ⟨fun hf => absurd (h.unique hf ha) hx, fun hn => by simp at hn⟩
    · rw [Function.update_of_ne hy]
      exact h x y

end Update

/-- Where the notes agree with a function `φ`, it is a bijection. -/
theorem Matched.bijOn (h : Matched f g) {φ : α → β} (hφ : ∀ a b, f a = some b → φ a = b) :
    Set.BijOn φ {a | (f a).isSome} {b | (g b).isSome} := by
  refine ⟨?_, ?_, ?_⟩
  · intro a ha
    obtain ⟨b, hb⟩ := Option.isSome_iff_exists.mp ha
    rw [Set.mem_ofPred_eq, hφ a b hb, (h a b).mp hb]
    rfl
  · intro a ha a' ha' heq
    obtain ⟨b, hb⟩ := Option.isSome_iff_exists.mp ha
    obtain ⟨b', hb'⟩ := Option.isSome_iff_exists.mp ha'
    obtain rfl : b = b' := (hφ a b hb).symm.trans (heq.trans (hφ a' b' hb'))
    exact h.unique hb hb'
  · intro b hb
    obtain ⟨a, ha⟩ := Option.isSome_iff_exists.mp hb
    rw [← h] at ha
    exact ⟨a, Option.isSome_iff_exists.mpr ⟨b, ha⟩, hφ a b ha⟩

end Matching
