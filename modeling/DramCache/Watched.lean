import DramCache.Worklist

/-!
# Watching a run

A machine that keeps a record of what a watcher notes at each of its
steps. The watcher sees a step's call and the states before and after it
and changes nothing (`watched_exec`).
-/

namespace Worklist

variable {ι σ κ ε α : Type*}

/-- The machine with a record. -/
def Machine.watched (M : Machine ι σ κ ε) (onEnter : ι → σ → σ → List α)
    (onExec : κ → σ → σ → List α) : Machine ι (σ × List α) κ ε where
  enter op x := (((M.enter op x.1).1, x.2 ++ onEnter op x.1 (M.enter op x.1).1),
    (M.enter op x.1).2)
  exec c x := (M.exec c x.1).map fun r => ((r.1, x.2 ++ onExec c x.1 r.1), r.2)

section Watched

variable {M : Machine ι σ κ ε} {onEnter : ι → σ → σ → List α} {onExec : κ → σ → σ → List α}

theorem watched_exec {c : κ} {x x' : σ × List α} {ks : List κ}
    (h : (M.watched onEnter onExec).exec c x = .ok (x', ks)) :
    M.exec c x.1 = .ok (x'.1, ks) ∧ x'.2 = x.2 ++ onExec c x.1 x'.1 := by
  change (M.exec c x.1).map _ = .ok (x', ks) at h
  cases he : M.exec c x.1 with
  | error e =>
      rw [he] at h
      cases h
  | ok r =>
      rw [he] at h
      cases h
      exact ⟨rfl, rfl⟩

end Watched

end Worklist
