import Mathlib.Logic.Relation

/-!
# Re-entrant call machines

A component whose operations call back into it while they run is
modelled by a *work list*: executing one call changes the state and
names the calls it makes next, in order, ahead of whatever was already
waiting. A call boundary is a configuration with an empty work list;
there a new operation may be entered.

Everything is stated over arbitrary states `σ`, calls `κ`, operations
`ι` and faults `ε`. The two rules the development lives on are
`ReachesIf.invariant` (an invariant of every configuration, hence of every
call boundary) and `drive_reaches` (a run computed by `drive` is a run
of the machine). `advance_reaches` reaches the configurations in between.
-/

namespace Worklist

/-- A re-entrant component: how an operation is entered, and what one
call does. Both return the calls that are to be made next. -/
structure Machine (ι σ κ ε : Type*) where
  enter : ι → σ → σ × List κ
  exec : κ → σ → Except ε (σ × List κ)

variable {ι σ κ ε : Type*} {M : Machine ι σ κ ε}

/-- The calls still to be made, first one first, and the state. -/
abbrev Config (σ κ : Type*) := List κ × σ

/-- One transition: an allowed operation is entered at a call boundary,
or the first waiting call is executed; either way only from a
configuration that meets `ok`. -/
inductive Trans (M : Machine ι σ κ ε) (allow : ι → Prop) (ok : Config σ κ → Prop) :
    Config σ κ → Config σ κ → Prop
  | enter {op : ι} {s : σ} (h : allow op) (hok : ok ([], s)) :
      Trans M allow ok ([], s) ((M.enter op s).2, (M.enter op s).1)
  | call {c : κ} {K ks : List κ} {s s' : σ} (h : M.exec c s = .ok (s', ks))
      (hok : ok (c :: K, s)) : Trans M allow ok (c :: K, s) (ks ++ K, s')

/-- A run from one configuration to another. -/
def Runs (M : Machine ι σ κ ε) (allow : ι → Prop) (ok : Config σ κ → Prop)
    (x y : Config σ κ) : Prop := Relation.ReflTransGen (Trans M allow ok) x y

/-- The invariant rule for a run: each step may use the run that led to
it. -/
theorem Runs.invariant {allow : ι → Prop} {ok : Config σ κ → Prop} {x y : Config σ κ}
    {P : Config σ κ → Prop} (h : Runs M allow ok x y) (h0 : P x)
    (hEnter : ∀ op s, allow op → ok ([], s) → Runs M allow ok x ([], s) → P ([], s) →
      P ((M.enter op s).2, (M.enter op s).1))
    (hCall : ∀ c K s s' ks, ok (c :: K, s) → Runs M allow ok x (c :: K, s) → P (c :: K, s) →
      M.exec c s = .ok (s', ks) → P (ks ++ K, s')) : P y := by
  induction h with
  | refl => exact h0
  | tail hpre hstep ih =>
      cases hstep with
      | enter ha hok => exact hEnter _ _ ha hok hpre ih
      | call he hok => exact hCall _ _ _ _ _ hok hpre ih he

/-- Configurations of a run that starts at the call boundary `s₀`, enters
allowed operations only and makes every step from a configuration that
meets `ok`. -/
def ReachesIf (M : Machine ι σ κ ε) (allow : ι → Prop) (ok : Config σ κ → Prop) (s₀ : σ)
    (x : Config σ κ) : Prop :=
  Relation.ReflTransGen (Trans M allow ok) ([], s₀) x

/-- Configurations of a run with no condition on its steps. -/
abbrev Reaches (M : Machine ι σ κ ε) (allow : ι → Prop) (s₀ : σ) (x : Config σ κ) : Prop :=
  ReachesIf M allow (fun _ => True) s₀ x

namespace ReachesIf

variable {allow : ι → Prop} {ok : Config σ κ → Prop} {s₀ : σ}

theorem refl : ReachesIf M allow ok s₀ ([], s₀) := Relation.ReflTransGen.refl

theorem enter {op : ι} {s : σ} (h : ReachesIf M allow ok s₀ ([], s)) (ha : allow op)
    (hok : ok ([], s)) : ReachesIf M allow ok s₀ ((M.enter op s).2, (M.enter op s).1) :=
  Relation.ReflTransGen.tail h (.enter ha hok)

theorem call {c : κ} {K ks : List κ} {s s' : σ}
    (h : ReachesIf M allow ok s₀ (c :: K, s)) (hok : ok (c :: K, s))
    (he : M.exec c s = .ok (s', ks)) : ReachesIf M allow ok s₀ (ks ++ K, s') :=
  Relation.ReflTransGen.tail h (.call he hok)

/-- **The invariant rule.** What holds at the start, and is kept by
entering an operation and by executing a call, holds of every
configuration. Each step may use that its source is reachable, so
invariants proved earlier are at hand. -/
theorem invariant {P : Config σ κ → Prop} (h0 : P ([], s₀))
    (hEnter : ∀ op s, allow op → ok ([], s) → ReachesIf M allow ok s₀ ([], s) →
      P ([], s) → P ((M.enter op s).2, (M.enter op s).1))
    (hCall : ∀ c K s s' ks, ok (c :: K, s) → ReachesIf M allow ok s₀ (c :: K, s) →
      P (c :: K, s) → M.exec c s = .ok (s', ks) → P (ks ++ K, s'))
    {x : Config σ κ} (h : ReachesIf M allow ok s₀ x) : P x :=
  Runs.invariant h h0 hEnter hCall

/-- Fewer operations allowed and fewer steps, fewer configurations
reached. -/
theorem mono {allow' : ι → Prop} {ok' : Config σ κ → Prop}
    (hallow : ∀ op, allow op → allow' op) (hok : ∀ x, ok x → ok' x) {x : Config σ κ}
    (h : ReachesIf M allow ok s₀ x) : ReachesIf M allow' ok' s₀ x := by
  refine invariant (P := fun x => ReachesIf M allow' ok' s₀ x) refl ?_ ?_ h
  · intro op s ha ho _ hr
    exact hr.enter (hallow op ha) (hok _ ho)
  · intro c K s s' ks ho _ hr he
    exact hr.call (hok _ ho) he

/-- A run goes on from where another ended. -/
theorem runs {x y : Config σ κ} (h : ReachesIf M allow ok s₀ x) (hxy : Runs M allow ok x y) :
    ReachesIf M allow ok s₀ y := Relation.ReflTransGen.trans h hxy

/-- Forget the condition on the steps. -/
theorem reaches {x : Config σ κ} (h : ReachesIf M allow ok s₀ x) : Reaches M allow s₀ x :=
  h.mono (fun _ ha => ha) (fun _ _ => trivial)

end ReachesIf

/-! ## Executing what is waiting -/

/-- A run that executes waiting calls only. -/
abbrev Executes (M : Machine ι σ κ ε) (ok : Config σ κ → Prop) (x y : Config σ κ) : Prop :=
  Runs M (fun _ => False) ok x y

namespace Executes

variable {allow : ι → Prop} {ok : Config σ κ → Prop} {s₀ : σ} {x y : Config σ κ}

theorem refl : Executes M ok x x := Relation.ReflTransGen.refl

theorem call {c : κ} {K ks : List κ} {s s' : σ} (h : Executes M ok x (c :: K, s))
    (hok : ok (c :: K, s)) (he : M.exec c s = .ok (s', ks)) : Executes M ok x (ks ++ K, s') :=
  Relation.ReflTransGen.tail h (.call he hok)

/-- The invariant rule for the calls of one operation. -/
theorem invariant {P : Config σ κ → Prop} (h : Executes M ok x y) (h0 : P x)
    (hCall : ∀ c K s s' ks, ok (c :: K, s) → P (c :: K, s) → M.exec c s = .ok (s', ks) →
      P (ks ++ K, s')) : P y :=
  Runs.invariant h h0 (fun _ _ ha => ha.elim) fun c K s s' ks hok _ hp he =>
    hCall c K s s' ks hok hp he

end Executes

/-- A run goes on with the calls that are waiting. -/
theorem ReachesIf.executes {allow : ι → Prop} {ok : Config σ κ → Prop} {s₀ : σ}
    {x y : Config σ κ} (h : ReachesIf M allow ok s₀ x) (hxy : Executes M ok x y) :
    ReachesIf M allow ok s₀ y := by
  refine Executes.invariant (P := fun y => ReachesIf M allow ok s₀ y) hxy h ?_
  intro c K s s' ks hok hr he
  exact hr.call hok he

/-! ## Calls that wait until they are ready -/

/-- Of the calls that wait, one has to be `ready` when its turn comes. Those in
front of it are `light`, those behind it `plain`. -/
inductive Staged (light plain : κ → Prop) (ready : σ → κ → Prop) (s : σ) : List κ → Prop
  | nil : Staged light plain ready s []
  | light {c : κ} {K : List κ} (h : light c) (hK : Staged light plain ready s K) :
      Staged light plain ready s (c :: K)
  | ready {c : κ} {K : List κ} (h : ready s c) (hK : ∀ d ∈ K, plain d) :
      Staged light plain ready s (c :: K)

namespace Staged

variable {light plain : κ → Prop} {ready : σ → κ → Prop} {s s' : σ} {c : κ} {K ks : List κ}

theorem lights (hks : ∀ d ∈ ks, light d) (h : Staged light plain ready s K) :
    Staged light plain ready s (ks ++ K) := by
  induction ks with
  | nil => exact h
  | cons c ks ih =>
      exact .light (hks c (List.mem_cons_self ..)) (ih fun d hd => hks d (List.mem_cons_of_mem _ hd))

theorem append (h : Staged light plain ready s ks) (hK : ∀ d ∈ K, plain d)
    (hp : ∀ d, plain d → ready s d) : Staged light plain ready s (ks ++ K) := by
  induction h with
  | nil =>
      cases K with
      | nil => exact .nil
      | cons d K =>
          exact .ready (hp d (hK d (List.mem_cons_self ..)))
            fun e he => hK e (List.mem_cons_of_mem _ he)
  | light hc _ ih => exact .light hc ih
  | ready hc hks =>
      refine .ready hc fun d hd => ?_
      exact (List.mem_append.mp hd).elim (hks d) (hK d)

theorem mono (h : Staged light plain ready s K) (hr : ∀ d, ready s d → ready s' d) :
    Staged light plain ready s' K := by
  induction h with
  | nil => exact .nil
  | light hc _ ih => exact .light hc ih
  | ready hc hK => exact .ready (hr _ hc) hK

/-- A call that is executed was light and calls light ones, which leaves what
waits as ready as it was; or it was ready. -/
theorem call (h : Staged light plain ready s (c :: K))
    (hlight : light c → (∀ d ∈ ks, light d) ∧ ∀ d, ready s d → ready s' d)
    (hready : ready s c → Staged light plain ready s' ks)
    (hp : ∀ d, plain d → ready s' d) : Staged light plain ready s' (ks ++ K) := by
  cases h with
  | light hc hK => exact lights (hlight hc).1 (hK.mono (hlight hc).2)
  | ready hc hK => exact (hready hc).append hK hp

end Staged

/-! ## A guarded environment -/

/-- The component in an environment that enters an operation only when
the state lets it: an operation that is not let in does nothing. -/
def Machine.gated (M : Machine ι σ κ ε) (guard : ι → σ → Bool) : Machine ι σ κ ε where
  enter op s := if guard op s then M.enter op s else (s, [])
  exec := M.exec

theorem Executes.gated {guard : ι → σ → Bool} {ok : Config σ κ → Prop} {x y : Config σ κ}
    (h : Executes M ok x y) : Executes (M.gated guard) ok x y := by
  refine invariant (P := fun y => Executes (M.gated guard) ok x y) h .refl ?_
  intro c K s s' ks hok hr he
  exact hr.call hok he

namespace ReachesIf

variable {guard : ι → σ → Bool} {allow : ι → Prop} {ok : Config σ κ → Prop} {s₀ : σ}

/-- The invariant rule for a guarded environment: only operations that are
let in need to keep the property. -/
theorem gated_invariant {P : Config σ κ → Prop} (h0 : P ([], s₀))
    (hEnter : ∀ op s, allow op → guard op s = true → ReachesIf M allow ok s₀ ([], s) →
      P ([], s) → P ((M.enter op s).2, (M.enter op s).1))
    (hCall : ∀ c K s s' ks, ok (c :: K, s) → ReachesIf M allow ok s₀ (c :: K, s) →
      P (c :: K, s) → M.exec c s = .ok (s', ks) → P (ks ++ K, s'))
    {x : Config σ κ} (h : ReachesIf (M.gated guard) allow ok s₀ x) :
    ReachesIf M allow ok s₀ x ∧ P x := by
  refine invariant (P := fun x => ReachesIf M allow ok s₀ x ∧ P x) ⟨refl, h0⟩ ?_ ?_ h
  · rintro op s ha hok - ⟨hr, hp⟩
    by_cases hg : guard op s = true
    · have he : (M.gated guard).enter op s = M.enter op s := if_pos hg
      rw [he]
      exact ⟨hr.enter ha hok, hEnter op s ha hg hr hp⟩
    · have he : (M.gated guard).enter op s = (s, []) := if_neg hg
      rw [he]
      exact ⟨hr, hp⟩
  · rintro c K s s' ks hok - ⟨hr, hp⟩ he
    exact ⟨hr.call hok he, hCall c K s s' ks hok hr hp he⟩

/-- What a guarded environment reaches is reached without the guard. -/
theorem ungated {x : Config σ κ} (h : ReachesIf (M.gated guard) allow ok s₀ x) :
    ReachesIf M allow ok s₀ x :=
  (gated_invariant (P := fun _ => True) trivial (fun _ _ _ _ _ _ => trivial)
    (fun _ _ _ _ _ _ _ _ _ => trivial) h).1

end ReachesIf

/-! ## Running the machine -/

/-- Execute waiting calls, at most `n` of them, until none is left. -/
def exhaust (M : Machine ι σ κ ε) : Nat → List κ → σ → Option (Except ε σ)
  | _, [], s => some (.ok s)
  | 0, _ :: _, _ => none
  | n + 1, c :: K, s =>
      match M.exec c s with
      | .error e => some (.error e)
      | .ok (s', ks) => exhaust M n (ks ++ K) s'

/-- Enter the operations one after the other, each run to its call
boundary with at most `n` calls. -/
def drive (M : Machine ι σ κ ε) (n : Nat) : List ι → σ → Option σ
  | [], s => some s
  | op :: ops, s =>
      match exhaust M n (M.enter op s).2 (M.enter op s).1 with
      | some (.ok s') => drive M n ops s'
      | _ => none

/-- Execute the first `n` waiting calls. -/
def advance (M : Machine ι σ κ ε) : Nat → Config σ κ → Option (Config σ κ)
  | 0, x => some x
  | _ + 1, ([], _) => none
  | n + 1, (c :: K, s) =>
      match M.exec c s with
      | .error _ => none
      | .ok (s', ks) => advance M n (ks ++ K, s')

variable {allow : ι → Prop} {s₀ : σ}

theorem advance_reaches : ∀ {n : Nat} {x y : Config σ κ},
    Reaches M allow s₀ x → advance M n x = some y → Reaches M allow s₀ y
  | 0, x, y, hr, h => by
      obtain rfl : x = y := by simpa [advance] using h
      exact hr
  | n + 1, ([], s), y, _, h => by simp [advance] at h
  | n + 1, (c :: K, s), y, hr, h => by
      rw [advance] at h
      split at h
      · simp at h
      · rename_i s' ks he
        exact advance_reaches (hr.call trivial he) h

theorem exhaust_executes : ∀ {n : Nat} {x : Config σ κ} {K : List κ} {s s' : σ},
    Executes M (fun _ => True) x (K, s) → exhaust M n K s = some (.ok s') →
      Executes M (fun _ => True) x ([], s')
  | n, x, [], s, s', hr, h => by
      have hs : s = s' := by cases n <;> simpa [exhaust] using h
      exact hs ▸ hr
  | 0, _, _ :: _, _, _, _, h => by simp [exhaust] at h
  | n + 1, x, c :: K, s, s', hr, h => by
      rw [exhaust] at h
      split at h
      · simp at h
      · rename_i s₁ ks he
        exact exhaust_executes (hr.call trivial he) h

theorem exhaust_reaches {n : Nat} {K : List κ} {s s' : σ}
    (hr : Reaches M allow s₀ (K, s)) (h : exhaust M n K s = some (.ok s')) :
    Reaches M allow s₀ ([], s') :=
  hr.executes (exhaust_executes .refl h)

/-- A computed run is a run. -/
theorem drive_reaches {n : Nat} : ∀ {ops : List ι} {s s' : σ},
    (∀ op ∈ ops, allow op) → Reaches M allow s₀ ([], s) →
      drive M n ops s = some s' → Reaches M allow s₀ ([], s')
  | [], s, s', _, hr, h => by
      obtain rfl : s = s' := by simpa [drive] using h
      exact hr
  | op :: ops, s, s', hops, hr, h => by
      rw [drive] at h
      split at h
      · rename_i s₁ he
        have h₁ : Reaches M allow s₀ ([], s₁) :=
          exhaust_reaches (hr.enter (hops op (List.mem_cons_self ..)) trivial) he
        exact drive_reaches (fun o ho => hops o (List.mem_cons_of_mem _ ho)) h₁ h
      · simp at h

/-- **The termination rule.** When every call that is waiting is executed and
makes a measure smaller, the measure bounds the number of calls. -/
theorem exhaust_terminates {P : Config σ κ → Prop} {μ : Config σ κ → Nat}
    (hstep : ∀ c K s, P (c :: K, s) → ∃ s' ks, M.exec c s = .ok (s', ks) ∧
      P (ks ++ K, s') ∧ μ (ks ++ K, s') < μ (c :: K, s)) {n : Nat} :
    ∀ {K : List κ} {s : σ}, P (K, s) → μ (K, s) ≤ n →
      ∃ s', exhaust M n K s = some (.ok s') ∧ P ([], s') := by
  induction n with
  | zero =>
      intro K s hp hn
      cases K with
      | nil => exact ⟨s, rfl, hp⟩
      | cons c K =>
          obtain ⟨s', ks, -, -, hlt⟩ := hstep c K s hp
          omega
  | succ n ih =>
      intro K s hp hn
      cases K with
      | nil => exact ⟨s, rfl, hp⟩
      | cons c K =>
          obtain ⟨s', ks, he, hp', hlt⟩ := hstep c K s hp
          obtain ⟨s'', hx, hp''⟩ := ih hp' (by omega)
          refine ⟨s'', ?_, hp''⟩
          rw [exhaust, he]
          exact hx

/-- `drive` with a state that `force` evaluates between the operations: what
`force` hands on is the state itself, with as much of it written out as a
later evaluation needs. -/
def driveVia (M : Machine ι σ κ ε) (force : σ → (σ → Option σ) → Option σ) (n : Nat) :
    List ι → σ → Option σ
  | [], s => some s
  | op :: ops, s =>
      match exhaust M n (M.enter op s).2 (M.enter op s).1 with
      | some (.ok s') => force s' fun s' => driveVia M force n ops s'
      | _ => none

theorem driveVia_eq {force : σ → (σ → Option σ) → Option σ} (h : ∀ s k, force s k = k s)
    {n : Nat} : ∀ {ops : List ι} {s : σ}, driveVia M force n ops s = drive M n ops s
  | [], s => rfl
  | op :: ops, s => by
      rw [driveVia, drive]
      split
      · rw [h, driveVia_eq h]
      · rfl

/-! ## Running under a condition -/

/-- `exhaust` as long as every configuration meets `ok`. -/
def exhaustIf (M : Machine ι σ κ ε) (ok : Config σ κ → Prop) [DecidablePred ok] :
    Nat → List κ → σ → Option σ
  | _, [], s => some s
  | 0, _ :: _, _ => none
  | n + 1, c :: K, s =>
      if ok (c :: K, s) then
        match M.exec c s with
        | .error _ => none
        | .ok (s', ks) => exhaustIf M ok n (ks ++ K) s'
      else none

/-- `drive` as long as every configuration meets `ok`. -/
def driveIf (M : Machine ι σ κ ε) (ok : Config σ κ → Prop) [DecidablePred ok] (n : Nat) :
    List ι → σ → Option σ
  | [], s => some s
  | op :: ops, s =>
      if ok ([], s) then
        match exhaustIf M ok n (M.enter op s).2 (M.enter op s).1 with
        | some s' => driveIf M ok n ops s'
        | none => none
      else none

/-- `advance` as long as every configuration meets `ok`. -/
def advanceIf (M : Machine ι σ κ ε) (ok : Config σ κ → Prop) [DecidablePred ok] :
    Nat → Config σ κ → Option (Config σ κ)
  | 0, x => some x
  | _ + 1, ([], _) => none
  | n + 1, (c :: K, s) =>
      if ok (c :: K, s) then
        match M.exec c s with
        | .error _ => none
        | .ok (s', ks) => advanceIf M ok n (ks ++ K, s')
      else none

section Checked

variable {ok : Config σ κ → Prop} [DecidablePred ok]

theorem advanceIf_reaches : ∀ {n : Nat} {x y : Config σ κ},
    ReachesIf M allow ok s₀ x → advanceIf M ok n x = some y → ReachesIf M allow ok s₀ y
  | 0, x, y, hr, h => by
      obtain rfl : x = y := by simpa [advanceIf] using h
      exact hr
  | n + 1, ([], s), y, _, h => by simp [advanceIf] at h
  | n + 1, (c :: K, s), y, hr, h => by
      rw [advanceIf] at h
      split at h
      · rename_i hok
        split at h
        · simp at h
        · rename_i s' ks he
          exact advanceIf_reaches (hr.call hok he) h
      · simp at h

theorem exhaustIf_executes : ∀ {n : Nat} {x : Config σ κ} {K : List κ} {s s' : σ},
    Executes M ok x (K, s) → exhaustIf M ok n K s = some s' → Executes M ok x ([], s')
  | n, x, [], s, s', hr, h => by
      have hs : s = s' := by cases n <;> simpa [exhaustIf] using h
      exact hs ▸ hr
  | 0, _, _ :: _, _, _, _, h => by simp [exhaustIf] at h
  | n + 1, x, c :: K, s, s', hr, h => by
      rw [exhaustIf] at h
      split at h
      · rename_i hok
        split at h
        · simp at h
        · rename_i s₁ ks he
          exact exhaustIf_executes (hr.call hok he) h
      · simp at h

theorem driveIf_reaches {n : Nat} : ∀ {ops : List ι} {s s' : σ},
    (∀ op ∈ ops, allow op) → ReachesIf M allow ok s₀ ([], s) →
      driveIf M ok n ops s = some s' → ReachesIf M allow ok s₀ ([], s')
  | [], s, s', _, hr, h => by
      obtain rfl : s = s' := by simpa [driveIf] using h
      exact hr
  | op :: ops, s, s', hops, hr, h => by
      rw [driveIf] at h
      split at h
      · rename_i hok
        split at h
        · rename_i s₁ he
          have henter := hr.enter (hops op (List.mem_cons_self ..)) hok
          exact driveIf_reaches (fun o ho => hops o (List.mem_cons_of_mem _ ho))
            (henter.executes (exhaustIf_executes .refl he)) h
        · simp at h
      · simp at h

end Checked

end Worklist
