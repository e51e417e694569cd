import Mathlib.Algebra.Group.Defs
import Mathlib.Tactic.Choose
import DramCache.Worklist

/-!
# State that decides nothing

A part of the state may be written without being read: counters, or
results on their way out. An `Erasure` blanks such a part and sums up in an
account what of it is to be kept. An operation is `Blind` when what it does
to the rest, what it returns and what it adds to the account are the same on
the blanked state; blind operations compose. A component all of whose
operations and calls are blind runs in lockstep from states that are alike,
whatever happens in between that touches the blanked part only
(`Performs.alike`).
-/

namespace Worklist

/-- What of a state is blanked, and the account of it. -/
structure Erasure (σ A : Type*) [AddCommMonoid A] where
  erase : σ → σ
  account : σ → A
  erase_erase : ∀ s, erase (erase s) = erase s
  account_erase : ∀ s, account (erase s) = 0

namespace Erasure

variable {σ A α β γ ε : Type*} [AddCommMonoid A] (E : Erasure σ A)

/-- The same but for what is blanked, with equal accounts. -/
structure Alike (s t : σ) : Prop where
  erase : E.erase s = E.erase t
  account : E.account s = E.account t

theorem Alike.refl (s : σ) : E.Alike s s := ⟨rfl, rfl⟩

variable {E}

theorem Alike.symm {s t : σ} (h : E.Alike s t) : E.Alike t s := ⟨h.erase.symm, h.account.symm⟩

theorem Alike.trans {s t u : σ} (h : E.Alike s t) (h' : E.Alike t u) : E.Alike s u :=
  ⟨h.erase.trans h'.erase, h.account.trans h'.account⟩

variable (E)

/-- The operation does the same on the blanked state. -/
structure Blind (f : σ → σ × α) : Prop where
  erase : ∀ s, E.erase (f s).1 = E.erase (f (E.erase s)).1
  result : ∀ s, (f s).2 = (f (E.erase s)).2
  account : ∀ s, E.account (f s).1 = E.account s + E.account (f (E.erase s)).1

variable {E}

namespace Blind

theorem alike {f : σ → σ × α} (hf : E.Blind f) {s t : σ} (h : E.Alike s t) :
    E.Alike (f s).1 (f t).1 ∧ (f s).2 = (f t).2 := by
  refine ⟨⟨?_, ?_⟩, ?_⟩
  · rw [hf.erase, h.erase, ← hf.erase]
  · rw [hf.account, h.account, h.erase, ← hf.account]
  · rw [hf.result, h.erase, ← hf.result]

theorem pure (a : α) : E.Blind fun s => (s, a) where
  erase s := (E.erase_erase s).symm
  result _ := rfl
  account s := by rw [E.account_erase, add_zero]

/-- One operation after another. -/
theorem bind {f : σ → σ × α} {g : α → σ → σ × β} (hf : E.Blind f) (hg : ∀ a, E.Blind (g a)) :
    E.Blind fun s => g (f s).2 (f s).1 where
  erase s := by
    rw [(hg _).erase, hf.erase, hf.result s, ← (hg _).erase]
  result s := by
    rw [(hg _).result, hf.erase, hf.result s, ← (hg _).result]
  account s := by
    rw [(hg _).account, hf.account, hf.erase, hf.result s, add_assoc, ← (hg _).account]

/-- What the operation is told about the state it finds there blanked,
too. -/
theorem read {v : σ → γ} (hv : ∀ s, v (E.erase s) = v s) {f : γ → σ → σ × α}
    (hf : ∀ c, E.Blind (f c)) : E.Blind fun s => f (v s) s where
  erase s := by rw [(hf _).erase, hv]
  result s := by rw [(hf _).result, hv]
  account s := by rw [(hf _).account, hv]

/-- Case by case of what is read of the state. -/
theorem cases {v : σ → γ} (hv : ∀ s, v (E.erase s) = v s) {F : σ → σ × α}
    (h : ∀ c, ∃ f, E.Blind f ∧ ∀ s, v s = c → F s = f s) : E.Blind F := by
  choose f hf hF using h
  rw [show F = fun s => f (v s) s from funext fun s => hF (v s) s rfl]
  exact .read hv hf

/-- An operation that touches only what is blanked. -/
theorem of_alike {f : σ → σ} (hf : ∀ s, E.Alike (f s) s) (a : α) : E.Blind fun s => (f s, a) where
  erase s := by rw [(hf s).erase, (hf (E.erase s)).erase, E.erase_erase]
  result _ := rfl
  account s := by rw [(hf s).account, (hf (E.erase s)).account, E.account_erase, add_zero]

end Blind

variable (E)

/-- An operation that may fail does the same on the blanked state. -/
structure BlindOrFails (f : σ → Except ε (σ × α)) : Prop where
  ok : ∀ s s' a, f s = .ok (s', a) → ∃ t, f (E.erase s) = .ok (t, a) ∧
    E.erase s' = E.erase t ∧ E.account s' = E.account s + E.account t
  error : ∀ s e, f s = .error e → f (E.erase s) = .error e

variable {E}

namespace BlindOrFails

theorem of_blind {f : σ → σ × α} (hf : E.Blind f) :
    E.BlindOrFails fun s => (.ok (f s) : Except ε (σ × α)) where
  ok s s' a h := by
    obtain ⟨h₁, h₂⟩ := Prod.mk.inj (Except.ok.inj h)
    refine ⟨_, congrArg _ (Prod.ext rfl ?_), ?_, ?_⟩
    · exact (hf.result s).symm.trans h₂
    · rw [← h₁]
      exact hf.erase s
    · rw [← h₁]
      exact hf.account s
  error _ _ h := by cases h

/-- What the operation is told about the state may make it fail. -/
theorem read {v : σ → Except ε γ} (hv : ∀ s, v (E.erase s) = v s) {f : γ → σ → σ × α}
    (hf : ∀ c, E.Blind (f c)) : E.BlindOrFails fun s => (v s).map fun c => f c s where
  ok s s' a h := by
    simp only [hv]
    cases hs : v s with
    | error e =>
        rw [hs] at h
        cases h
    | ok c =>
        rw [hs] at h
        exact (of_blind (ε := ε) (hf c)).ok s s' a h
  error s e h := by
    simp only [hv]
    cases hs : v s with
    | error e' =>
        rw [hs] at h
        exact h
    | ok c =>
        rw [hs] at h
        cases h

theorem alike {f : σ → Except ε (σ × α)} (hf : E.BlindOrFails f) {s t s' : σ} {a : α}
    (h : E.Alike s t) (hs : f s = .ok (s', a)) : ∃ t', f t = .ok (t', a) ∧ E.Alike s' t' := by
  obtain ⟨u, hu, herase, haccount⟩ := hf.ok s s' a hs
  cases ht : f t with
  | error e =>
      rw [h.erase, hf.error t e ht] at hu
      cases hu
  | ok r =>
      obtain ⟨t', b⟩ := r
      obtain ⟨u', hu', herase', haccount'⟩ := hf.ok t t' b ht
      rw [h.erase, hu'] at hu
      obtain ⟨rfl, rfl⟩ := Prod.mk.inj (Except.ok.inj hu)
      exact ⟨t', rfl, herase.trans herase'.symm, by rw [haccount, haccount', h.account]⟩

end BlindOrFails

end Erasure

/-! ## Sequences of operations -/

variable {ι σ κ ε A : Type*} {M : Machine ι σ κ ε}

/-- The operations are performed one after the other, each to its call
boundary. -/
inductive Performs (M : Machine ι σ κ ε) : List ι → σ → σ → Prop
  | nil {s : σ} : Performs M [] s s
  | cons {op : ι} {ops : List ι} {s s₁ s' : σ}
      (h : Executes M (fun _ => True) ((M.enter op s).2, (M.enter op s).1) ([], s₁))
      (hs : Performs M ops s₁ s') : Performs M (op :: ops) s s'

/-- What is executed is determined. -/
theorem Executes.unique {x : Config σ κ} {s t : σ}
    (hs : Executes M (fun _ => True) x ([], s)) (ht : Executes M (fun _ => True) x ([], t)) :
    s = t := by
  have hend : ∀ {s t : σ}, Executes M (fun _ => True) ([], s) ([], t) → s = t := by
    intro s t h
    rcases Relation.ReflTransGen.cases_head h with heq | ⟨y, hstep, -⟩
    · exact (Prod.mk.inj heq).2
    · cases hstep with
      | enter ha => exact ha.elim
  have hright : Relator.RightUnique (Trans M (fun _ => False) fun _ => True) := by
    intro a b c hb hc
    cases hb with
    | enter ha => exact ha.elim
    | call he =>
        cases hc with
        | call he' =>
            obtain ⟨rfl, rfl⟩ := Prod.mk.inj (Except.ok.inj (he.symm.trans he'))
            rfl
  rcases Relation.ReflTransGen.total_of_right_unique hright hs ht with h | h
  · exact hend h
  · exact (hend h).symm

theorem Performs.unique : ∀ {ops : List ι} {s x y : σ}, Performs M ops s x → Performs M ops s y →
    x = y
  | _, _, _, _, .nil, .nil => rfl
  | _, _, _, _, .cons h hs, .cons h' hs' => by
      obtain rfl := Executes.unique h h'
      exact hs.unique hs'

/-- A computed run performs its operations. -/
theorem drive_performs {n : Nat} : ∀ {ops : List ι} {s s' : σ}, drive M n ops s = some s' →
    Performs M ops s s'
  | [], s, s', h => by
      obtain rfl : s = s' := by simpa [drive] using h
      exact .nil
  | op :: ops, s, s', h => by
      rw [drive] at h
      split at h
      · rename_i s₁ he
        exact .cons (exhaust_executes .refl he) (drive_performs h)
      · simp at h

/-! ## Lockstep -/

variable [AddCommMonoid A]

/-- Every operation and every call is blind, and the hidden operations do
nothing but to what is blanked. -/
structure Machine.Blind (M : Machine ι σ κ ε) (E : Erasure σ A) (hidden : ι → Bool) : Prop where
  enter : ∀ op, E.Blind (M.enter op)
  exec : ∀ c, E.BlindOrFails (M.exec c)
  hidden : ∀ op, hidden op = true → ∀ s, E.Alike (M.enter op s).1 s ∧ (M.enter op s).2 = []

variable {E : Erasure σ A} {hidden : ι → Bool}

theorem Machine.Blind.executes (hM : M.Blind E hidden) {K K' : List κ} {s s' t : σ}
    (h : Executes M (fun _ => True) (K, s) (K', s')) (hst : E.Alike s t) :
    ∃ t', Executes M (fun _ => True) (K, t) (K', t') ∧ E.Alike s' t' := by
  refine Executes.invariant (P := fun y => ∃ t', Executes M (fun _ => True) (K, t) (y.1, t') ∧
    E.Alike y.2 t') h ⟨t, .refl, hst⟩ ?_
  rintro c L u u' ks - ⟨t', ht', hut⟩ he
  obtain ⟨t'', het, hut'⟩ := (hM.exec c).alike hut he
  exact ⟨t'', ht'.call trivial het, hut'⟩

/-- The hidden operations may be left out. -/
theorem Performs.visible (hM : M.Blind E hidden) : ∀ {ops : List ι} {s t x : σ},
    Performs M ops s x → E.Alike s t →
      ∃ y, Performs M (ops.filter fun op => !hidden op) t y ∧ E.Alike x y
  | _, _, t, _, .nil, hst => ⟨t, .nil, hst⟩
  | op :: ops, s, t, x, .cons h hs, hst => by
      cases hop : hidden op with
      | true =>
          obtain ⟨hstay, hnone⟩ := hM.hidden op hop s
          rw [hnone] at h
          obtain rfl := Executes.unique h .refl
          have hst₁ : E.Alike (M.enter op s).1 t := hstay.trans hst
          rw [List.filter_cons_of_neg (by simp [hop])]
          exact hs.visible hM hst₁
      | false =>
          obtain ⟨henter, hcalls⟩ := (hM.enter op).alike hst
          rw [hcalls] at h
          obtain ⟨t₁, ht, hst₁⟩ := hM.executes h henter
          obtain ⟨y, hy, hxy⟩ := hs.visible hM hst₁
          rw [List.filter_cons_of_pos (by simp [hop])]
          exact ⟨y, .cons ht hy, hxy⟩

/-- Hidden operations may be put in. -/
theorem Performs.hide (hM : M.Blind E hidden) : ∀ {ops : List ι} {s t x : σ},
    Performs M (ops.filter fun op => !hidden op) s x → E.Alike s t → ∃ y, Performs M ops t y
  | [], _, t, _, _, _ => ⟨t, .nil⟩
  | op :: ops, s, t, x, h, hst => by
      cases hop : hidden op with
      | true =>
          obtain ⟨hstay, hnone⟩ := hM.hidden op hop t
          rw [List.filter_cons_of_neg (by simp [hop])] at h
          obtain ⟨y, hy⟩ := h.hide hM (hst.trans hstay.symm)
          have hexec : Executes M (fun _ => True) ((M.enter op t).2, (M.enter op t).1)
              ([], (M.enter op t).1) := by
            rw [hnone]
            exact .refl
          exact ⟨y, .cons hexec hy⟩
      | false =>
          rw [List.filter_cons_of_pos (by simp [hop])] at h
          cases h with
          | cons h hs =>
              obtain ⟨henter, hcalls⟩ := (hM.enter op).alike hst
              rw [hcalls] at h
              obtain ⟨t₁, ht, hst₁⟩ := hM.executes h henter
              obtain ⟨y, hy⟩ := hs.hide hM hst₁
              exact ⟨y, .cons ht hy⟩

/-- **Lockstep.** Two runs that differ in hidden operations end alike. -/
theorem Performs.alike (hM : M.Blind E hidden) {ops₁ ops₂ : List ι} {s t x y : σ}
    (h₁ : Performs M ops₁ s x) (h₂ : Performs M ops₂ t y) (hst : E.Alike s t)
    (hops : ops₁.filter (fun op => !hidden op) = ops₂.filter fun op => !hidden op) :
    E.Alike x y := by
  obtain ⟨x', hx', hx⟩ := h₁.visible hM (Erasure.Alike.refl E s)
  obtain ⟨y', hy', hy⟩ := h₂.visible hM hst.symm
  rw [hops] at hx'
  obtain rfl := hx'.unique hy'
  exact hx.trans hy.symm

/-- One of the runs shows that the other exists. -/
theorem Performs.exists_alike (hM : M.Blind E hidden) {ops₁ ops₂ : List ι} {s t x : σ}
    (h : Performs M ops₁ s x) (hst : E.Alike s t)
    (hops : ops₁.filter (fun op => !hidden op) = ops₂.filter fun op => !hidden op) :
    ∃ y, Performs M ops₂ t y := by
  obtain ⟨x', hx', -⟩ := h.visible hM hst
  rw [hops] at hx'
  exact hx'.hide hM (Erasure.Alike.refl E t)

end Worklist
