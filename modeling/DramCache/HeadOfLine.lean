import Mathlib.Data.List.Count

/-!
# A queue whose head may be stuck

Clients send a server two kinds of things through one queue, first come
first served: an *ask*, which the server replies to, and the *follow-up* its
reply calls for. The server may refuse either kind for as long as it likes.
The clients that wait for a reply are few, but a client is done as soon as
its follow-up is in the queue, so their number does not bound the queue by
itself. The order does: behind a follow-up that is stuck no ask reaches the
server, and the follow-ups that come to stand there are those of clients
that had asked before it.

`Tame` says so in numbers. It makes allowance for replies beyond those that
are waited for (`surplus`) and for clients that skip their ask (`skips`).
`Tame.step` is the rule for one step, `Tame.length` the bound it gives.
-/

namespace HeadOfLine

variable {α : Type*}

section Lists

variable (follows : α → Bool)

def followUps (l : List α) : Nat := l.countP follows

def asks (l : List α) : Nat := l.countP fun a => !follows a

@[simp] theorem followUps_nil : followUps follows [] = 0 := rfl

@[simp] theorem asks_nil : asks follows [] = 0 := rfl

@[simp] theorem followUps_append (l₁ l₂ : List α) :
    followUps follows (l₁ ++ l₂) = followUps follows l₁ + followUps follows l₂ :=
  List.countP_append ..

@[simp] theorem asks_append (l₁ l₂ : List α) :
    asks follows (l₁ ++ l₂) = asks follows l₁ + asks follows l₂ := List.countP_append ..

theorem followUps_singleton (a : α) : followUps follows [a] = (follows a).toNat := by
  cases h : follows a <;> simp [followUps, h]

theorem asks_singleton (a : α) : asks follows [a] = (!follows a).toNat := by
  cases h : follows a <;> simp [asks, h]

theorem length_eq (l : List α) : l.length = asks follows l + followUps follows l := by
  induction l with
  | nil => rfl
  | cons a l ih =>
      rw [← List.singleton_append, asks_append, followUps_append, asks_singleton,
        followUps_singleton, List.length_append, ih]
      cases follows a <;> simp <;> omega

/-- The first follow-up, if there is one. -/
theorem first_followUp : ∀ l : List α, followUps follows l = 0 ∨
    ∃ l₁ a l₂, l = l₁ ++ a :: l₂ ∧ follows a = true ∧
      followUps follows l = 1 + followUps follows l₂
  | [] => .inl rfl
  | b :: l => by
      have hcons : followUps follows (b :: l) = (follows b).toNat + followUps follows l := by
        rw [← followUps_singleton, ← followUps_append, List.singleton_append]
      cases hb : follows b with
      | true => exact .inr ⟨[], b, l, rfl, hb, by rw [hcons, hb]; rfl⟩
      | false =>
          have hsame : followUps follows (b :: l) = followUps follows l := by
            rw [hcons, hb]
            exact Nat.zero_add _
          rcases first_followUp l with h0 | ⟨l₁, a, l₂, rfl, ha, hl⟩
          · exact .inl (hsame.trans h0)
          · exact .inr ⟨b :: l₁, a, l₂, rfl, ha, hsame.trans hl⟩

end Lists

/-- The traffic between the clients and the server. -/
structure Account (α : Type*) where
  queue : List α
  /-- Replies the server may still give to asks it has taken. -/
  serving : Nat
  /-- Replies the clients wait for. -/
  awaited : Nat
  /-- Follow-ups about to be handed over. -/
  staged : Nat
  /-- Replies so far beyond those waited for. -/
  surplus : Nat
  /-- Clients so far that began with their follow-up. -/
  skips : Nat

variable {follows : α → Bool} {x x' : Account α}

/-- One step: at most one thing is handed over, and the server takes what it
takes from the head. A reply ends a client's wait or is surplus, and a
follow-up comes of a reply or of a client that skipped its ask. -/
structure Account.Step (follows : α → Bool) (x x' : Account α) (handed taken : List α) :
    Prop where
  fifo : x.queue ++ handed = taken ++ x'.queue
  surplus : x.surplus ≤ x'.surplus
  skips : x.skips ≤ x'.skips
  one : handed.length ≤ 1
  awaited : asks follows handed + x'.serving + x.awaited + x.surplus
    ≤ x.serving + asks follows taken + x'.awaited + x'.surplus
  staged : followUps follows handed + x'.serving + x'.staged + x.surplus + x.skips
    ≤ x.serving + asks follows taken + x.staged + x'.surplus + x'.skips

/-- The asks in the queue and at the server are waited for, and behind a
follow-up stand those of the clients that came before it: but for `base`
replies, and for the surplus and the skips since `surplus₀` and `skips₀`.
`cap` bounds the clients. -/
structure Tame (follows : α → Bool) (base cap surplus₀ skips₀ : Nat) (x : Account α) : Prop where
  surplus : surplus₀ ≤ x.surplus
  skips : skips₀ ≤ x.skips
  asked : asks follows x.queue + x.serving + surplus₀ ≤ x.awaited + base + x.surplus
  behind : ∀ l₁ a l₂, x.queue = l₁ ++ a :: l₂ → follows a = true →
    followUps follows l₂ + asks follows l₁ + x.serving + x.staged + surplus₀ + skips₀
      ≤ cap + base + x.surplus + x.skips

namespace Tame

variable {base cap surplus₀ skips₀ : Nat}

/-- With nothing in the queue everything is tame. -/
theorem start (hqueue : x.queue = []) (hserving : x.serving ≤ base) :
    Tame follows base cap x.surplus x.skips x := by
  refine ⟨Nat.le_refl _, Nat.le_refl _, ?_, fun l₁ a l₂ hsplit _ => ?_⟩
  · rw [hqueue, asks_nil]
    omega
  · rw [hqueue] at hsplit
    simp at hsplit

/-- **The step rule.** -/
theorem step {handed taken : List α} (h : Tame follows base cap surplus₀ skips₀ x)
    (hstep : x.Step follows x' handed taken) (hcap : x'.awaited + x'.staged ≤ cap) :
    Tame follows base cap surplus₀ skips₀ x' := by
  have hsurplus := Nat.le_trans h.surplus hstep.surplus
  have hskips := Nat.le_trans h.skips hstep.skips
  have hasks := congrArg (asks follows) hstep.fifo
  rw [asks_append, asks_append] at hasks
  have hawaited := hstep.awaited
  have hstaged := hstep.staged
  have hasked := h.asked
  have hasked' : asks follows x'.queue + x'.serving + surplus₀
      ≤ x'.awaited + base + x'.surplus := by omega
  refine ⟨hsurplus, hskips, hasked', fun l₁ a l₂ hsplit ha => ?_⟩
  have hfifo := hstep.fifo
  rw [hsplit, ← List.append_assoc] at hfifo
  rcases List.append_eq_append_iff.mp hfifo with ⟨mid, hpre, hhanded⟩ | ⟨mid, hqueue, htail⟩
  · -- the follow-up is the one handed over, and nothing stands behind it
    have hlen := congrArg List.length hhanded
    have hone := hstep.one
    simp only [List.length_append, List.length_cons] at hlen
    obtain rfl : l₂ = [] := List.length_eq_zero_iff.mp (by omega)
    have hasks' := congrArg (asks follows) hsplit
    rw [asks_append] at hasks'
    rw [followUps_nil]
    omega
  · cases mid with
    | nil =>
        -- the same, with an empty rest of the queue
        have hlen := congrArg List.length htail
        have hone := hstep.one
        simp only [List.nil_append, List.length_cons] at hlen
        obtain rfl : l₂ = [] := List.length_eq_zero_iff.mp (by omega)
        have hasks' := congrArg (asks follows) hsplit
        rw [asks_append] at hasks'
        rw [followUps_nil]
        omega
    | cons b mid =>
        rw [List.cons_append] at htail
        obtain ⟨rfl, rfl⟩ := List.cons.inj htail
        have hbehind := h.behind (taken ++ l₁) a mid hqueue ha
        rw [asks_append] at hbehind
        rw [followUps_append]
        omega

/-- **The bound.** -/
theorem length (h : Tame follows base cap surplus₀ skips₀ x) :
    x.queue.length + 2 * surplus₀ + skips₀
      ≤ x.awaited + cap + 2 * base + 1 + 2 * x.surplus + x.skips := by
  have hsurplus := h.surplus
  have hskips := h.skips
  have hlen := length_eq follows x.queue
  have hasked := h.asked
  rcases first_followUp follows x.queue with h0 | ⟨l₁, a, l₂, hsplit, ha, hcount⟩
  · omega
  · have hbehind := h.behind l₁ a l₂ hsplit ha
    omega

end Tame

end HeadOfLine
