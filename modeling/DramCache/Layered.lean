import DramCache.Worklist

/-!
# A call machine under a client

A client has calls of its own, reads the state of the component below it,
enters the component's operations one at a time, and is called back while
the component runs. `Machine.under` is the machine the two make: an
operation the client asks for runs to its end before the client's next
call, and after each step of the component the client takes notice of it.

A callback that reaches no further than the client needs no call of its
own: it is what the client makes of the step. `layered_invariant` is the
invariant rule of the pair; it also says that a component does under a
client what it does by itself.
-/

namespace Worklist

/-- A client with operations `ι'`, states `τ`, calls `κ'`, faults `ε'` of its
calls and `ν` of its callbacks, of a component with operations `ι` and
states `σ`. A call may ask for one operation, which runs before the calls it
leaves. -/
structure Client (ι σ ι' τ κ' ε' ν : Type*) where
  enter : ι' → τ → τ × List κ'
  exec : κ' → τ → σ → Except ε' (τ × Option ι × List κ')
  /-- The step of the component, and the operation if it entered one. -/
  notice : Option ι → σ → σ → τ → Except ν τ

/-- The calls of the pair. -/
inductive Layer (ι κ κ' : Type*) where
  | own (c : κ')
  | serve (op : ι)
  | inner (c : κ)

/-- Where a fault of the pair comes from. -/
inductive LayerFault (ε ε' ν : Type*) where
  | own (e : ε')
  | notice (e : ν)
  | inner (e : ε)

variable {ι σ κ ε ι' τ κ' ε' ν : Type*} {M : Machine ι σ κ ε} {C : Client ι σ ι' τ κ' ε' ν}

/-- What a call of the client leaves to be done. -/
def Layer.after (op : Option ι) (ks : List κ') : List (Layer ι κ κ') :=
  op.toList.map .serve ++ ks.map .own

/-- The component under the client. -/
def Machine.under (M : Machine ι σ κ ε) (C : Client ι σ ι' τ κ' ε' ν) :
    Machine (ι' ⊕ ι) (τ × σ) (Layer ι κ κ') (LayerFault ε ε' ν) where
  enter
    | .inl op, (t, s) => (((C.enter op t).1, s), (C.enter op t).2.map .own)
    | .inr op, x => (x, [.serve op])
  exec
    | .own c, (t, s) =>
        match C.exec c t s with
        | .error e => .error (.own e)
        | .ok (t, op, ks) => .ok ((t, s), Layer.after op ks)
    | .serve op, (t, s) =>
        match C.notice (some op) s (M.enter op s).1 t with
        | .error e => .error (.notice e)
        | .ok t => .ok ((t, (M.enter op s).1), (M.enter op s).2.map .inner)
    | .inner c, (t, s) =>
        match M.exec c s with
        | .error e => .error (.inner e)
        | .ok (s', ks) =>
            match C.notice none s s' t with
            | .error e => .error (.notice e)
            | .ok t => .ok ((t, s'), ks.map .inner)

/-- The work list of the pair: the component's calls before the client's. -/
def Layer.work (I : List κ) (O : List κ') : List (Layer ι κ κ') := I.map .inner ++ O.map .own

theorem Layer.after_none (ks O : List κ') :
    (Layer.after none ks : List (Layer ι κ κ')) ++ O.map .own = Layer.work [] (ks ++ O) := by
  simp [Layer.after, Layer.work]

theorem Layer.after_some (op : ι) (ks O : List κ') :
    (Layer.after (some op) ks : List (Layer ι κ κ')) ++ O.map .own
      = .serve op :: (ks ++ O).map .own := by
  simp [Layer.after]

/-- What stands in a work list of the pair: calls with `P`, or an operation
that was asked for with `Q`. -/
def Holds (P : List κ → List κ' → τ → σ → Prop) (Q : ι → List κ' → τ → σ → Prop)
    (x : Config (τ × σ) (Layer ι κ κ')) : Prop :=
  (∃ I O, x.1 = Layer.work I O ∧ P I O x.2.1 x.2.2) ∨
    ∃ op O, x.1 = .serve op :: O.map .own ∧ Q op O x.2.1 x.2.2

section Rule

variable {allow : ι' ⊕ ι → Prop} {t₀ : τ} {s₀ : σ} {P : List κ → List κ' → τ → σ → Prop}
  {Q : ι → List κ' → τ → σ → Prop}

/-- One call of the pair: of the client, into the component, or of the
component. -/
theorem Holds.call {c : Layer ι κ κ'} {K ks : List (Layer ι κ κ')} {x x' : τ × σ}
    (h : Holds P Q (c :: K, x))
    (hOwn : ∀ c O t s t' ks, P [] (c :: O) t s → C.exec c t s = .ok (t', none, ks) →
      P [] (ks ++ O) t' s)
    (hAsk : ∀ c O t s t' op ks, P [] (c :: O) t s → C.exec c t s = .ok (t', some op, ks) →
      Q op (ks ++ O) t' s)
    (hServe : ∀ op O t t' s, Q op O t s → C.notice (some op) s (M.enter op s).1 t = .ok t' →
      P (M.enter op s).2 O t' (M.enter op s).1)
    (hInner : ∀ c I O t t' s s' ks, P (c :: I) O t s → M.exec c s = .ok (s', ks) →
      C.notice none s s' t = .ok t' → P (ks ++ I) O t' s')
    (he : (M.under C).exec c x = .ok (x', ks)) : Holds P Q (ks ++ K, x') := by
  obtain ⟨t, s⟩ := x
  rcases h with ⟨I, O, hK, hp⟩ | ⟨op, O, hK, hq⟩
  · cases I with
    | nil =>
        obtain ⟨c', O', rfl⟩ : ∃ c' O', O = c' :: O' := by
          cases O with
          | nil => cases hK
          | cons c' O' => exact ⟨c', O', rfl⟩
        obtain ⟨rfl, rfl⟩ := List.cons.inj hK
        simp only [Machine.under] at he
        cases hc : C.exec c' t s with
        | error e =>
            rw [hc] at he
            cases he
        | ok r =>
            obtain ⟨t', op, ks'⟩ := r
            rw [hc] at he
            cases he
            cases op with
            | none => exact .inl ⟨[], _, Layer.after_none .., hOwn c' O' t s t' ks' hp hc⟩
            | some op =>
                exact .inr ⟨op, _, Layer.after_some .., hAsk c' O' t s t' op ks' hp hc⟩
    | cons c' I =>
        obtain ⟨rfl, rfl⟩ := List.cons.inj hK
        simp only [Machine.under] at he
        cases hm : M.exec c' s with
        | error e =>
            rw [hm] at he
            cases he
        | ok r =>
            obtain ⟨s', ks'⟩ := r
            simp only [hm] at he
            cases hn : C.notice none s s' t with
            | error e =>
                rw [hn] at he
                cases he
            | ok t' =>
                rw [hn] at he
                cases he
                refine .inl ⟨ks' ++ I, O, ?_, hInner c' I O t t' s s' ks' hp hm hn⟩
                simp [Layer.work]
  · obtain ⟨rfl, rfl⟩ := List.cons.inj hK
    simp only [Machine.under] at he
    cases hn : C.notice (some op) s (M.enter op s).1 t with
    | error e =>
        rw [hn] at he
        cases he
    | ok t' =>
        rw [hn] at he
        cases he
        exact .inl ⟨_, O, rfl, hServe op O t t' s hq hn⟩

theorem Holds.boundary {x : τ × σ} (h : Holds P Q ([], x)) : P [] [] x.1 x.2 := by
  rcases h with ⟨I, O, hK, hp⟩ | ⟨op, O, hK, -⟩
  · obtain ⟨hI, hO⟩ := List.append_eq_nil_iff.mp hK.symm
    rw [List.map_eq_nil_iff.mp hI, List.map_eq_nil_iff.mp hO] at hp
    exact hp
  · cases hK

/-- Where the client takes notice of every step of the component, the pair
never fails on a callback. -/
theorem Holds.no_fault {c : Layer ι κ κ'} {K : List (Layer ι κ κ')} {x : τ × σ}
    (h : Holds P Q (c :: K, x))
    (hServe : ∀ op O t s, Q op O t s → ∃ t', C.notice (some op) s (M.enter op s).1 t = .ok t')
    (hInner : ∀ c I O t s s' ks, P (c :: I) O t s → M.exec c s = .ok (s', ks) →
      ∃ t', C.notice none s s' t = .ok t') (e : ν) :
    (M.under C).exec c x ≠ .error (.notice e) := by
  obtain ⟨t, s⟩ := x
  intro he
  rcases h with ⟨I, O, hK, hp⟩ | ⟨op, O, hK, hq⟩
  · cases I with
    | nil =>
        cases O with
        | nil => cases hK
        | cons c' O =>
            obtain ⟨rfl, rfl⟩ := List.cons.inj hK
            simp only [Machine.under] at he
            split at he <;> cases he
    | cons c' I =>
        obtain ⟨rfl, rfl⟩ := List.cons.inj hK
        simp only [Machine.under] at he
        split at he
        · cases he
        · rename_i s' ks hm
          obtain ⟨t', ht⟩ := hInner c' I O t s s' ks hp hm
          rw [ht] at he
          cases he
  · obtain ⟨rfl, rfl⟩ := List.cons.inj hK
    obtain ⟨t', ht⟩ := hServe op O t s hq
    simp only [Machine.under] at he
    rw [ht] at he
    cases he

/-- **The invariant rule of the pair.** `P` is about the calls of the two,
`Q` about an operation that was asked for; the component's side of either is
a configuration it reaches by itself. -/
theorem layered_invariant (h0 : P [] [] t₀ s₀)
    (hEnter : ∀ op t s, allow (.inl op) → P [] [] t s → P [] (C.enter op t).2 (C.enter op t).1 s)
    (hRequest : ∀ op t s, allow (.inr op) → P [] [] t s → Q op [] t s)
    (hOwn : ∀ c O t s t' ks, P [] (c :: O) t s → C.exec c t s = .ok (t', none, ks) →
      P [] (ks ++ O) t' s)
    (hAsk : ∀ c O t s t' op ks, P [] (c :: O) t s → C.exec c t s = .ok (t', some op, ks) →
      Q op (ks ++ O) t' s)
    (hServe : ∀ op O t t' s, Reaches M (fun _ => True) s₀ ([], s) → Q op O t s →
      C.notice (some op) s (M.enter op s).1 t = .ok t' → P (M.enter op s).2 O t' (M.enter op s).1)
    (hInner : ∀ c I O t t' s s' ks, Reaches M (fun _ => True) s₀ (c :: I, s) → P (c :: I) O t s →
      M.exec c s = .ok (s', ks) → C.notice none s s' t = .ok t' → P (ks ++ I) O t' s')
    {x : Config (τ × σ) (Layer ι κ κ')} (h : Reaches (M.under C) allow (t₀, s₀) x) :
    Holds (fun I O t s => Reaches M (fun _ => True) s₀ (I, s) ∧ P I O t s)
      (fun op O t s => Reaches M (fun _ => True) s₀ ([], s) ∧ Q op O t s) x := by
  refine ReachesIf.invariant (P := Holds _ _) (.inl ⟨[], [], rfl, .refl, h0⟩) ?_ ?_ h
  · rintro (op | op) ⟨t, s⟩ ha - - hp
    · exact .inl ⟨[], _, rfl, hp.boundary.1, hEnter op t s ha hp.boundary.2⟩
    · exact .inr ⟨op, [], rfl, hp.boundary.1, hRequest op t s ha hp.boundary.2⟩
  · rintro c K x x' ks - - hp he
    refine hp.call (fun c O t s t' ks hr hc => ⟨hr.1, hOwn c O t s t' ks hr.2 hc⟩)
      (fun c O t s t' op ks hr hc => ⟨hr.1, hAsk c O t s t' op ks hr.2 hc⟩)
      (fun op O t t' s hr hn => ⟨?_, hServe op O t t' s hr.1 hr.2 hn⟩)
      (fun c I O t t' s s' ks hr hm hn => ⟨?_, hInner c I O t t' s s' ks hr.1 hr.2 hm hn⟩) he
    · exact ReachesIf.enter hr.1 trivial trivial
    · exact ReachesIf.call hr.1 trivial hm

end Rule

end Worklist
