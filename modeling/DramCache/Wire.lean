import Mathlib.Algebra.Group.Nat.Defs
import Mathlib.Data.List.Basic
import Mathlib.Data.List.Forall2
import Mathlib.Data.Nat.Init

/-!
# Reading byte strings

A reader takes a value off the front of a byte string, or stops. What it
accepts is one relation between the bytes it takes and the value
(`Accepts`), so that a reader is known in both directions at once: it reads
back what was written, and it reads nothing else. The rules follow the way a
reader is written; `readAll` is the loop that reads values up to the end of a
file.
-/

namespace Wire

/-- Takes a value off the front of the bytes, or stops with a reason. -/
abbrev Reader (ε α : Type) := StateT (List UInt8) (Except ε) α

variable {ε α β : Type}

/-- The reader takes exactly the prefixes that stand for the value. -/
def Accepts (m : Reader ε α) (R : List UInt8 → α → Prop) : Prop :=
  ∀ bs a rest, m.run bs = .ok (a, rest) ↔ ∃ p, R p a ∧ bs = p ++ rest

/-! ## The rules -/

section Rules

variable {m : Reader ε α} {k : α → Reader ε β} {R R' : List UInt8 → α → Prop}
  {S : α → List UInt8 → β → Prop}

theorem Accepts.congr (h : Accepts m R) (hR : ∀ p a, R p a ↔ R' p a) : Accepts m R' := by
  intro bs a rest
  rw [h bs a rest]
  exact exists_congr fun p => and_congr_left' (hR p a)

theorem Accepts.pure (a : α) : Accepts (pure a : Reader ε α) fun p b => p = [] ∧ b = a := by
  intro bs b rest
  constructor
  · intro h
    obtain ⟨rfl, rfl⟩ := Prod.mk.inj (Except.ok.inj h)
    exact ⟨[], ⟨rfl, rfl⟩, rfl⟩
  · rintro ⟨p, ⟨rfl, rfl⟩, rfl⟩
    rfl

theorem Accepts.throw (e : ε) : Accepts (throw e : Reader ε α) fun _ _ => False := by
  intro bs a rest
  constructor
  · intro h
    cases h
  · rintro ⟨p, h, -⟩
    exact h.elim

theorem Accepts.ite {c : Prop} [Decidable c] {m' : Reader ε α} (h : c → Accepts m R)
    (h' : ¬ c → Accepts m' R) : Accepts (if c then m else m') R := by
  split
  · rename_i hc
    exact h hc
  · rename_i hc
    exact h' hc

theorem run_bind_eq_ok {bs rest : List UInt8} {b : β} :
    (m >>= k).run bs = .ok (b, rest) ↔
      ∃ a mid, m.run bs = .ok (a, mid) ∧ (k a).run mid = .ok (b, rest) := by
  rw [StateT.run_bind]
  cases hm : m.run bs with
  | error e =>
      constructor
      · intro h
        cases h
      · rintro ⟨a, mid, h, -⟩
        cases h
  | ok q =>
      constructor
      · intro h
        exact ⟨q.1, q.2, rfl, h⟩
      · rintro ⟨a, mid, h, hk⟩
        obtain rfl := Except.ok.inj h
        exact hk

/-- One reader after the other. -/
theorem Accepts.bind (hm : Accepts m R) (hk : ∀ a, Accepts (k a) (S a)) :
    Accepts (m >>= k) fun p b => ∃ p₁ a p₂, R p₁ a ∧ S a p₂ b ∧ p = p₁ ++ p₂ := by
  intro bs b rest
  rw [run_bind_eq_ok]
  constructor
  · rintro ⟨a, mid, ha, hb⟩
    obtain ⟨p₁, hp₁, rfl⟩ := (hm bs a mid).mp ha
    obtain ⟨p₂, hp₂, rfl⟩ := (hk a mid b rest).mp hb
    exact ⟨p₁ ++ p₂, ⟨p₁, a, p₂, hp₁, hp₂, rfl⟩, (List.append_assoc ..).symm⟩
  · rintro ⟨p, ⟨p₁, a, p₂, hp₁, hp₂, rfl⟩, rfl⟩
    refine ⟨a, p₂ ++ rest, (hm _ _ _).mpr ⟨p₁, hp₁, ?_⟩, (hk _ _ _ _).mpr ⟨p₂, hp₂, rfl⟩⟩
    rw [List.append_assoc]

theorem run_bind_eq_error {bs : List UInt8} {e : ε} :
    (m >>= k).run bs = .error e ↔ m.run bs = .error e ∨
      ∃ a mid, m.run bs = .ok (a, mid) ∧ (k a).run mid = .error e := by
  rw [StateT.run_bind]
  cases hm : m.run bs with
  | error e' =>
      constructor
      · intro h
        exact .inl (congrArg Except.error (Except.error.inj h))
      · rintro (h | ⟨a, mid, h, -⟩)
        · exact congrArg Except.error (Except.error.inj h)
        · cases h
  | ok q =>
      constructor
      · intro h
        exact .inr ⟨q.1, q.2, rfl, h⟩
      · rintro (h | ⟨a, mid, h, hk⟩)
        · cases h
        · obtain rfl := Except.ok.inj h
          exact hk

/-- The reader stops for this reason only. -/
def StopsWith (m : Reader ε α) (e : ε) : Prop := ∀ bs e', m.run bs = .error e' → e' = e

theorem StopsWith.pure (a : α) (e : ε) : StopsWith (pure a : Reader ε α) e := by
  intro bs e' h
  cases h

theorem StopsWith.throw (e : ε) : StopsWith (throw e : Reader ε α) e := by
  intro bs e' h
  exact (Except.error.inj h).symm

theorem StopsWith.ite {c : Prop} [Decidable c] {m' : Reader ε α} {e : ε} (h : StopsWith m e)
    (h' : StopsWith m' e) : StopsWith (if c then m else m') e := by
  split
  · exact h
  · exact h'

theorem StopsWith.bind {e : ε} (hm : StopsWith m e) (hk : ∀ a, StopsWith (k a) e) :
    StopsWith (m >>= k) e := by
  intro bs e' h
  rcases run_bind_eq_error.mp h with h | ⟨a, mid, -, h⟩
  · exact hm bs e' h
  · exact hk a mid e' h

end Rules

/-! ## Bytes and little-endian words -/

/-- One byte; `e` says that there is none. -/
def byte (e : ε) : Reader ε UInt8 := fun bs =>
  match bs with
  | [] => .error e
  | b :: rest => .ok (b, rest)

theorem byte_accepts (e : ε) : Accepts (byte e) fun p b => p = [b] := by
  intro bs b rest
  cases bs with
  | nil =>
      constructor
      · intro h
        cases h
      · rintro ⟨p, rfl, h⟩
        cases h
  | cons b' bs =>
      constructor
      · intro h
        obtain ⟨rfl, rfl⟩ := Prod.mk.inj (Except.ok.inj h)
        exact ⟨_, rfl, rfl⟩
      · rintro ⟨p, rfl, h⟩
        obtain ⟨rfl, rfl⟩ := List.cons.inj h
        rfl

theorem byte_stops (e : ε) : StopsWith (byte e) e := by
  intro bs e' h
  cases bs with
  | nil => exact (Except.error.inj h).symm
  | cons b bs => cases h

/-- The number that bytes spell, least significant byte first. -/
def ofBytes : List UInt8 → Nat
  | [] => 0
  | b :: bs => b.toNat + 256 * ofBytes bs

def toBytes : Nat → Nat → List UInt8
  | 0, _ => []
  | size + 1, n => UInt8.ofNat n :: toBytes size (n / 256)

theorem length_toBytes (size n : Nat) : (toBytes size n).length = size := by
  induction size generalizing n with
  | zero => rfl
  | succ size ih => rw [toBytes, List.length_cons, ih]

theorem ofBytes_toBytes {size n : Nat} (h : n < 256 ^ size) : ofBytes (toBytes size n) = n := by
  induction size generalizing n with
  | zero =>
      rw [Nat.pow_zero, Nat.lt_one_iff] at h
      rw [h]
      rfl
  | succ size ih =>
      have hdiv : n / 256 < 256 ^ size := Nat.div_lt_of_lt_mul (by rwa [← Nat.pow_succ'])
      rw [toBytes, ofBytes, ih hdiv, UInt8.toNat_ofNat']
      exact Nat.mod_add_div n 256

theorem ofBytes_lt (bs : List UInt8) : ofBytes bs < 256 ^ bs.length := by
  induction bs with
  | nil => exact Nat.one_pos
  | cons b bs ih =>
      have hb : b.toNat < 256 := b.toNat_lt
      rw [ofBytes, List.length_cons, Nat.pow_succ']
      omega

theorem toBytes_ofBytes (bs : List UInt8) : toBytes bs.length (ofBytes bs) = bs := by
  induction bs with
  | nil => rfl
  | cons b bs ih =>
      have hb : b.toNat < 256 := b.toNat_lt
      have hdiv : (b.toNat + 256 * ofBytes bs) / 256 = ofBytes bs := by omega
      have hmod : UInt8.ofNat (b.toNat + 256 * ofBytes bs) = b := by
        apply UInt8.toNat.inj
        rw [UInt8.toNat_ofNat']
        omega
      rw [ofBytes, List.length_cons, toBytes, hdiv, ih, hmod]

/-- A number of `size` bytes, all of which have to be there. -/
def word (e : ε) (size : Nat) : Reader ε Nat := fun bs =>
  if size ≤ bs.length then .ok (ofBytes (bs.take size), bs.drop size) else .error e

theorem word_accepts (e : ε) (size : Nat) :
    Accepts (word e size) fun p n => n < 256 ^ size ∧ p = toBytes size n := by
  intro bs n rest
  change (if size ≤ bs.length then Except.ok (ofBytes (bs.take size), bs.drop size)
    else .error e) = _ ↔ _
  constructor
  · intro h
    split at h
    · rename_i hlen
      obtain ⟨rfl, rfl⟩ := Prod.mk.inj (Except.ok.inj h)
      have htake : (bs.take size).length = size := List.length_take_of_le hlen
      refine ⟨bs.take size, ⟨?_, ?_⟩, (List.take_append_drop size bs).symm⟩
      · have hlt := ofBytes_lt (bs.take size)
        rwa [htake] at hlt
      · have hback := toBytes_ofBytes (bs.take size)
        rw [htake] at hback
        exact hback.symm
    · cases h
  · rintro ⟨p, ⟨hn, rfl⟩, rfl⟩
    have hlen := length_toBytes size n
    rw [if_pos (by rw [List.length_append, hlen]; exact Nat.le_add_right _ _),
      List.take_left' hlen, List.drop_left' hlen, ofBytes_toBytes hn]

/-- A word stops the reader when there are not enough bytes, and then only. -/
theorem word_error {e : ε} {size : Nat} {bs : List UInt8} {e' : ε} :
    (word e size).run bs = .error e' ↔ bs.length < size ∧ e' = e := by
  change (if size ≤ bs.length then Except.ok (ofBytes (bs.take size), bs.drop size)
    else .error e) = _ ↔ _
  split
  · rename_i h
    constructor
    · intro h'
      cases h'
    · intro h'
      exact absurd h'.1 (Nat.not_lt.mpr h)
  · rename_i h
    exact ⟨fun h' => ⟨Nat.not_le.mp h, (Except.error.inj h').symm⟩, fun h' => by rw [h'.2]⟩

theorem word_stops (e : ε) (size : Nat) : StopsWith (word e size) e := fun _ _ h =>
  (word_error.mp h).2

/-- A 64-bit word. -/
def word64 (e : ε) : Reader ε UInt64 := do
  let n ← word e 8
  pure (UInt64.ofNat n)

theorem word64_accepts (e : ε) : Accepts (word64 e) fun p n => p = toBytes 8 n.toNat := by
  refine ((word_accepts e 8).bind fun n => Accepts.pure (UInt64.ofNat n)).congr fun p w => ?_
  constructor
  · rintro ⟨_, n, _, ⟨hn, rfl⟩, ⟨rfl, rfl⟩, rfl⟩
    have hn' : n < 2 ^ 64 := Nat.lt_of_lt_of_eq hn rfl
    rw [List.append_nil, UInt64.toNat_ofNat', Nat.mod_eq_of_lt hn']
  · rintro rfl
    exact ⟨_, w.toNat, [], ⟨w.toNat_lt, rfl⟩, ⟨rfl, UInt64.ofNat_toNat.symm⟩,
      (List.append_nil _).symm⟩

theorem word64_stops (e : ε) : StopsWith (word64 e) e :=
  (word_stops e 8).bind fun _ => .pure _ _

theorem word64_error {e e' : ε} {bs : List UInt8} :
    (word64 e).run bs = .error e' ↔ bs.length < 8 ∧ e' = e := by
  rw [word64, run_bind_eq_error, word_error]
  constructor
  · rintro (h | ⟨a, mid, -, h⟩)
    · exact h
    · cases h
  · exact .inl

/-! ## Sequences -/

/-- One reader for each element of a list. -/
def each (m : β → Reader ε α) : List β → Reader ε (List α)
  | [] => pure []
  | x :: xs => do
      let a ← m x
      let as ← each m xs
      pure (a :: as)

theorem each_accepts {m : β → Reader ε α} {V : β → α → Prop} {w : β → α → List UInt8}
    (h : ∀ x, Accepts (m x) fun p a => V x a ∧ p = w x a) (xs : List β) :
    Accepts (each m xs) fun p as => List.Forall₂ V xs as ∧ p = (List.zipWith w xs as).flatten := by
  induction xs with
  | nil =>
      refine (Accepts.pure []).congr fun p as => ?_
      constructor
      · rintro ⟨rfl, rfl⟩
        exact ⟨.nil, rfl⟩
      · rintro ⟨hall, rfl⟩
        cases hall
        exact ⟨rfl, rfl⟩
  | cons x xs ih =>
      refine ((h x).bind fun a => ih.bind fun as => Accepts.pure (a :: as)).congr fun p bs => ?_
      constructor
      · rintro ⟨_, a, _, ⟨ha, rfl⟩, ⟨_, as, _, ⟨has, rfl⟩, ⟨rfl, rfl⟩, rfl⟩, rfl⟩
        refine ⟨.cons ha has, ?_⟩
        rw [List.append_nil]
        rfl
      · rintro ⟨hall, rfl⟩
        cases hall with
        | cons ha has =>
            refine ⟨_, _, _, ⟨ha, rfl⟩, ⟨_, _, [], ⟨has, rfl⟩, ⟨rfl, rfl⟩, rfl⟩, ?_⟩
            rw [List.append_nil]
            rfl

theorem each_stops {m : β → Reader ε α} {e : ε} (h : ∀ x, StopsWith (m x) e) (xs : List β) :
    StopsWith (each m xs) e := by
  induction xs with
  | nil => exact .pure _ _
  | cons x xs ih => exact (h x).bind fun _ => ih.bind fun _ => .pure _ _

/-- As many bytes as asked for. -/
def bytes (e : ε) (count : Nat) : Reader ε (List UInt8) :=
  each (fun _ => byte e) (List.replicate count ())

theorem bytes_accepts (e : ε) (count : Nat) :
    Accepts (bytes e count) fun p bs => bs.length = count ∧ p = bs := by
  have h := each_accepts (V := fun _ _ => True) (w := fun (_ : Unit) b => [b])
    (fun _ => (byte_accepts e).congr fun p b => (iff_of_eq (true_and (p = [b]))).symm)
    (List.replicate count ())
  have hparts : ∀ bs : List UInt8, bs.length = count →
      (List.zipWith (fun (_ : Unit) b => [b]) (List.replicate count ()) bs).flatten = bs := by
    rintro bs rfl
    clear h
    induction bs with
    | nil => rfl
    | cons b bs ih =>
        rw [List.length_cons, List.replicate_succ, List.zipWith_cons_cons, List.flatten_cons, ih]
        rfl
  refine h.congr fun p bs => ?_
  constructor
  · rintro ⟨hall, rfl⟩
    have hlen : bs.length = count := by
      rw [← hall.length_eq, List.length_replicate]
    exact ⟨hlen, hparts bs hlen⟩
  · rintro ⟨hlen, rfl⟩
    refine ⟨List.forall₂_iff_get.mpr ⟨?_, fun _ _ _ => trivial⟩, (hparts p hlen).symm⟩
    rw [List.length_replicate, hlen]

/-! ## Up to the end of a file -/

/-- Reads values for as long as it can. The reason `last` ends the loop, any
other one is a failure; the fuel bounds the number of values. -/
def readAll [DecidableEq ε] (m : Reader ε α) (last : ε) :
    Nat → List UInt8 → Except ε (List α)
  | 0, _ => .error last
  | fuel + 1, bs =>
      match m.run bs with
      | .ok (a, rest) => (readAll m last fuel rest).map (a :: ·)
      | .error e => if e = last then .ok [] else .error e

/-- The reader advances. -/
theorem Accepts.shorter {m : Reader ε α} {V : α → Prop} {w : α → List UInt8}
    (h : Accepts m fun p a => V a ∧ p = w a) (hw : ∀ a, w a ≠ []) {bs rest : List UInt8} {a : α}
    (hrun : m.run bs = .ok (a, rest)) : rest.length < bs.length := by
  obtain ⟨p, ⟨-, rfl⟩, rfl⟩ := (h bs a rest).mp hrun
  have hpos := List.length_pos_iff.mpr (hw a)
  rw [List.length_append]
  omega

/-- The end of the file is no failure. -/
theorem readAll_ne_last [DecidableEq ε] {m : Reader ε α} {last : ε} {V : α → Prop}
    {w : α → List UInt8} (h : Accepts m fun p a => V a ∧ p = w a) (hw : ∀ a, w a ≠ [])
    {fuel : Nat} {bs : List UInt8} (hfuel : bs.length < fuel) :
    readAll m last fuel bs ≠ .error last := by
  induction fuel generalizing bs with
  | zero => exact absurd hfuel (Nat.not_lt_zero _)
  | succ fuel ih =>
      rw [readAll]
      cases hrun : m.run bs with
      | error e =>
          dsimp only
          split
          · nofun
          · rename_i he
            exact fun h => he (Except.error.inj h)
      | ok q =>
          obtain ⟨a, rest⟩ := q
          have hrest := ih (Nat.lt_of_lt_of_le (h.shorter hw hrun) (Nat.le_of_lt_succ hfuel))
          dsimp only
          cases hall : readAll m last fuel rest with
          | error e =>
              rw [hall] at hrest
              exact fun h => hrest (congrArg _ (Except.error.inj h))
          | ok as => nofun

/-- **What is read to the end of a file**: the values whose bytes it holds one
after the other, with a rest behind them that the reader ends at. -/
theorem readAll_eq_ok [DecidableEq ε] {m : Reader ε α} {last : ε} {V : α → Prop}
    {w : α → List UInt8} (h : Accepts m fun p a => V a ∧ p = w a) (hw : ∀ a, w a ≠ [])
    {fuel : Nat} {bs : List UInt8} (hfuel : bs.length < fuel) (as : List α) :
    readAll m last fuel bs = .ok as ↔
      ∃ rest, bs = as.flatMap w ++ rest ∧ (∀ a ∈ as, V a) ∧ m.run rest = .error last := by
  induction fuel generalizing bs as with
  | zero => exact absurd hfuel (Nat.not_lt_zero _)
  | succ fuel ih =>
      rw [readAll]
      cases hrun : m.run bs with
      | error e =>
          dsimp only
          constructor
          · intro hok
            by_cases he : e = last
            · rw [if_pos he] at hok
              obtain rfl := Except.ok.inj hok
              exact ⟨bs, rfl, List.forall_mem_nil _, he ▸ hrun⟩
            · rw [if_neg he] at hok
              cases hok
          · rintro ⟨rest, rfl, hV, hend⟩
            cases as with
            | nil =>
                rw [List.flatMap_nil, List.nil_append, hend] at hrun
                rw [if_pos (Except.error.inj hrun).symm]
            | cons a as =>
                -- the first value can be read
                have hread := (h _ a (as.flatMap w ++ rest)).mpr
                  ⟨w a, ⟨hV a (List.mem_cons_self ..), rfl⟩, rfl⟩
                rw [List.flatMap_cons, List.append_assoc, hread] at hrun
                cases hrun
      | ok q =>
          obtain ⟨a, rest⟩ := q
          dsimp only
          obtain ⟨p, ⟨hVa, rfl⟩, rfl⟩ := (h bs a rest).mp hrun
          have hrest : rest.length < fuel :=
            Nat.lt_of_lt_of_le (h.shorter hw hrun) (Nat.le_of_lt_succ hfuel)
          constructor
          · intro hok
            cases hall : readAll m last fuel rest with
            | error e =>
                rw [hall] at hok
                cases hok
            | ok as' =>
                rw [hall] at hok
                obtain rfl := Except.ok.inj hok
                obtain ⟨rest', rfl, hV, hend⟩ := (ih hrest as').mp hall
                refine ⟨rest', ?_, List.forall_mem_cons.mpr ⟨hVa, hV⟩, hend⟩
                rw [List.flatMap_cons, List.append_assoc]
          · rintro ⟨rest', hbs, hV, hend⟩
            cases as with
            | nil =>
                rw [List.flatMap_nil, List.nil_append] at hbs
                rw [hbs, hend] at hrun
                cases hrun
            | cons a' as =>
                have hread := (h _ a' (as.flatMap w ++ rest')).mpr
                  ⟨w a', ⟨hV a' (List.mem_cons_self ..), rfl⟩, rfl⟩
                rw [hbs, List.flatMap_cons, List.append_assoc, hread] at hrun
                obtain ⟨rfl, rfl⟩ := Prod.mk.inj (Except.ok.inj hrun)
                rw [(ih hrest as).mpr
                  ⟨rest', rfl, fun b hb => hV b (List.mem_cons_of_mem _ hb), hend⟩]
                rfl

end Wire
