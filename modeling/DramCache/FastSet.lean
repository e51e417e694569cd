import Mathlib.Algebra.GroupWithZero.Nat
import Mathlib.Data.Finset.Card
import Mathlib.Data.Finset.Lattice.Basic
import Mathlib.Data.List.Range

/-!
# `fastset`

The sets of reorder-buffer, load-queue and store-queue indices that an MSHR
entry carries, `inc/set.h`. A small set is a sorted array and a larger one an
array of bits in the same memory; which of the two it is only `card` tells,
the cardinality of a small set and `SMALL_SIZE` for ever after.

The union is a 512-bit memory here, little-endian as the words and the values
overlap on the machines the simulator is for. The constructor leaves it as it
finds it. Elements are below `MAX_SIZE`, as the source's assertions on `x`
have it.
-/

namespace DramCache

def fastsetMaxSize : Nat := 512

def smallSize : Nat := 13

def smallerSize : Nat := 6

structure Fastset where
  data : BitVec 512
  card : Nat
deriving DecidableEq

namespace Fastset

/-! ## The memory of the union -/

/-- A field of `w` bits from bit `lo` on is written. -/
def setField (d : BitVec 512) (lo : Nat) {w : Nat} (v : BitVec w) : BitVec 512 :=
  d &&& ~~~((BitVec.allOnes w).setWidth 512 <<< lo) ||| v.setWidth 512 <<< lo

/-- `data.values[i]`. -/
def value (d : BitVec 512) (i : Nat) : Nat := (d.extractLsb' (16 * i) 16).toNat

/-- `data.values[i] = x`. -/
def setValue (d : BitVec 512) (i x : Nat) : BitVec 512 := setField d (16 * i) (BitVec.ofNat 16 x)

/-- `data.bits[i]`. -/
def word (d : BitVec 512) (i : Nat) : BitVec 64 := d.extractLsb' (64 * i) 64

/-- `data.bits[i] = v`. -/
def setWord (d : BitVec 512) (i : Nat) (v : BitVec 64) : BitVec 512 := setField d (64 * i) v

def setbit (d : BitVec 512) (x : Nat) : BitVec 512 :=
  setWord d (x >>> 6) (word d (x >>> 6) ||| 1#64 <<< (x &&& 63))

def getbit (d : BitVec 512) (x : Nat) : Bool :=
  word d (x >>> 6) >>> (x &&& 63) &&& 1#64 != 0#64

/-! ## The functions -/

/-- The first loop of `insert_small`, with `left` values still to be looked at
from `i` on: where `x` belongs, or `none` when it is there already. -/
def insertionPoint (d : BitVec 512) (x : Nat) : Nat → Nat → Option Nat
  | 0, i => some i
  | left + 1, i =>
      if value d i = x then none
      else if value d i > x then some i
      else insertionPoint d x left (i + 1)

/-- The second loop of `insert_small`: values `i` to `card - 1` move up. -/
def shiftUp (d : BitVec 512) (i card : Nat) : BitVec 512 :=
  (List.range' i (card - i)).reverse.foldl (fun d j => setValue d (j + 1) (value d j)) d

def insertSmall (s : Fastset) (x : Nat) : Fastset :=
  match insertionPoint s.data x s.card 0 with
  | none => s
  | some i => { data := setValue (shiftUp s.data i s.card) i x, card := s.card + 1 }

/-- `search_small_linear`, with `left` values still to be looked at. -/
def searchSmallLinear (d : BitVec 512) (x : Nat) : Nat → Nat → Bool
  | 0, _ => false
  | left + 1, i =>
      if value d i > x then false
      else if value d i = x then true
      else searchSmallLinear d x left (i + 1)

/-- The binary search of `search_small`; `none` is one that has not come to an
end. What is halved is not negative. -/
def binarySearch (d : BitVec 512) (x : Nat) : Nat → Int → Int → Int → Option Bool
  | 0, _, _, _ => none
  | fuel + 1, first, last, middle =>
      let y := value d middle.toNat
      if x < y then
        if middle - 1 < first then some false
        else binarySearch d x fuel first (middle - 1) ((first + (middle - 1)) / 2)
      else if x > y then
        if last < middle + 1 then some false
        else binarySearch d x fuel (middle + 1) last ((middle + 1 + last) / 2)
      else some true

def searchSmall (s : Fastset) (x : Nat) : Option Bool :=
  if s.card = 0 then some false
  else if s.card < smallerSize then some (searchSmallLinear s.data x s.card 0)
  else binarySearch s.data x s.card 0 (s.card - 1) ((s.card - 1 : Int) / 2)

/-- `smalltobit`; the values are read before the memory is cleared. -/
def smalltobit (d : BitVec 512) (card : Nat) : BitVec 512 :=
  ((List.range card).map (value d)).foldl setbit 0#512

/-- The constructor. -/
def new (memory : BitVec 512) : Fastset := { data := memory, card := 0 }

def insert (s : Fastset) (x : Nat) : Fastset :=
  if s.card = 0 then { data := setValue s.data 0 x, card := 1 }
  else if s.card < smallSize then
    let s := s.insertSmall x
    if s.card = smallSize then { s with data := smalltobit s.data s.card } else s
  else { s with data := setbit s.data x }

def search (s : Fastset) (x : Nat) : Option Bool :=
  if s.card = 0 then some false
  else if s.card = 1 then some (decide (value s.data 0 = x))
  else if s.card < smallSize then s.searchSmall x
  else some (getbit s.data x)

/-- The last loop of `join`. -/
def orWords (d other : BitVec 512) (lim : Nat) : BitVec 512 :=
  (List.range lim).foldl (fun d i => setWord d i (word d i ||| word other i)) d

def join (s other : Fastset) (n : Nat) : Fastset :=
  if other.card = 0 then s
  else if other.card < smallSize then
    ((List.range other.card).map (value other.data)).foldl insert s
  else
    let s := if s.card < smallSize then ⟨smalltobit s.data s.card, smallSize⟩ else s
    { s with data := orWords s.data other.data (((n ||| 63) + 1) / 64) }

/-- `expand`: what it returns, and what it has written to `v` from `v[0]` on. -/
def expand (s : Fastset) (n : Nat) : Nat × List Nat :=
  if s.card = 0 then (0, [])
  else if s.card < smallSize then (s.card, (List.range s.card).map (value s.data))
  else
    let v := (List.range ((n + 63) / 64)).flatMap fun i =>
      if word s.data i ≠ 0 then
        (((List.range 64).map (64 * i + ·)).takeWhile (· < n)).filter (getbit s.data)
      else []
    (v.length, v)

/-! ## Reading what has been written -/

section Memory

variable {d : BitVec 512} {i j x : Nat}

theorem getLsbD_setField {w : Nat} (d : BitVec 512) (lo : Nat) (v : BitVec w) (j : Nat) :
    (setField d lo v).getLsbD j =
      if j < 512 ∧ lo ≤ j ∧ j < lo + w then v.getLsbD (j - lo) else d.getLsbD j := by
  unfold setField
  by_cases hj : j < 512
  · by_cases hlo : lo ≤ j
    · have hlo' : ¬ j < lo := not_lt.mpr hlo
      by_cases hhi : j < lo + w
      · have hw : j - lo < w := by omega
        simp [hj, hlo, hlo', hhi, hw]
      · have hw : ¬ j - lo < w := by omega
        have hv : v.getLsbD (j - lo) = false := BitVec.getLsbD_of_ge v _ (not_lt.mp hw)
        simp [hj, hlo, hhi, hw, hv]
    · have hlo' : j < lo := not_le.mp hlo
      simp [hj, hlo, hlo']
  · have hd : d.getLsbD j = false := BitVec.getLsbD_of_ge d _ (not_lt.mp hj)
    simp [hj, hd]

theorem value_lt (d : BitVec 512) (i : Nat) : value d i < 2 ^ 16 := BitVec.isLt _

theorem value_setValue_self (hi : i < smallSize) (hx : x < 2 ^ 16) :
    value (setValue d i x) i = x := by
  have hfield : (setValue d i x).extractLsb' (16 * i) 16 = BitVec.ofNat 16 x := by
    refine BitVec.eq_of_getLsbD_eq fun k hk => ?_
    unfold smallSize at hi
    rw [BitVec.getLsbD_extractLsb', setValue, getLsbD_setField, if_pos (by omega)]
    simp [hk]
  rw [value, hfield, BitVec.toNat_ofNat, Nat.mod_eq_of_lt hx]

theorem value_setValue_ne (hij : i ≠ j) : value (setValue d i x) j = value d j := by
  refine congrArg BitVec.toNat (BitVec.eq_of_getLsbD_eq fun k hk => ?_)
  rw [BitVec.getLsbD_extractLsb', BitVec.getLsbD_extractLsb', setValue, getLsbD_setField,
    if_neg (by omega)]

theorem getLsbD_word (k : Nat) : (word d i).getLsbD k = (decide (k < 64) && d.getLsbD (64 * i + k)) :=
  BitVec.getLsbD_extractLsb' ..

/-- A word with some of its bits set. -/
theorem getLsbD_orWord (v : BitVec 64) (k : Nat) : (setWord d i (word d i ||| v)).getLsbD k =
    (d.getLsbD k || (decide (k < 512 ∧ k / 64 = i) && v.getLsbD (k % 64))) := by
  rw [setWord, getLsbD_setField]
  split
  · rename_i h
    have hk : k / 64 = i ∧ k - 64 * i = k % 64 ∧ 64 * i + k % 64 = k := by omega
    rw [BitVec.getLsbD_or, getLsbD_word, hk.2.1, hk.2.2]
    simp [h.1, hk.1, Nat.mod_lt]
  · rename_i h
    have hk : ¬ (k < 512 ∧ k / 64 = i) := by omega
    simp [hk]

theorem shiftRight_six (x : Nat) : x >>> 6 = x / 64 := Nat.shiftRight_eq_div_pow x 6

theorem and_sixtyThree (x : Nat) : x &&& 63 = x % 64 := Nat.and_two_pow_sub_one_eq_mod x 6

theorem getLsbD_setbit (hx : x < fastsetMaxSize) (k : Nat) :
    (setbit d x).getLsbD k = (d.getLsbD k || decide (k = x)) := by
  unfold fastsetMaxSize at hx
  have hbit : (decide (k < 512 ∧ k / 64 = x / 64) && (1#64 <<< (x % 64)).getLsbD (k % 64))
      = decide (k = x) := by
    rw [BitVec.getLsbD_shiftLeft, BitVec.getLsbD_one, Bool.eq_iff_iff]
    simp only [Bool.and_eq_true, decide_eq_true_eq, Bool.not_eq_true', decide_eq_false_iff_not]
    omega
  rw [setbit, shiftRight_six, and_sixtyThree, getLsbD_orWord, hbit]

/-- ... of an element whose word is in the array. -/
theorem getbit_eq (_ : x < fastsetMaxSize) : getbit d x = d.getLsbD x := by
  have hand : ∀ (w : BitVec 64) (b : Nat),
      w >>> b &&& 1#64 = if w.getLsbD b then 1#64 else 0#64 := by
    intro w b
    refine BitVec.eq_of_getLsbD_eq fun k hk => ?_
    rw [BitVec.getLsbD_and, BitVec.getLsbD_ushiftRight, BitVec.getLsbD_one]
    by_cases hk0 : k = 0
    · subst hk0
      cases w.getLsbD b <;> simp
    · cases w.getLsbD b <;> simp [hk0]
  have hword : (word d (x / 64)).getLsbD (x % 64) = d.getLsbD x := by
    rw [getLsbD_word, Nat.div_add_mod, decide_eq_true (Nat.mod_lt _ (by decide)), Bool.true_and]
  rw [getbit, shiftRight_six, and_sixtyThree, hand, hword]
  cases d.getLsbD x <;> rfl

end Memory

/-! ## Small sets -/

/-- The values of a small set are in ascending order. -/
def Ascending (d : BitVec 512) (card : Nat) : Prop :=
  ∀ i j, i < j → j < card → value d i < value d j

section Small

variable {d : BitVec 512} {card i left x : Nat}

/-- `insert_small` finds `x`, or where it belongs. -/
theorem insertionPoint_spec (hasc : Ascending d card) (hleft : i + left = card)
    (hbelow : ∀ j < i, value d j < x) :
    (insertionPoint d x left i = none ∧ ∃ j < card, value d j = x) ∨
    ∃ p ≤ card, insertionPoint d x left i = some p ∧ (∀ j < p, value d j < x) ∧
      ∀ j, p ≤ j → j < card → x < value d j := by
  induction left generalizing i with
  | zero => exact .inr ⟨i, by omega, rfl, hbelow, fun j hj hjc => by omega⟩
  | succ left ih =>
      rw [insertionPoint]
      split
      · rename_i heq
        exact .inl ⟨rfl, i, by omega, heq⟩
      · rename_i hne
        split
        · rename_i hgt
          refine .inr ⟨i, by omega, rfl, hbelow, fun j hj hjc => ?_⟩
          rcases hj.lt_or_eq with hlt | rfl
          · exact hgt.trans (hasc i j hlt hjc)
          · exact hgt
        · rename_i hle
          refine ih (by omega) fun j hj => ?_
          rcases (Nat.lt_succ_iff.mp hj).lt_or_eq with hlt | rfl
          · exact hbelow j hlt
          · omega

/-- `insert_small` moves the values behind the point up by one. -/
theorem value_shiftUp (n : Nat) : ∀ {i : Nat}, i + n < smallSize → ∀ j,
    value ((List.range' i n).reverse.foldl (fun d j => setValue d (j + 1) (value d j)) d) j =
      if i < j ∧ j ≤ i + n then value d (j - 1) else value d j := by
  induction n with
  | zero =>
      intro i _ j
      rw [if_neg (by omega)]
      rfl
  | succ n ih =>
      intro i hi j
      rw [List.range'_succ, List.reverse_cons, List.foldl_append, List.foldl_cons, List.foldl_nil]
      have hshift := @ih (i + 1) (by omega)
      generalize (List.range' (i + 1) n).reverse.foldl
        (fun d j => setValue d (j + 1) (value d j)) d = d' at hshift ⊢
      by_cases hj : i + 1 = j
      · subst hj
        rw [value_setValue_self (by omega) (value_lt _ _), hshift, if_neg (by omega),
          if_pos (by omega), Nat.add_sub_cancel]
      · rw [value_setValue_ne hj, hshift]
        congr 1
        exact propext (by omega)

theorem value_insertSmall {p : Nat} (hp : p ≤ card) (hcard : card < smallSize) (hx : x < 2 ^ 16)
    (j : Nat) : value (setValue (shiftUp d p card) p x) j =
      if j = p then x else if p < j ∧ j ≤ card then value d (j - 1) else value d j := by
  by_cases hj : p = j
  · subst hj
    rw [value_setValue_self (by omega) hx, if_pos rfl]
  · rw [value_setValue_ne hj, if_neg (Ne.symm hj), shiftUp, value_shiftUp _ (by omega),
      Nat.add_sub_cancel' hp]

theorem searchSmallLinear_spec (hasc : Ascending d card) (hleft : i + left = card)
    (hbelow : ∀ j < i, value d j < x) :
    searchSmallLinear d x left i = true ↔ ∃ j < card, value d j = x := by
  induction left generalizing i with
  | zero =>
      rw [searchSmallLinear]
      refine ⟨nofun, fun ⟨j, hj, heq⟩ => absurd heq (hbelow j (by omega)).ne⟩
  | succ left ih =>
      rw [searchSmallLinear]
      split
      · rename_i hgt
        refine ⟨nofun, fun ⟨j, hj, heq⟩ => ?_⟩
        rcases Nat.lt_trichotomy j i with hlt | rfl | hlt
        · exact absurd heq (hbelow j hlt).ne
        · omega
        · have hij := hasc i j hlt hj
          omega
      · rename_i hle
        split
        · rename_i heq
          exact ⟨fun _ => ⟨i, by omega, heq⟩, fun _ => rfl⟩
        · rename_i hne
          refine ih (by omega) fun j hj => ?_
          rcases (Nat.lt_succ_iff.mp hj).lt_or_eq with hlt | rfl
          · exact hbelow j hlt
          · omega

/-- The binary search comes to an end, and `x` lies between its bounds if it is
there at all. -/
theorem binarySearch_spec (hasc : Ascending d card) : ∀ {fuel : Nat} {first last : Int},
    0 ≤ first → first ≤ last → last < card → last - first < fuel →
    (∀ j < card, value d j = x → first ≤ j ∧ j ≤ last) →
    binarySearch d x fuel first last ((first + last) / 2)
      = some (decide (∃ j < card, value d j = x)) := by
  intro fuel
  induction fuel with
  | zero =>
      intro first last h0 hle hlt hfuel
      omega
  | succ fuel ih =>
      intro first last h0 hle hlt hfuel hin
      have hmid : first ≤ (first + last) / 2 ∧ (first + last) / 2 ≤ last := by omega
      obtain ⟨m, hm⟩ := Int.eq_ofNat_of_zero_le (h0.trans hmid.1)
      rw [hm] at hmid ⊢
      rw [binarySearch, Int.toNat_natCast]
      have hmc : m < card := by omega
      split
      · rename_i hlow
        -- nothing from the middle on is `x`
        have hin' : ∀ j < card, value d j = x → first ≤ j ∧ (j : Int) ≤ m - 1 := by
          intro j hj heq
          obtain ⟨hfirst, -⟩ := hin j hj heq
          rcases Nat.lt_trichotomy j m with hjm | rfl | hjm
          · omega
          · omega
          · have hmj := hasc m j hjm hj
            omega
        split
        · rename_i hend
          rw [decide_eq_false]
          rintro ⟨j, hj, heq⟩
          have hj' := hin' j hj heq
          omega
        · exact ih h0 (by omega) (by omega) (by omega) hin'
      · split
        · rename_i hhigh
          have hin' : ∀ j < card, value d j = x → (m : Int) + 1 ≤ j ∧ (j : Int) ≤ last := by
            intro j hj heq
            obtain ⟨-, hlast⟩ := hin j hj heq
            rcases Nat.lt_trichotomy j m with hjm | rfl | hjm
            · have hjm' := hasc j m hjm hmc
              omega
            · omega
            · omega
          split
          · rename_i hend
            rw [decide_eq_false]
            rintro ⟨j, hj, heq⟩
            have hj' := hin' j hj heq
            omega
          · exact ih (by omega) (by omega) hlt (by omega) hin'
        · rw [decide_eq_true]
          exact ⟨m, hmc, by omega⟩

end Small

/-! ## Larger sets -/

section Bits

variable {d : BitVec 512} {x : Nat}

theorem getLsbD_foldl_setbit {l : List Nat} (hl : ∀ x ∈ l, x < fastsetMaxSize) (k : Nat) :
    (l.foldl setbit d).getLsbD k = (d.getLsbD k || decide (k ∈ l)) := by
  induction l generalizing d with
  | nil => simp
  | cons x l ih =>
      rw [List.foldl_cons, ih fun y hy => hl y (List.mem_cons_of_mem _ hy),
        getLsbD_setbit (hl x (List.mem_cons_self ..)), Bool.or_assoc]
      simp

theorem getLsbD_orWords (d other : BitVec 512) (lim k : Nat) :
    (orWords d other lim).getLsbD k =
      (d.getLsbD k || (decide (k < 64 * lim) && other.getLsbD k)) := by
  unfold orWords
  induction lim with
  | zero => simp
  | succ lim ih =>
      rw [List.range_succ, List.foldl_append, List.foldl_cons, List.foldl_nil, getLsbD_orWord, ih,
        getLsbD_word, Bool.or_assoc]
      congr 1
      have hlt : k % 64 < 64 := Nat.mod_lt _ (by decide)
      by_cases hk : k < 512
      · by_cases hword : k / 64 = lim
        · have hk' : 64 * lim + k % 64 = k ∧ k < 64 * (lim + 1) := by omega
          simp [hk, hword, hk', hlt]
        · have hk' : k < 64 * (lim + 1) ↔ k < 64 * lim := by omega
          simp [hword, hk']
      · simp [BitVec.getLsbD_of_ge other k (not_lt.mp hk), hk]

/-- The words up to the next multiple of 64 cover the elements below `n`. -/
theorem lim_eq {n : Nat} (hn : n < fastsetMaxSize) : ((n ||| 63) + 1) / 64 = n / 64 + 1 := by
  have hall : ∀ n < 512, ((n ||| 63) + 1) / 64 = n / 64 + 1 := by decide +kernel
  exact hall n hn

end Bits

/-! ## The set a `fastset` stands for -/

/-- The two representations. -/
inductive Represents (s : Fastset) (S : Finset Nat) : Prop
  | small (hcard : s.card < smallSize) (hasc : Ascending s.data s.card)
      (hmem : ∀ x, x ∈ S ↔ ∃ i < s.card, value s.data i = x) : Represents s S
  | bits (hcard : s.card = smallSize) (hmem : ∀ x, x ∈ S ↔ s.data.getLsbD x = true) :
      Represents s S

variable {s other : Fastset} {S T : Finset Nat} {x n : Nat}

theorem new_represents (memory : BitVec 512) : Represents (new memory) ∅ :=
  .small (Nat.zero_lt_succ _) (fun i j _ hj => absurd hj (Nat.not_lt_zero _)) (by simp [new])

/-- The conversion at `SMALL_SIZE` elements, and in `join`. -/
theorem getLsbD_smalltobit {d : BitVec 512} {card : Nat}
    (hS : ∀ i < card, value d i < fastsetMaxSize) (k : Nat) :
    (smalltobit d card).getLsbD k = true ↔ ∃ i < card, value d i = k := by
  rw [smalltobit, getLsbD_foldl_setbit]
  · simp
  · intro y hy
    obtain ⟨i, hi, rfl⟩ := List.mem_map.mp hy
    exact hS i (List.mem_range.mp hi)

/-- `insert_small` inserts, whether the set stays small or is to be converted. -/
theorem insertSmall_spec (hcard : s.card < smallSize) (hasc : Ascending s.data s.card)
    (hx : x < fastsetMaxSize) :
    (s.insertSmall x).card ≤ smallSize ∧
    Ascending (s.insertSmall x).data (s.insertSmall x).card ∧
    ∀ y, (∃ i < (s.insertSmall x).card, value (s.insertSmall x).data i = y) ↔
      y = x ∨ ∃ i < s.card, value s.data i = y := by
  have hx' : x < 2 ^ 16 := hx.trans (by decide)
  unfold insertSmall
  rcases insertionPoint_spec (x := x) hasc (Nat.zero_add _) (fun j hj => absurd hj (Nat.not_lt_zero _))
    with ⟨heq, j, hj, hjx⟩ | ⟨p, hp, heq, hbelow, habove⟩
  · rw [heq]
    refine ⟨hcard.le, hasc, fun y => ⟨.inr, ?_⟩⟩
    rintro (rfl | hy)
    · exact ⟨j, hj, hjx⟩
    · exact hy
  · rw [heq]
    dsimp only
    have hvalue := value_insertSmall (d := s.data) hp hcard hx'
    generalize setValue (shiftUp s.data p s.card) p x = d' at hvalue
    have hless : ∀ i < p, value d' i = value s.data i := fun i hi => by
      rw [hvalue, if_neg hi.ne, if_neg (by omega)]
    have hhere : value d' p = x := by rw [hvalue, if_pos rfl]
    have hmore : ∀ i, p ≤ i → i < s.card → value d' (i + 1) = value s.data i := fun i hi hic => by
      rw [hvalue, if_neg (by omega), if_pos (by omega), Nat.add_sub_cancel]
    refine ⟨hcard, fun i j hij hj => ?_, fun y => ⟨?_, ?_⟩⟩
    · rcases Nat.lt_trichotomy i p with hi | rfl | hi
      · rw [hless i hi]
        rcases Nat.lt_trichotomy j p with hjp | rfl | hjp
        · rw [hless j hjp]
          exact hasc i j hij (by omega)
        · rw [hhere]
          exact hbelow i hi
        · obtain ⟨j, rfl⟩ := Nat.exists_eq_succ_of_ne_zero (by omega : j ≠ 0)
          rw [hmore j (by omega) (by omega)]
          exact (hbelow i hi).trans (habove j (by omega) (by omega))
      · obtain ⟨j, rfl⟩ := Nat.exists_eq_succ_of_ne_zero (by omega : j ≠ 0)
        rw [hhere, hmore j (by omega) (by omega)]
        exact habove j (by omega) (by omega)
      · obtain ⟨i, rfl⟩ := Nat.exists_eq_succ_of_ne_zero (by omega : i ≠ 0)
        obtain ⟨j, rfl⟩ := Nat.exists_eq_succ_of_ne_zero (by omega : j ≠ 0)
        rw [hmore i (by omega) (by omega), hmore j (by omega) (by omega)]
        exact hasc i j (by omega) (by omega)
    · rintro ⟨i, hi, hiy⟩
      rcases Nat.lt_trichotomy i p with hip | rfl | hip
      · exact .inr ⟨i, by omega, (hless i hip).symm.trans hiy⟩
      · exact .inl (hiy.symm.trans hhere)
      · obtain ⟨i, rfl⟩ := Nat.exists_eq_succ_of_ne_zero (by omega : i ≠ 0)
        exact .inr ⟨i, by omega, (hmore i (by omega) (by omega)).symm.trans hiy⟩
    · rintro (rfl | ⟨i, hi, hiy⟩)
      · exact ⟨p, Nat.lt_succ_of_le hp, hhere⟩
      · by_cases hip : i < p
        · exact ⟨i, by omega, (hless i hip).trans hiy⟩
        · exact ⟨i + 1, Nat.succ_lt_succ hi, (hmore i (not_lt.mp hip) hi).trans hiy⟩

theorem Represents.insert (h : Represents s S) (hS : ∀ y ∈ S, y < fastsetMaxSize)
    (hx : x < fastsetMaxSize) : Represents (s.insert x) (S ∪ {x}) := by
  have hx' : x < 2 ^ 16 := hx.trans (by decide)
  unfold Fastset.insert
  cases h with
  | small hcard hasc hmem =>
      by_cases h0 : s.card = 0
      · have hempty : S = ∅ := Finset.eq_empty_of_forall_notMem fun y hy => by
          obtain ⟨i, hi, -⟩ := (hmem y).mp hy
          omega
        have hvalue : value (setValue s.data 0 x) 0 = x :=
          value_setValue_self (Nat.zero_lt_succ _) hx'
        rw [if_pos h0, hempty, Finset.empty_union]
        refine .small (Nat.succ_lt_succ (Nat.zero_lt_succ _)) (fun i j hij hj => ?_) fun y => ?_
        · change j < 1 at hj
          omega
        · rw [Finset.mem_singleton]
          constructor
          · rintro rfl
            exact ⟨0, Nat.zero_lt_one, hvalue⟩
          · rintro ⟨i, hi, hiy⟩
            change i < 1 at hi
            obtain rfl : i = 0 := by omega
            exact hiy.symm.trans hvalue
      · rw [if_neg h0, if_pos hcard]
        obtain ⟨hcard', hasc', hmem'⟩ := insertSmall_spec hcard hasc hx
        have hS' : ∀ y, y ∈ S ∪ {x} ↔
            ∃ i < (s.insertSmall x).card, value (s.insertSmall x).data i = y := fun y => by
          rw [Finset.mem_union, Finset.mem_singleton, hmem y, hmem' y, or_comm]
        dsimp only
        split
        · rename_i hfull
          refine .bits hfull fun y => ?_
          rw [hS' y]
          refine (getLsbD_smalltobit (fun i hi => ?_) y).symm
          rcases (hmem' _).mp ⟨i, hi, rfl⟩ with heq | hold
          · rw [heq]
            exact hx
          · exact hS _ ((hmem _).mpr hold)
        · rename_i hfull
          exact .small (lt_of_le_of_ne hcard' hfull) hasc' hS'
  | bits hcard hmem =>
      have hpos : s.card ≠ 0 := by rw [hcard]; decide
      rw [if_neg hpos, if_neg (by omega)]
      refine .bits hcard fun y => ?_
      rw [getLsbD_setbit hx, Finset.mem_union, Finset.mem_singleton, hmem y, Bool.or_eq_true,
        decide_eq_true_eq]

theorem Represents.search (h : Represents s S) (hx : x < fastsetMaxSize) :
    s.search x = some (decide (x ∈ S)) := by
  unfold Fastset.search
  cases h with
  | small hcard hasc hmem =>
      have hdec : decide (x ∈ S) = decide (∃ i < s.card, value s.data i = x) :=
        decide_eq_decide.mpr (hmem x)
      rw [hdec]
      by_cases h0 : s.card = 0
      · rw [if_pos h0, decide_eq_false]
        rintro ⟨i, hi, -⟩
        omega
      by_cases h1 : s.card = 1
      · rw [if_neg h0, if_pos h1]
        congr 1
        refine decide_eq_decide.mpr ⟨fun h => ⟨0, by omega, h⟩, fun ⟨i, hi, h⟩ => ?_⟩
        obtain rfl : i = 0 := by omega
        exact h
      rw [if_neg h0, if_neg h1, if_pos hcard, searchSmall, if_neg h0]
      split
      · have hlinear := searchSmallLinear_spec (x := x) hasc (Nat.zero_add _)
          fun j hj => absurd hj (Nat.not_lt_zero _)
        rw [Bool.eq_iff_iff.mpr (hlinear.trans (decide_eq_true_iff).symm)]
      · have hbinary := binarySearch_spec (x := x) hasc le_rfl
          (show (0 : Int) ≤ s.card - 1 by omega) (by omega)
          (show (s.card : Int) - 1 - 0 < (s.card : Nat) by omega)
          fun j hj _ => ⟨by omega, by omega⟩
        rw [Int.zero_add] at hbinary
        exact hbinary
  | bits hcard hmem =>
      have hpos : s.card ≠ 0 := by rw [hcard]; decide
      have hone : s.card ≠ 1 := by rw [hcard]; decide
      rw [if_neg hpos, if_neg hone, if_neg (by omega), getbit_eq hx]
      congr 1
      rw [Bool.eq_iff_iff, decide_eq_true_eq, hmem x]

theorem Represents.foldl_insert {l : List Nat} (h : Represents s S)
    (hS : ∀ y ∈ S, y < fastsetMaxSize) (hl : ∀ y ∈ l, y < fastsetMaxSize) :
    Represents (l.foldl Fastset.insert s) (S ∪ l.toFinset) := by
  induction l generalizing s S with
  | nil => simpa using h
  | cons x l ih =>
      have hx := hl x (List.mem_cons_self ..)
      have hS' : ∀ y ∈ S ∪ {x}, y < fastsetMaxSize := fun y hy => by
        rcases Finset.mem_union.mp hy with hy | hy
        · exact hS y hy
        · rwa [Finset.mem_singleton.mp hy]
      have hrest := ih (h.insert hS hx) hS' fun y hy => hl y (List.mem_cons_of_mem _ hy)
      rw [Finset.union_assoc] at hrest
      rw [List.foldl_cons, List.toFinset_cons, Finset.insert_eq]
      exact hrest

/-- A set that is made a bitset, unless it is one. -/
theorem Represents.bits_of (h : Represents s S) (hS : ∀ y ∈ S, y < fastsetMaxSize) :
    let s' := if s.card < smallSize then ⟨smalltobit s.data s.card, smallSize⟩ else s
    s'.card = smallSize ∧ ∀ x, x ∈ S ↔ s'.data.getLsbD x = true := by
  cases h with
  | small hcard hasc hmem =>
      rw [if_pos hcard]
      refine ⟨rfl, fun x => (hmem x).trans (getLsbD_smalltobit (fun i hi => ?_) x).symm⟩
      exact hS _ ((hmem _).mpr ⟨i, hi, rfl⟩)
  | bits hcard hmem =>
      rw [if_neg (by omega)]
      exact ⟨hcard, hmem⟩

theorem Represents.join (h : Represents s S) (ho : Represents other T)
    (hS : ∀ y ∈ S, y < fastsetMaxSize) (hn : n < fastsetMaxSize) (hT : ∀ y ∈ T, y < n) :
    Represents (s.join other n) (S ∪ T) := by
  unfold Fastset.join
  cases ho with
  | small hcard hasc hmem =>
      by_cases h0 : other.card = 0
      · have hempty : T = ∅ := Finset.eq_empty_of_forall_notMem fun y hy => by
          obtain ⟨i, hi, -⟩ := (hmem y).mp hy
          omega
        rw [if_pos h0, hempty, Finset.union_empty]
        exact h
      · have hT' : T = ((List.range other.card).map (value other.data)).toFinset := by
          ext y
          rw [hmem y]
          simp
        rw [if_neg h0, if_pos hcard, hT']
        refine h.foldl_insert hS fun y hy => ?_
        obtain ⟨i, hi, rfl⟩ := List.mem_map.mp hy
        exact (hT _ ((hmem _).mpr ⟨i, List.mem_range.mp hi, rfl⟩)).trans hn
  | bits hcard hmem =>
      have hpos : other.card ≠ 0 := by rw [hcard]; decide
      obtain ⟨hcard', hmem'⟩ := h.bits_of hS
      rw [if_neg hpos, if_neg (by omega)]
      dsimp only
      refine .bits hcard' fun y => ?_
      rw [getLsbD_orWords, lim_eq hn, Finset.mem_union, hmem' y, hmem y, Bool.or_eq_true,
        Bool.and_eq_true, decide_eq_true_eq]
      refine or_congr_right ⟨fun hy => ⟨?_, hy⟩, And.right⟩
      have hlt := hT y ((hmem y).mpr hy)
      omega

/-! ## Listing the members -/

theorem takeWhile_range' (n : Nat) : ∀ a k,
    (List.range' a k).takeWhile (· < n) = List.range' a (min k (n - a)) := by
  intro a k
  induction k generalizing a with
  | zero => simp
  | succ k ih =>
      rw [List.range'_succ]
      by_cases ha : a < n
      · have hmin : min (k + 1) (n - a) = min k (n - (a + 1)) + 1 := by omega
        rw [List.takeWhile_cons_of_pos (by simpa using ha), ih, hmin, List.range'_succ]
      · have hmin : min (k + 1) (n - a) = 0 := by omega
        rw [List.takeWhile_cons_of_neg (by simpa using ha), hmin, List.range'_zero]

/-- One word of a bitset. -/
theorem mem_wordMembers {d : BitVec 512} {i : Nat} (hn : n < fastsetMaxSize) :
    x ∈ (if word d i ≠ 0 then
      (((List.range 64).map (64 * i + ·)).takeWhile (· < n)).filter (getbit d) else []) ↔
      (64 * i ≤ x ∧ x < 64 * i + 64) ∧ x < n ∧ d.getLsbD x = true := by
  have hmem : x ∈ (((List.range 64).map (64 * i + ·)).takeWhile (· < n)).filter (getbit d) ↔
      (64 * i ≤ x ∧ x < 64 * i + 64) ∧ x < n ∧ d.getLsbD x = true := by
    rw [← List.range'_eq_map_range, takeWhile_range', List.mem_filter, List.mem_range'_1]
    constructor
    · rintro ⟨⟨hlo, hhi⟩, hbit⟩
      rw [getbit_eq (by omega)] at hbit
      exact ⟨⟨hlo, by omega⟩, by omega, hbit⟩
    · rintro ⟨⟨hlo, hhi⟩, hlt, hbit⟩
      rw [getbit_eq (hlt.trans hn)]
      exact ⟨⟨hlo, by omega⟩, hbit⟩
  split
  · exact hmem
  · rename_i hword
    refine ⟨nofun, fun ⟨⟨hlo, hhi⟩, hlt, hbit⟩ => ?_⟩
    have hget := getLsbD_word (d := d) (i := i) (x - 64 * i)
    rw [not_not.mp hword, Nat.add_sub_cancel' hlo, hbit, decide_eq_true (by omega)] at hget
    simp at hget

/-- Members in ascending order, each once. -/
structure Lists (v : List Nat) (S : Finset Nat) : Prop where
  ascending : v.Pairwise (· < ·)
  mem : ∀ x, x ∈ v ↔ x ∈ S

theorem Lists.length {v : List Nat} (h : Lists v S) : v.length = S.card := by
  have hS : S = v.toFinset := by
    ext x
    rw [List.mem_toFinset, h.mem x]
  rw [hS, List.toFinset_card_of_nodup (h.ascending.imp fun hlt => hlt.ne)]

theorem Represents.expand (h : Represents s S) (hn : n < fastsetMaxSize) (hS : ∀ y ∈ S, y < n) :
    (s.expand n).1 = S.card ∧ Lists (s.expand n).2 S := by
  unfold Fastset.expand
  cases h with
  | small hcard hasc hmem =>
      have hlists : Lists ((List.range s.card).map (value s.data)) S := by
        refine ⟨?_, fun x => by rw [hmem x]; simp⟩
        rw [List.pairwise_map]
        exact List.pairwise_lt_range.imp_of_mem fun _ hj hij => hasc _ _ hij (List.mem_range.mp hj)
      have hlen : s.card = S.card := by
        rw [← hlists.length, List.length_map, List.length_range]
      split
      · rename_i h0
        rw [h0, List.range_zero, List.map_nil] at hlists
        exact ⟨h0.symm.trans hlen, hlists⟩
      · exact ⟨hlen, hlists⟩
  | bits hcard hmem =>
      have hpos : s.card ≠ 0 := by rw [hcard]; decide
      rw [if_neg hpos, if_neg (by omega)]
      dsimp only
      suffices hlists : Lists _ S from ⟨hlists.length, hlists⟩
      constructor
      · rw [List.pairwise_flatMap]
        refine ⟨fun i _ => ?_, List.pairwise_lt_range.imp fun hij x hx y hy => ?_⟩
        · split
          · rw [← List.range'_eq_map_range, takeWhile_range']
            exact (List.pairwise_lt_range' _).filter _
          · exact .nil
        · have hx' := (mem_wordMembers hn).mp hx
          have hy' := (mem_wordMembers hn).mp hy
          omega
      · intro x
        rw [List.mem_flatMap, hmem x]
        constructor
        · rintro ⟨i, -, hx⟩
          exact ((mem_wordMembers hn).mp hx).2.2
        · intro hx
          have hlt := hS x ((hmem x).mpr hx)
          exact ⟨x / 64, List.mem_range.mpr (by omega),
            (mem_wordMembers hn).mpr ⟨by omega, hlt, hx⟩⟩

/-! ## Building sets -/

/-- How a set has come about; the constructor finds some memory. -/
inductive Build where
  | new (memory : BitVec 512)
  | insert (b : Build) (x : Nat)
  | join (b other : Build) (n : Nat)
deriving DecidableEq

namespace Build

def run : Build → Fastset
  | new memory => Fastset.new memory
  | insert b x => b.run.insert x
  | join b other n => b.run.join other.run n

/-- The set that is meant. -/
def set : Build → Finset Nat
  | new _ => ∅
  | insert b x => b.set ∪ {x}
  | join b other _ => b.set ∪ other.set

/-- Elements are below `MAX_SIZE`, and those of a set that is joined below the
bound given with it. -/
def Below : Build → Prop
  | new _ => True
  | insert b x => b.Below ∧ x < fastsetMaxSize
  | join b other n => b.Below ∧ other.Below ∧ n < fastsetMaxSize ∧ ∀ x ∈ other.set, x < n

instance decidableBelow : (b : Build) → Decidable b.Below
  | new _ => .isTrue trivial
  | insert b _ => @instDecidableAnd _ _ (decidableBelow b) _
  | join b other _ =>
      @instDecidableAnd _ _ (decidableBelow b) (@instDecidableAnd _ _ (decidableBelow other) _)

theorem below_maxSize : ∀ {b : Build}, b.Below → ∀ x ∈ b.set, x < fastsetMaxSize
  | new _, _, x, hx => absurd hx (Finset.notMem_empty x)
  | insert b y, h, x, hx => by
      rcases Finset.mem_union.mp hx with hx | hx
      · exact below_maxSize h.1 x hx
      · rw [Finset.mem_singleton.mp hx]
        exact h.2
  | join b other n, h, x, hx => by
      rcases Finset.mem_union.mp hx with hx | hx
      · exact below_maxSize h.1 x hx
      · exact (h.2.2.2 x hx).trans h.2.2.1

theorem represents : ∀ {b : Build}, b.Below → Represents b.run b.set
  | new _, _ => new_represents _
  | insert _ _, h => (represents h.1).insert (below_maxSize h.1) h.2
  | join _ _ _, h =>
      (represents h.1).join (represents h.2.1) (below_maxSize h.1) h.2.2.1 h.2.2.2

end Build

end Fastset

/-- **`fastset` is a set.** However a set has been built, in whichever
representation its parts were at the time, `search` comes to an end and tells
its members, and `expand` returns how many there are and writes them out in
ascending order, each once. -/
theorem fastset_refines_set {b : Fastset.Build} (hb : b.Below) :
    (∀ x < fastsetMaxSize, b.run.search x = some (decide (x ∈ b.set))) ∧
    ∀ n < fastsetMaxSize, (∀ x ∈ b.set, x < n) →
      (b.run.expand n).1 = b.set.card ∧ (b.run.expand n).2.Pairwise (· < ·) ∧
        ∀ x, x ∈ (b.run.expand n).2 ↔ x ∈ b.set := by
  have h := Fastset.Build.represents hb
  refine ⟨fun x hx => h.search hx, fun n hn hS => ?_⟩
  obtain ⟨hcard, hlists⟩ := h.expand hn hS
  exact ⟨hcard, hlists.ascending, hlists.mem⟩

/-- Two elements and, in a bitset by then, the first fourteen multiples of
three. -/
def Fastset.mixed : Fastset.Build :=
  .join (.insert (.insert (.new (BitVec.allOnes 512)) 300) 7)
    ((List.range 14).foldl (fun b i => .insert b (3 * i)) (.new 0)) 300

theorem fastset_refines_set_mixed : Fastset.mixed.Below ∧
    Fastset.mixed.run.search 39 = some true ∧ Fastset.mixed.run.search 40 = some false ∧
    (Fastset.mixed.run.expand 301).1 = 16 := by
  have hbelow : Fastset.mixed.Below := by decide +kernel
  obtain ⟨hsearch, hexpand⟩ := fastset_refines_set hbelow
  have hS : ∀ x ∈ Fastset.mixed.set, x < 301 := by decide +kernel
  refine ⟨hbelow, (hsearch 39 (by decide)).trans ?_, (hsearch 40 (by decide)).trans ?_,
    (hexpand 301 (by decide) hS).1.trans ?_⟩
  · decide +kernel
  · decide +kernel
  · decide +kernel

end DramCache
