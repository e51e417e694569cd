import DramCache.Bimap
import Mathlib.Data.Nat.Bitwise

/-!
# The page table

`va_to_pa`, which gives every virtual page a physical one at its first use:
the next one of a contiguous run, a random one, or, when `DRAM_PAGES` are
allocated, that of a page which has not been used recently.

One CPU: `high_bit_mask` is 0. `pages` is `DRAM_PAGES`. The invalidations a swap sends to the TLBs and
caches are in the result (`Swap`), not carried out; debug prints are left out.
-/

namespace DramCache

/-- What `champsim_rand.draw_rand()` returns: `dist` is uniform on
`{0, 0xFFFFFFFFF}`. -/
abbrev Draw := Fin 0x1000000000

/-- The globals `va_to_pa` works on, as the start of the simulation leaves
them. -/
structure Paging where
  pageTable : AList fun _ : ℕ => ℕ := ∅
  inverseTable : AList fun _ : ℕ => ℕ := ∅
  pageQueue : List ℕ := []
  previousPpage : ℕ := 0
  numAdjacentPage : ℕ := 0
  allocatedPages : ℕ := 0
  uniqueCl : AList fun _ : ℕ => ℕ := ∅
  numCl : ℕ := 0
  numPage : ℕ := 0
  minorFault : ℕ := 0
  majorFault : ℕ := 0
  stallCycle : ℕ := 0
  deriving DecidableEq

/-- One call: its arguments, what the random number generators answer during
it, and the globals it only reads. -/
structure PageCall where
  va : ℕ
  uniqueVpage : ℕ
  isCode : Bool := false
  draws : List Draw := []
  rand : ℕ := 0
  recentPage : List ℕ := []
  currentCoreCycle : ℕ := 0
  pageTableLatency : ℕ := 0
  swapLatency : ℕ := 0

/-- A page taken from its owner: both are invalidated in the hierarchy. -/
structure Swap where
  nruVpage : ℕ
  mappedPpage : ℕ
  deriving DecidableEq

structure Translation where
  pa : ℕ
  swapped : Option Swap
  deriving DecidableEq

/-- The assertions of `va_to_pa`; `searching` is the search for a free page
that has used up its draws. -/
inductive PageFault where
  | zeroAddress
  | noNruPage
  | noInverse
  | noTranslation
  | searching
  deriving DecidableEq

namespace Paging

/-! ## The source -/

/-- The cache line footprint. -/
def countLine (va : ℕ) (s : Paging) : Paging :=
  let seen := s.uniqueCl.lookup (va >>> 6)
  { s with
    uniqueCl := s.uniqueCl.insert (va >>> 6) (seen.elim 0 (· + 1))
    numCl := if seen.isNone then s.numCl + 1 else s.numCl }

/-- The first page of `page_table`, in key order, that is not in
`recent_page`. -/
def nruPage (recentPage : List ℕ) (s : Paging) : Option ℕ :=
  (s.pageTable.keys.filter fun v => v ∉ recentPage).min?

/-- The physical page of `nru` passes to the page asked for. -/
def exchange (c : PageCall) (nru mapped : ℕ) (s : Paging) : Paging :=
  { s with
    pageTable := (s.pageTable.erase nru).insert c.uniqueVpage mapped
    inverseTable := s.inverseTable.insert mapped c.uniqueVpage
    pageQueue := s.pageQueue.tail ++ [c.uniqueVpage]
    majorFault := s.majorFault + 1 }

/-- Not enough memory. -/
def swap (c : PageCall) (s : Paging) : Except PageFault (Swap × Paging) :=
  match s.nruPage c.recentPage with
  | none => .error .noNruPage
  | some nru =>
      match s.pageTable.lookup nru with
      | none => .error .noNruPage
      | some mapped =>
          match s.inverseTable.lookup mapped with
          | none => .error .noInverse
          | some _ => .ok (⟨nru, mapped⟩, s.exchange c nru mapped)

/-- `random_ppage`, try by try: `++previous_ppage` first inside a run. -/
def candidates (c : PageCall) (s : Paging) : List ℕ :=
  if 0 < s.numAdjacentPage then
    (s.previousPpage + 1) % 2 ^ 64 :: c.draws.map (·.val)
  else c.draws.map (·.val)

/-- `while (1)`: the first candidate not in `inverse_table`, and `fragmented`. -/
def emptyPage (s : Paging) (fragmented : Bool) : List ℕ → Except PageFault (ℕ × Bool)
  | [] => .error .searching
  | p :: ps =>
      match s.inverseTable.lookup p with
      | some _ => s.emptyPage (if 0 < s.numAdjacentPage then true else fragmented) ps
      | none => .ok (p, fragmented)

/-- `insert` into both tables; a run that ends or breaks starts another. -/
def install (c : PageCall) (s : Paging) (ppage : ℕ) (fragmented : Bool) : Paging :=
  { s with
    pageTable := s.pageTable.insert c.uniqueVpage ppage
    inverseTable := s.inverseTable.insert ppage c.uniqueVpage
    pageQueue := s.pageQueue ++ [c.uniqueVpage]
    previousPpage := ppage
    numAdjacentPage :=
      if fragmented then 2 ^ (c.rand % 10) else (s.numAdjacentPage + (2 ^ 64 - 1)) % 2 ^ 64
    numPage := s.numPage + 1
    allocatedPages := s.allocatedPages + 1
    minorFault := s.minorFault + 1 }

def allocate (c : PageCall) (s : Paging) : Except PageFault Paging :=
  match s.emptyPage (decide (s.numAdjacentPage = 0)) (s.candidates c) with
  | .error e => .error e
  | .ok (ppage, fragmented) => .ok (s.install c ppage fragmented)

/-- The first half: afterwards there is a translation. -/
def map (pages : ℕ) (c : PageCall) (s : Paging) : Except PageFault (Option Swap × Paging) :=
  match s.pageTable.lookup c.uniqueVpage with
  | some _ => .ok (none, s)
  | none =>
      if pages ≤ s.allocatedPages then
        match s.swap c with
        | .error e => .error e
        | .ok (w, s) => .ok (some w, s)
      else
        match s.allocate c with
        | .error e => .error e
        | .ok s => .ok (none, s)

/-- Code translations do not pay the penalty. -/
def stall (c : PageCall) (swapped : Bool) (s : Paging) : Paging :=
  let latency := if swapped then c.swapLatency else c.pageTableLatency
  { s with
    stallCycle :=
      if c.isCode then s.stallCycle else (c.currentCoreCycle + latency) % 2 ^ 64 }

/-- `ppage << LOG2_PAGE_SIZE`, with the page offset of `va`. -/
def physical (ppage va : ℕ) : ℕ := (ppage <<< 12) % 2 ^ 64 ||| (va &&& (1 <<< 12 - 1))

def vaToPa (pages : ℕ) (c : PageCall) (s : Paging) : Except PageFault (Translation × Paging) :=
  if c.va = 0 then .error .zeroAddress
  else
    match (s.countLine c.va).map pages c with
    | .error e => .error e
    | .ok (w, s) =>
        match s.pageTable.lookup c.uniqueVpage with
        | none => .error .noTranslation
        | some ppage => .ok (⟨physical ppage c.va, w⟩, s.stall c w.isSome)

/-- One call after the other. -/
def vaToPas (pages : ℕ) : List PageCall → Paging → Except PageFault (List Translation × Paging)
  | [], s => .ok ([], s)
  | c :: cs, s =>
      match s.vaToPa pages c with
      | .error e => .error e
      | .ok (t, s) =>
          match vaToPas pages cs s with
          | .error e => .error e
          | .ok (ts, s) => .ok (t :: ts, s)

/-! ## What a call can do -/

variable {pages : ℕ} {c : PageCall} {s s' : Paging} {t : Translation} {w : Option Swap}

theorem swap_ok {x : Swap} (h : s.swap c = .ok (x, s')) :
    s.nruPage c.recentPage = some x.nruVpage ∧
      s.pageTable.lookup x.nruVpage = some x.mappedPpage ∧
      s' = s.exchange c x.nruVpage x.mappedPpage := by
  unfold swap at h
  split at h
  · cases h
  · rename_i nru hnru
    split at h
    · cases h
    · rename_i mapped hmapped
      split at h
      · cases h
      · cases h
        exact ⟨hnru, hmapped, rfl⟩

/-- Only the first try of a run leaves `fragmented` as it was. -/
theorem emptyPage_ok {p : ℕ} {fragmented fragmented' : Bool} {l : List ℕ}
    (hrun : s.numAdjacentPage = 0 → fragmented = true)
    (h : s.emptyPage fragmented l = .ok (p, fragmented')) :
    s.inverseTable.lookup p = none ∧
      (fragmented' = false → fragmented = false ∧ l.head? = some p) ∧
      (fragmented' = true → (fragmented = true ∧ l.head? = some p) ∨ p ∈ l.tail) := by
  induction l generalizing fragmented with
  | nil => cases h
  | cons q ps ih =>
      rw [emptyPage] at h
      split at h
      · have hretry : (if 0 < s.numAdjacentPage then true else fragmented) = true := by
          split
          · rfl
          · exact hrun (by omega)
        rw [hretry] at h
        obtain ⟨hfree, hkept, hnew⟩ := ih (fun _ => rfl) h
        refine ⟨hfree, fun hf => ?_, fun hf => .inr ?_⟩
        · cases (hkept hf).1
        · rcases hnew hf with ⟨-, hhead⟩ | htail
          · exact List.mem_of_mem_head? hhead
          · exact List.mem_of_mem_tail htail
      · rename_i hfree
        cases h
        exact ⟨hfree, fun hf => ⟨hf, rfl⟩, fun hf => .inl ⟨hf, rfl⟩⟩

/-- A page found by going on with a run, or drawn. -/
theorem emptyPage_candidates {p : ℕ} {fragmented : Bool}
    (h : s.emptyPage (decide (s.numAdjacentPage = 0)) (s.candidates c) = .ok (p, fragmented)) :
    s.inverseTable.lookup p = none ∧
      ((fragmented = false ∧ 0 < s.numAdjacentPage ∧ p = (s.previousPpage + 1) % 2 ^ 64) ∨
        (fragmented = true ∧ p ∈ c.draws.map (·.val))) := by
  obtain ⟨hfree, hkept, hnew⟩ := emptyPage_ok (fun h0 => decide_eq_true h0) h
  refine ⟨hfree, ?_⟩
  unfold candidates at hkept hnew
  by_cases hadj : 0 < s.numAdjacentPage
  · rw [if_pos hadj] at hkept hnew
    cases fragmented with
    | false =>
        exact .inl ⟨rfl, hadj, (Option.some.inj (hkept rfl).2).symm⟩
    | true =>
        rcases hnew rfl with ⟨h0, -⟩ | htail
        · have := of_decide_eq_true h0
          omega
        · exact .inr ⟨rfl, htail⟩
  · rw [if_neg hadj] at hkept hnew
    cases fragmented with
    | false =>
        have := of_decide_eq_false (hkept rfl).1
        omega
    | true =>
        rcases hnew rfl with ⟨-, hhead⟩ | htail
        · exact .inr ⟨rfl, List.mem_of_mem_head? hhead⟩
        · exact .inr ⟨rfl, List.mem_of_mem_tail htail⟩

theorem allocate_ok (h : s.allocate c = .ok s') :
    ∃ p fragmented, s.inverseTable.lookup p = none ∧
      ((fragmented = false ∧ 0 < s.numAdjacentPage ∧ p = (s.previousPpage + 1) % 2 ^ 64) ∨
        (fragmented = true ∧ p ∈ c.draws.map (·.val))) ∧
      s' = s.install c p fragmented := by
  unfold allocate at h
  split at h
  · cases h
  · rename_i p fragmented hsearch
    cases h
    obtain ⟨hfree, hfrom⟩ := emptyPage_candidates hsearch
    exact ⟨p, fragmented, hfree, hfrom, rfl⟩

/-- The three branches. -/
inductive Mapped (pages : ℕ) (c : PageCall) (s : Paging) : Option Swap → Paging → Prop
  | found {p : ℕ} (hit : s.pageTable.lookup c.uniqueVpage = some p) : Mapped pages c s none s
  | swapped {x : Swap} (miss : s.pageTable.lookup c.uniqueVpage = none)
      (full : pages ≤ s.allocatedPages)
      (nru : s.nruPage c.recentPage = some x.nruVpage)
      (mapped : s.pageTable.lookup x.nruVpage = some x.mappedPpage) :
      Mapped pages c s (some x) (s.exchange c x.nruVpage x.mappedPpage)
  | allocated {p : ℕ} {fragmented : Bool} (miss : s.pageTable.lookup c.uniqueVpage = none)
      (room : s.allocatedPages < pages) (free : s.inverseTable.lookup p = none)
      (source : (fragmented = false ∧ 0 < s.numAdjacentPage ∧
          p = (s.previousPpage + 1) % 2 ^ 64) ∨
        (fragmented = true ∧ p ∈ c.draws.map (·.val))) :
      Mapped pages c s none (s.install c p fragmented)

theorem map_ok (h : s.map pages c = .ok (w, s')) : Mapped pages c s w s' := by
  unfold map at h
  split at h
  · rename_i p hp
    cases h
    exact .found hp
  · rename_i hmiss
    split at h
    · rename_i hfull
      split at h
      · cases h
      · rename_i x s₁ hswap
        cases h
        obtain ⟨hnru, hmapped, rfl⟩ := swap_ok hswap
        exact .swapped hmiss hfull hnru hmapped
    · rename_i hroom
      split at h
      · cases h
      · rename_i s₁ halloc
        cases h
        obtain ⟨p, fragmented, hfree, hsource, rfl⟩ := allocate_ok halloc
        exact .allocated hmiss (by omega) hfree hsource

theorem vaToPa_ok (h : s.vaToPa pages c = .ok (t, s')) :
    ∃ s₁ p, Mapped pages c (s.countLine c.va) t.swapped s₁ ∧
      s₁.pageTable.lookup c.uniqueVpage = some p ∧ t.pa = physical p c.va ∧
      s' = s₁.stall c t.swapped.isSome := by
  unfold vaToPa at h
  split at h
  · cases h
  · split at h
    · cases h
    · rename_i w s₁ hmap
      split at h
      · cases h
      · rename_i p hp
        cases h
        exact ⟨s₁, p, map_ok hmap, hp, rfl, rfl⟩

/-! ## The tables stay inverse -/

/-- Both tables hold the pages allocated, and none of them so high that its
addresses leave 64 bits: a run goes on for at most 512 pages from a draw. -/
structure Exact (pages : ℕ) (s : Paging) : Prop where
  inverse : Bimap.Inverse s.pageTable s.inverseTable
  allocated : s.pageTable.keys.length = s.allocatedPages
  bounded : s.allocatedPages ≤ pages
  small : ∀ v p, s.pageTable.lookup v = some p → p < 2 ^ 36 + 512
  run : s.previousPpage + s.numAdjacentPage < 2 ^ 36 + 512

theorem Exact.initial (pages : ℕ) : Exact pages {} where
  inverse := Bimap.Inverse.empty
  allocated := rfl
  bounded := Nat.zero_le _
  small v p hp := by simp at hp
  run := by decide

/-- The bookkeeping of lines and stalls is beside the tables. -/
theorem Exact.countLine (h : Exact pages s) (va : ℕ) : Exact pages (s.countLine va) :=
  ⟨h.inverse, h.allocated, h.bounded, h.small, h.run⟩

theorem Exact.stall (h : Exact pages s) (c : PageCall) (b : Bool) : Exact pages (s.stall c b) :=
  ⟨h.inverse, h.allocated, h.bounded, h.small, h.run⟩

/-- Each branch keeps a translation that is not swapped out. -/
theorem Mapped.lookup (h : Mapped pages c s w s') {v p : ℕ}
    (hv : s.pageTable.lookup v = some p) (hw : ∀ x ∈ w, x.nruVpage ≠ v) :
    s'.pageTable.lookup v = some p := by
  have hne : s.pageTable.lookup c.uniqueVpage = none → v ≠ c.uniqueVpage := by
    rintro hmiss rfl
    rw [hmiss] at hv
    cases hv
  cases h with
  | found hit => exact hv
  | @swapped x miss full nru mapped =>
      have hnru : v ≠ x.nruVpage := fun heq => hw x rfl heq.symm
      change ((s.pageTable.erase x.nruVpage).insert c.uniqueVpage x.mappedPpage).lookup v = _
      rw [AList.lookup_insert_ne (hne miss), AList.lookup_erase_ne hnru, hv]
  | @allocated p' fragmented miss room free source =>
      change (s.pageTable.insert c.uniqueVpage p').lookup v = _
      rw [AList.lookup_insert_ne (hne miss), hv]

theorem Mapped.requested (h : Mapped pages c s w s') :
    ∃ p, s'.pageTable.lookup c.uniqueVpage = some p := by
  cases h with
  | found hit => exact ⟨_, hit⟩
  | swapped miss full nru mapped => exact ⟨_, AList.lookup_insert _⟩
  | allocated miss room free source => exact ⟨_, AList.lookup_insert _⟩

theorem install_numAdjacentPage (p : ℕ) (fragmented : Bool) :
    (s.install c p fragmented).numAdjacentPage =
      if fragmented then 2 ^ (c.rand % 10) else (s.numAdjacentPage + (2 ^ 64 - 1)) % 2 ^ 64 := rfl

theorem install_run {p : ℕ} {fragmented : Bool} (h : Exact pages s)
    (hsource : (fragmented = false ∧ 0 < s.numAdjacentPage ∧
        p = (s.previousPpage + 1) % 2 ^ 64) ∨
      (fragmented = true ∧ p ∈ c.draws.map (·.val))) :
    p + (s.install c p fragmented).numAdjacentPage < 2 ^ 36 + 512 ∧ p < 2 ^ 36 + 512 := by
  have hrun := h.run
  rcases hsource with ⟨rfl, hadj, rfl⟩ | ⟨rfl, hp⟩
  · have hnext : (s.previousPpage + 1) % 2 ^ 64 = s.previousPpage + 1 :=
      Nat.mod_eq_of_lt (by omega)
    have hleft : (s.numAdjacentPage + (2 ^ 64 - 1)) % 2 ^ 64 = s.numAdjacentPage - 1 := by
      omega
    rw [install_numAdjacentPage, if_neg Bool.false_ne_true, hnext, hleft]
    omega
  · obtain ⟨d, -, rfl⟩ := List.mem_map.mp hp
    have hd := d.isLt
    have hlen : 2 ^ (c.rand % 10) ≤ 2 ^ 9 :=
      Nat.pow_le_pow_right (by decide) (by omega)
    rw [install_numAdjacentPage, if_pos rfl]
    omega

theorem Exact.map (h : Exact pages s) (hm : Mapped pages c s w s') : Exact pages s' := by
  cases hm with
  | found hit => exact h
  | @swapped x miss full nru mapped =>
      refine ⟨h.inverse.rekey mapped miss, ?_, h.bounded, ?_, h.run⟩
      · exact (Bimap.length_keys_rekey mapped miss).trans h.allocated
      · intro v p hp
        change ((s.pageTable.erase x.nruVpage).insert c.uniqueVpage x.mappedPpage).lookup v = _
          at hp
        by_cases hv : v = c.uniqueVpage
        · rw [hv, AList.lookup_insert] at hp
          cases hp
          exact h.small _ _ mapped
        · rw [AList.lookup_insert_ne hv] at hp
          by_cases hn : v = x.nruVpage
          · rw [hn, AList.lookup_erase] at hp
            cases hp
          · rw [AList.lookup_erase_ne hn] at hp
            exact h.small v p hp
  | @allocated p fragmented miss room free source =>
      obtain ⟨hrun, hsmall⟩ := install_run h source
      refine ⟨h.inverse.insert miss free, ?_, room, ?_, hrun⟩
      · change (s.pageTable.insert c.uniqueVpage p).keys.length = s.allocatedPages + 1
        rw [Bimap.length_keys_insert miss, h.allocated]
      · intro v p' hp'
        change (s.pageTable.insert c.uniqueVpage p).lookup v = _ at hp'
        by_cases hv : v = c.uniqueVpage
        · rw [hv, AList.lookup_insert] at hp'
          cases hp'
          exact hsmall
        · rw [AList.lookup_insert_ne hv] at hp'
          exact h.small v p' hp'

theorem Exact.vaToPa (h : Exact pages s) (hc : s.vaToPa pages c = .ok (t, s')) :
    Exact pages s' := by
  obtain ⟨s₁, p, hm, -, -, rfl⟩ := vaToPa_ok hc
  exact ((h.countLine c.va).map hm).stall c _

theorem Exact.vaToPas {cs : List PageCall} {ts : List Translation} (h : Exact pages s)
    (hc : vaToPas pages cs s = .ok (ts, s')) : Exact pages s' := by
  induction cs generalizing s ts with
  | nil =>
      cases hc
      exact h
  | cons c cs ih =>
      rw [Paging.vaToPas] at hc
      split at hc
      · cases hc
      · rename_i t s₁ hfirst
        split at hc
        · cases hc
        · rename_i ts' s₂ hrest
          cases hc
          exact ih (h.vaToPa hfirst) hrest

/-! ## Translations -/

/-- `pa` holds the physical page above the offset. -/
theorem physical_eq {ppage va : ℕ} (hp : ppage < 2 ^ 52) :
    physical ppage va = ppage * 2 ^ 12 + va % 2 ^ 12 := by
  have hshift : (ppage <<< 12) % 2 ^ 64 = ppage <<< 12 := by
    rw [Nat.shiftLeft_eq]
    exact Nat.mod_eq_of_lt (by omega)
  have hoffset : va &&& (1 <<< 12 - 1) = va % 2 ^ 12 := Nat.and_two_pow_sub_one_eq_mod va 12
  have hlt : va % 2 ^ 12 < 2 ^ 12 := Nat.mod_lt _ (by decide)
  rw [physical, hshift, hoffset, ← Nat.shiftLeft_add_eq_or_of_lt hlt, Nat.shiftLeft_eq]

theorem vaToPa_pa (h : Exact pages s) (hc : s.vaToPa pages c = .ok (t, s')) :
    t.pa % 2 ^ 12 = c.va % 2 ^ 12 ∧
      s'.pageTable.lookup c.uniqueVpage = some (t.pa / 2 ^ 12) := by
  obtain ⟨s₁, p, hm, hp, hpa, rfl⟩ := vaToPa_ok hc
  have hsmall := ((h.countLine c.va).map hm).small _ _ hp
  rw [hpa, physical_eq (by omega)]
  refine ⟨by omega, ?_⟩
  rw [show (p * 2 ^ 12 + c.va % 2 ^ 12) / 2 ^ 12 = p by omega]
  exact hp

theorem vaToPa_lookup (hc : s.vaToPa pages c = .ok (t, s')) {v p : ℕ}
    (hv : s.pageTable.lookup v = some p) (hw : ∀ x ∈ t.swapped, x.nruVpage ≠ v) :
    s'.pageTable.lookup v = some p := by
  obtain ⟨s₁, p', hm, -, -, rfl⟩ := vaToPa_ok hc
  exact hm.lookup (s := s.countLine c.va) hv hw

theorem vaToPas_lookup {cs : List PageCall} {ts : List Translation}
    (hc : vaToPas pages cs s = .ok (ts, s')) {v p : ℕ}
    (hv : s.pageTable.lookup v = some p) (hw : ∀ t ∈ ts, ∀ x ∈ t.swapped, x.nruVpage ≠ v) :
    s'.pageTable.lookup v = some p := by
  induction cs generalizing s ts with
  | nil =>
      cases hc
      exact hv
  | cons c cs ih =>
      rw [Paging.vaToPas] at hc
      split at hc
      · cases hc
      · rename_i t s₁ hfirst
        split at hc
        · cases hc
        · rename_i ts' s₂ hrest
          cases hc
          have hstep := vaToPa_lookup hfirst hv fun x hx => hw t (by simp) x hx
          exact ih hrest hstep fun t' ht' => hw t' (List.mem_cons_of_mem _ ht')

/-! ## The assertions -/

/-- What a caller and the random numbers have to see to. -/
structure Servable (pages : ℕ) (c : PageCall) (s : Paging) : Prop where
  va : c.va ≠ 0
  nru : s.pageTable.lookup c.uniqueVpage = none → pages ≤ s.allocatedPages →
    ∃ v p, s.pageTable.lookup v = some p ∧ v ∉ c.recentPage
  search : s.pageTable.lookup c.uniqueVpage = none → s.allocatedPages < pages →
    ∃ p ∈ s.candidates c, s.inverseTable.lookup p = none

theorem emptyPage_of_free (fragmented : Bool) {l : List ℕ}
    (h : ∃ p ∈ l, s.inverseTable.lookup p = none) :
    ∃ r, s.emptyPage fragmented l = .ok r := by
  induction l generalizing fragmented with
  | nil =>
      obtain ⟨p, hp, -⟩ := h
      cases hp
  | cons q ps ih =>
      rw [emptyPage]
      cases hq : s.inverseTable.lookup q with
      | none => exact ⟨_, rfl⟩
      | some v =>
          obtain ⟨p, hp, hfree⟩ := h
          rcases List.mem_cons.mp hp with rfl | hmem
          · rw [hfree] at hq
            cases hq
          · exact ih _ ⟨p, hmem, hfree⟩

theorem nruPage_of_old {recentPage : List ℕ} (h : ∃ v p, s.pageTable.lookup v = some p ∧
    v ∉ recentPage) :
    ∃ nru p, s.nruPage recentPage = some nru ∧ s.pageTable.lookup nru = some p := by
  obtain ⟨v, p, hp, hold⟩ := h
  have hmem : v ∈ s.pageTable.keys.filter fun v => v ∉ recentPage :=
    List.mem_filter.mpr ⟨Bimap.mem_keys_of_lookup hp, decide_eq_true hold⟩
  cases hmin : s.nruPage recentPage with
  | none =>
      rw [List.min?_eq_none_iff.mp hmin] at hmem
      cases hmem
  | some nru =>
      have hnru := List.min?_mem hmin
      obtain ⟨p', hp'⟩ := Bimap.lookup_of_mem_keys (List.mem_filter.mp hnru).1
      exact ⟨nru, p', rfl, hp'⟩

theorem map_of_servable (h : Exact pages s) (hc : Servable pages c s) :
    ∃ r, s.map pages c = .ok r := by
  unfold Paging.map
  cases hhit : s.pageTable.lookup c.uniqueVpage with
  | some p => exact ⟨_, rfl⟩
  | none =>
      by_cases hfull : pages ≤ s.allocatedPages
      · obtain ⟨nru, p, hnru, hp⟩ := nruPage_of_old (hc.nru hhit hfull)
        simp only [hfull, swap, hnru, hp, (h.inverse nru p).mp hp]
        exact ⟨_, rfl⟩
      · obtain ⟨⟨p, fragmented⟩, hsearch⟩ :=
          emptyPage_of_free (decide (s.numAdjacentPage = 0)) (hc.search hhit (by omega))
        simp only [hfull, allocate, hsearch]
        exact ⟨_, rfl⟩

/-- The assertions on the tables hold. -/
theorem vaToPa_of_servable (h : Exact pages s) (hc : Servable pages c s) :
    ∃ t s', s.vaToPa pages c = .ok (t, s') := by
  obtain ⟨⟨w, s₁⟩, hmap⟩ := map_of_servable (h.countLine c.va) (c := c)
    ⟨hc.va, hc.nru, hc.search⟩
  obtain ⟨p, hp⟩ := (map_ok hmap).requested
  unfold Paging.vaToPa
  rw [if_neg hc.va, hmap]
  simp only [hp]
  exact ⟨_, _, rfl⟩

/-! ## The mapping -/

/-- A partial bijection between the virtual and the physical pages, of at most
`pages` pairs. -/
structure Bijective (pages : ℕ) (s : Paging) : Prop where
  mapping : ∃ m : ℕ ≃. ℕ, (∀ v, m v = s.pageTable.lookup v) ∧
    ∀ p, m.symm p = s.inverseTable.lookup p
  pageTable_length : s.pageTable.keys.length = s.allocatedPages
  inverseTable_length : s.inverseTable.keys.length = s.allocatedPages
  bounded : s.allocatedPages ≤ pages
  injective : ∀ v v' p, s.pageTable.lookup v = some p → s.pageTable.lookup v' = some p → v = v'

theorem Exact.bijective (h : Exact pages s) : Bijective pages s where
  mapping := ⟨h.inverse.toPEquiv, fun _ => rfl, fun _ => rfl⟩
  pageTable_length := h.allocated
  inverseTable_length := h.inverse.length_keys.trans h.allocated
  bounded := h.bounded
  injective _ _ _ hv hv' := h.inverse.injective hv hv'

/-- After any calls the tables are a bijection, and a further call only fails
for a zero address, for want of a page to swap, or in its search; its result
is the page the table then has for `vpage`, at the offset of `va`. A
translation lasts until its page is swapped out. -/
theorem page_mapping {cs : List PageCall} {ts : List Translation}
    (h : vaToPas pages cs {} = .ok (ts, s)) :
    Bijective pages s ∧
      (∀ c, Servable pages c s → ∃ t s', s.vaToPa pages c = .ok (t, s')) ∧
      (∀ c t s', s.vaToPa pages c = .ok (t, s') →
        t.pa % 2 ^ 12 = c.va % 2 ^ 12 ∧
          s'.pageTable.lookup c.uniqueVpage = some (t.pa / 2 ^ 12)) ∧
      ∀ cs' ts' s' v p, vaToPas pages cs' s = .ok (ts', s') →
        s.pageTable.lookup v = some p →
        (∀ t ∈ ts', ∀ x ∈ t.swapped, x.nruVpage ≠ v) →
        s'.pageTable.lookup v = some p := by
  have hexact := (Exact.initial pages).vaToPas h
  refine ⟨hexact.bijective, fun c hc => vaToPa_of_servable hexact hc,
    fun c t s' hc => vaToPa_pa hexact hc, ?_⟩
  intro cs' ts' s' v p hcs hv hw
  exact vaToPas_lookup hcs hv hw

/-- Room for two pages: a draw, the next page of its run, two swaps. -/
def crowdedCalls : List PageCall :=
  [{ va := 0x1001, uniqueVpage := 1, draws := [7], rand := 1 },
   { va := 0x2001, uniqueVpage := 2 },
   { va := 0x3005, uniqueVpage := 3 },
   { va := 0x2003, uniqueVpage := 2 },
   { va := 0x1001, uniqueVpage := 1, recentPage := [2] }]

theorem page_mapping_crowded : ∃ ts s, vaToPas 2 crowdedCalls {} = .ok (ts, s) ∧
    ts = [⟨0x7001, none⟩, ⟨0x8001, none⟩, ⟨0x7005, some ⟨1, 7⟩⟩, ⟨0x8003, none⟩,
      ⟨0x7001, some ⟨3, 7⟩⟩] ∧
    Bijective 2 s := by
  have hrun : (vaToPas 2 crowdedCalls {}).toOption.map (·.1) =
      some [⟨0x7001, none⟩, ⟨0x8001, none⟩, ⟨0x7005, some ⟨1, 7⟩⟩, ⟨0x8003, none⟩,
        ⟨0x7001, some ⟨3, 7⟩⟩] := by decide +kernel
  cases hall : vaToPas 2 crowdedCalls {} with
  | error e =>
      rw [hall] at hrun
      cases hrun
  | ok r =>
      obtain ⟨ts, s⟩ := r
      rw [hall] at hrun
      exact ⟨ts, s, rfl, Option.some.inj hrun, (page_mapping hall).1⟩

end Paging

end DramCache
