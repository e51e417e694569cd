import DramCache.LiveLines

/-!
# One way for each line

A line is installed by a fill, for an entry of the MSHR, or by a write-back
that misses. A fill finds no other copy as long as no line that an entry waits
for is in the cache (`Apart`), and only a write-back can bring one in:
`handle_writeback` installs its line without a look at the MSHR, as the
first-level data cache has. While it is not asked to do that for a line in
flight, no two valid ways of a set hold the same line (`tags_distinct`).
-/

namespace DramCache

open Worklist (ReachesIf Reaches Staged)

namespace CacheQueue

/-! ## The lines of an MSHR of any size -/

/-- An entry waits for this line. -/
def Holding (q : CacheQueue) (a : Nat) : Prop := a ≠ 0 ∧ ∃ i, (q.entryAt i).address = a

/-- What is true of an MSHR, whatever its size. -/
structure Tidy (q : CacheQueue) : Prop where
  unique : ∀ i j, (q.entryAt i).address ≠ 0 → (q.entryAt i).address = (q.entryAt j).address →
    i = j
  live : ∀ i, (q.entryAt i).returned = .idle ↔ (q.entryAt i).address = 0
  next : q.nextFillCycle = uint64Max ∨ (q.entryAt q.nextFillIndex).returned = .completed

variable {q q' : CacheQueue} {a i j : Nat} {e : CachePacket}

theorem new_entryAt (size i : Nat) : (new size).entryAt i = {} := by
  unfold new entryAt
  by_cases hi : i < size
  · simp [hi]
  · simp [hi]

theorem new_tidy (size : Nat) : (new size).Tidy where
  unique i j h := by
    rw [new_entryAt] at h
    exact absurd rfl h
  live i := by
    rw [new_entryAt]
    exact ⟨fun _ => rfl, fun _ => rfl⟩
  next := .inl rfl

/-- Entries that keep their address and their state. -/
theorem Tidy.congr (h : q.Tidy) (ha : ∀ i, (q'.entryAt i).address = (q.entryAt i).address)
    (hr : ∀ i, (q'.entryAt i).returned = (q.entryAt i).returned)
    (hc : q'.nextFillCycle = q.nextFillCycle) (hi : q'.nextFillIndex = q.nextFillIndex) :
    q'.Tidy where
  unique i j := by
    rw [ha, ha]
    exact h.unique i j
  live i := by
    rw [ha, hr]
    exact h.live i
  next := by
    rw [hc, hi, hr]
    exact h.next

theorem lines_congr (hl : q'.lines = q.lines) : q'.checkMshr a = q.checkMshr a := by
  have hfind : ∀ q : CacheQueue, q.checkMshr a = q.lines.findIdx? (· == a) := fun q => by
    rw [checkMshr, lines, List.findIdx?_map]
    rfl
  rw [hfind, hfind, hl]

theorem entryAt_address (q : CacheQueue) (i : Nat) :
    (q.entryAt i).address = (q.lines[i]?).getD 0 := by
  rw [lines, List.getElem?_map, entryAt]
  cases q.entry[i]? <;> rfl

theorem address_congr (hl : q'.lines = q.lines) (i : Nat) :
    (q'.entryAt i).address = (q.entryAt i).address := by
  rw [entryAt_address, entryAt_address, hl]

theorem holding_congr (hl : q'.lines = q.lines) : q'.Holding a ↔ q.Holding a := by
  simp only [Holding, address_congr hl]

theorem not_holding_of_checkMshr (h : q.checkMshr a = none) : ¬ q.Holding a := by
  rintro ⟨ha, i, hi⟩
  rw [entryAt_address] at hi
  cases hl : q.lines[i]? with
  | none =>
      rw [hl] at hi
      exact ha hi.symm
  | some b =>
      rw [hl] at hi
      exact checkMshr_none h (List.mem_of_getElem? (hl.trans (congrArg some hi)))

/-- A packet that takes the place of one for the same line. -/
theorem setEntry_lines (h : e.address = (q.entryAt i).address) :
    (q.setEntry i e).lines = q.lines := by
  rw [lines_setEntry, set_same]
  intro hi
  rw [lines, List.length_map] at hi
  rw [lines_get hi, h]

theorem Tidy.merge (h : q.Tidy) (ha : e.address = (q.entryAt i).address)
    (hr : e.returned = (q.entryAt i).returned) : (q.setEntry i e).Tidy := by
  refine h.congr (address_congr (setEntry_lines ha)) (fun j => ?_) rfl rfl
  rw [entryAt_setEntry]
  split
  · rename_i hij
    rw [← hij.1]
    exact hr
  · rfl

theorem Tidy.complete (h : q.Tidy) (ha : a ≠ 0) (hj : q.checkMshr a = some j)
    (he : e.address = a) (hr : e.returned = .completed) :
    (q.setEntry j e).updateFillCycle.Tidy ∧ (q.setEntry j e).updateFillCycle.lines = q.lines := by
  have hline : e.address = (q.entryAt j).address := he.trans (checkMshr_some hj).2.symm
  have hlines : (q.setEntry j e).updateFillCycle.lines = q.lines := setEntry_lines hline
  refine ⟨⟨?_, fun i => ?_, updateFillCycle_next _⟩, hlines⟩
  · intro i k
    rw [address_congr hlines, address_congr hlines]
    exact h.unique i k
  · rw [address_congr hlines, updateFillCycle_entryAt, entryAt_setEntry]
    split
    · rename_i hij
      rw [← hij.1, ← hline, he, hr]
      simp [ha]
    · exact h.live i

/-- Without a free entry nothing is added. -/
theorem addMshr_cases (q : CacheQueue) (e : CachePacket) :
    q.addMshr e = q ∨ ∃ i, q.checkMshr 0 = some i ∧
      (∀ k, (q.addMshr e).entryAt k =
        if i = k then { e with returned := .inflight } else q.entryAt k) ∧
      (q.addMshr e).nextFillCycle = q.nextFillCycle ∧
      (q.addMshr e).nextFillIndex = q.nextFillIndex := by
  unfold CacheQueue.addMshr
  split
  · exact .inl rfl
  · rename_i i hi
    refine .inr ⟨i, hi, fun k => ?_, rfl, rfl⟩
    refine (entryAt_setEntry q i k _).trans ?_
    simp [(checkMshr_some hi).1]

theorem Tidy.addMshr (h : q.Tidy) (hnew : q.checkMshr e.address = none) :
    (q.addMshr e).Tidy ∧
      ∀ a, (q.addMshr e).Holding a → q.Holding a ∨ a = e.address := by
  rcases q.addMshr_cases e with heq | ⟨i, hi, hat, hcycle, hindex⟩
  · rw [heq]
    exact ⟨h, fun a ha => .inl ha⟩
  · have hne : e.address ≠ 0 := fun h0 => by
      rw [h0, hi] at hnew
      cases hnew
    have hidle : (q.entryAt i).returned = .idle := (h.live i).mpr (checkMshr_some hi).2
    have hother : ∀ k, (q.entryAt k).address ≠ e.address := fun k hk =>
      not_holding_of_checkMshr hnew ⟨hne, k, hk⟩
    refine ⟨⟨fun j k => ?_, fun k => ?_, ?_⟩, ?_⟩
    · rw [hat, hat]
      split
      · rename_i hij
        split
        · rename_i hik
          exact fun _ _ => hij.symm.trans hik
        · exact fun _ heq => absurd heq.symm (hother k)
      · split
        · exact fun _ heq => absurd heq (hother j)
        · exact h.unique j k
    · rw [hat]
      split
      · simp [hne]
      · exact h.live k
    · rw [hcycle, hindex, hat]
      refine h.next.imp id fun hn => ?_
      rw [if_neg]
      · exact hn
      · rintro rfl
        rw [hidle] at hn
        cases hn
    · rintro a ⟨ha, k, hk⟩
      rw [hat] at hk
      split at hk
      · exact .inr hk.symm
      · exact .inl ⟨ha, k, hk⟩

theorem removeFrom_entryAt (hr : Cache.removeFrom q i = .ok q') (k : Nat) :
    q'.entryAt k = if i = k then {} else q.entryAt k := by
  have hentry : q'.entry = (q.setEntry i {}).entry := by
    unfold Cache.removeFrom at hr
    split at hr
    · rename_i hq
      cases hr
      unfold removeQueue at hq
      split at hq
      · cases hq
      · exact (Option.some.inj hq) ▸ rfl
    · cases hr
  have hat : q'.entryAt k = (q.setEntry i {}).entryAt k := by
    unfold entryAt
    rw [hentry]
  rw [hat, entryAt_setEntry]
  by_cases hik : i = k
  · subst hik
    by_cases hi : i < q.entry.length
    · simp [hi]
    · simp [hi, entryAt_of_length_le (not_lt.mp hi)]
  · simp [hik]

/-- A filled entry leaves, and with it its line. -/
theorem Tidy.remove (h : q.Tidy) (hr : Cache.removeFrom q i = .ok q') :
    q'.updateFillCycle.Tidy ∧
      ∀ a, q'.updateFillCycle.Holding a → q.Holding a ∧ a ≠ (q.entryAt i).address := by
  have hat : ∀ k, q'.updateFillCycle.entryAt k = if i = k then {} else q.entryAt k := fun k =>
    removeFrom_entryAt hr k
  refine ⟨⟨fun j k => ?_, fun k => ?_, updateFillCycle_next _⟩, ?_⟩
  · rw [hat, hat]
    split
    · exact fun h0 => absurd rfl h0
    · split
      · exact fun h0 heq => absurd heq h0
      · exact h.unique j k
  · rw [hat]
    split
    · simp
    · exact h.live k
  · rintro a ⟨ha, k, hk⟩
    rw [hat] at hk
    split at hk
    · exact absurd hk.symm ha
    · rename_i hik
      refine ⟨⟨ha, k, hk⟩, fun heq => hik ?_⟩
      exact (h.unique k i (by rw [hk]; exact ha) (hk.trans heq)).symm

end CacheQueue

namespace Cache

/-! ## Lines of a set -/

/-- No two valid lines of a set have one tag. -/
def TagsDistinct (L : Nat → List Line) : Prop :=
  ∀ (set i j : Nat) (l l' : Line), (L set)[i]? = some l → (L set)[j]? = some l' →
    l.valid = true → l'.valid = true → l.tag = l'.tag → i = j

/-- The line is not in the cache. -/
def Absent (cfg : CacheConfig) (L : Nat → List Line) (a : Nat) : Prop :=
  ∀ l ∈ L (cfg.getSet a), l.valid = true → l.tag ≠ a

variable {cfg : CacheConfig} {s s' : Cache} {ks : List CacheCall} {c : CacheCall}
  {L : Nat → List Line} {set way : Nat} {l : Line} {a : Nat}

theorem checkHit_none (h : s.checkHit cfg a = none) : Absent cfg s.lines a := by
  intro l hl hv htag
  obtain ⟨b, hb, rfl⟩ := List.mem_map.mp hl
  have hno := List.findIdx?_eq_none_iff.mp h b hb
  change b.valid = true at hv
  change b.tag = a at htag
  simp [hv, htag] at hno

theorem putLine_get {set' i : Nat} {l' : Line}
    (h : (putLine L set way l set')[i]? = some l') :
    (set' = set ∧ i = way ∧ l' = l) ∨ (L set')[i]? = some l' ∧ (set' = set → i ≠ way) := by
  unfold putLine at h
  by_cases hs : set' = set
  · subst hs
    rw [Function.update_self, List.getElem?_set] at h
    split at h
    · rename_i hw
      split at h
      · exact .inl ⟨rfl, hw.symm, (Option.some.inj h).symm⟩
      · cases h
    · rename_i hw
      exact .inr ⟨h, fun _ => Ne.symm hw⟩
  · rw [Function.update_of_ne hs] at h
    exact .inr ⟨h, fun heq => absurd heq hs⟩

/-- A line that is put where no other way has its tag. -/
theorem TagsDistinct.put (h : TagsDistinct L)
    (hl : l.valid = true → ∀ (i : Nat) (l' : Line), (L set)[i]? = some l' → l'.valid = true →
      l'.tag = l.tag → i = way) : TagsDistinct (putLine L set way l) := by
  intro set' i j l₁ l₂ hi hj hv₁ hv₂ htag
  rcases putLine_get hi with ⟨hs, hiw, rfl⟩ | ⟨hi', -⟩ <;>
    rcases putLine_get hj with ⟨hs', hjw, rfl⟩ | ⟨hj', -⟩
  · exact hiw.trans hjw.symm
  · rw [hs] at hj'
    exact hiw.trans (hl hv₁ j l₂ hj' hv₂ htag.symm).symm
  · rw [hs'] at hi'
    exact (hl hv₂ i l₁ hi' hv₁ htag).trans hjw.symm
  · exact h set' i j l₁ l₂ hi' hj' hv₁ hv₂ htag

theorem TagsDistinct.fill (h : TagsDistinct L) (hset : set = cfg.getSet l.tag)
    (habs : Absent cfg L l.tag) : TagsDistinct (putLine L set way l) := by
  refine h.put fun _ i l' hi hv htag => absurd htag (habs l' ?_ hv)
  rw [← hset]
  exact List.mem_of_getElem? hi

/-- A line that changes its flags, and does not become valid by it. -/
theorem TagsDistinct.flags {l₀ : Line} (h : TagsDistinct L) (hold : (L set)[way]? = some l₀)
    (htag : l.tag = l₀.tag) (hv : l.valid = true → l₀.valid = true) :
    TagsDistinct (putLine L set way l) :=
  h.put fun hl i l' hi hv' htag' => h set i way l' l₀ hi hold hv' (hv hl) (htag'.trans htag)

theorem Absent.put (h : Absent cfg L a) (hl : set = cfg.getSet a → l.valid = true → l.tag ≠ a) :
    Absent cfg (putLine L set way l) a := by
  intro l' hmem hv
  rcases mem_putLine hmem with hold | ⟨hs, rfl⟩
  · exact h l' hold hv
  · exact hl hs.symm hv

theorem Absent.flags {l₀ : Line} (h : Absent cfg L a) (hold : (L set)[way]? = some l₀)
    (htag : l.tag = l₀.tag) (hv : l.valid = true → l₀.valid = true) :
    Absent cfg (putLine L set way l) a := by
  refine h.put fun hs hl => ?_
  rw [htag]
  exact h l₀ (hs ▸ List.mem_of_getElem? hold) (hv hl)

/-- A valid block is one of the set. -/
theorem blockAt_get (h : (s.blockAt set way).valid = true) :
    (s.lines set)[way]? = some (s.blockAt set way).line := by
  rw [lines, linesOf, List.getElem?_map]
  unfold blockAt Lru.blockAt at h ⊢
  cases hb : (s.block set)[way]? with
  | none =>
      rw [hb] at h
      cases h
  | some b => rfl

/-! ## The invariant -/

/-- Lines in the cache and lines that the MSHR waits for are apart. -/
structure Apart (cfg : CacheConfig) (s : Cache) : Prop where
  distinct : TagsDistinct s.lines
  mshr : s.mshr.Tidy
  absent : ∀ a, s.mshr.Holding a → Absent cfg s.lines a

theorem new_apart (cfg : CacheConfig) : Apart cfg (new cfg) where
  distinct := by
    intro set i j l l' hi _ hv
    obtain ⟨b, hb, rfl⟩ := List.mem_map.mp (List.mem_of_getElem? hi)
    obtain ⟨k, -, rfl⟩ := List.mem_map.mp hb
    cases hv
  mshr := CacheQueue.new_tidy _
  absent := by
    rintro a ⟨ha, i, hi⟩
    rw [show (new cfg).mshr = .new cfg.mshrSize from rfl, CacheQueue.new_entryAt] at hi
    exact absurd hi.symm ha

/-- What has to be true when a call is executed that waited for others. -/
def Ready (cfg : CacheConfig) (s : Cache) : CacheCall → Prop
  | .finishFill i set _ =>
      (s.mshr.entryAt i).address ≠ 0 ∧ set = cfg.getSet (s.mshr.entryAt i).address
  | .finishWriteback i set _ =>
      set = cfg.getSet (s.wq.entryAt i).address ∧
        Absent cfg s.lines (s.wq.entryAt i).address ∧
        ¬ s.mshr.Holding (s.wq.entryAt i).address
  | .prefetchMiss i _ =>
      s.mshr.checkMshr 0 = none ∨
        (s.pq.entryAt i).address ≠ 0 ∧ s.mshr.checkMshr (s.pq.entryAt i).address = none ∧
          Absent cfg s.lines (s.pq.entryAt i).address
  | .walked i => s.mshr.checkMshr 0 = none ∨ (s.rq.entryAt i).address ≠ 0
  | _ => True

/-- The calls that come in between. -/
def light : CacheCall → Bool
  | .addPq _ | .invalidateEntry _ | .returnData _ | .prefetcher _ | .prefetch _ _ => true
  | _ => false

/-- The calls that are ready in any state. -/
def plain : CacheCall → Bool
  | .finishFill .. | .finishWriteback .. | .prefetchMiss .. | .walked _ => false
  | _ => true

theorem Ready.of_plain (h : plain c = true) : Ready cfg s c := by
  cases c <;> first | (cases h; done) | trivial

/-- The block can go: it is clean, or nothing keeps the lower level from taking
it. -/
def canEvict (cfg : CacheConfig) (s : Cache) (victim : Block) : Bool :=
  !(victim.dirty && cfg.lowerLevel && s.lowerFull)

/-- The write at the head of the queue is a miss, and `handle_writeback` is to
install it. -/
def Installs (cfg : CacheConfig) (s : Cache) : Prop :=
  let set := cfg.getSet (s.wq.entryAt s.wq.head).address
  cfg.cacheType ≠ .l1d ∧ s.Due s.wq ∧
    s.checkHit cfg (s.wq.entryAt s.wq.head).address = none ∧
    (s.findVictim cfg set).all (fun way => s.canEvict cfg (s.blockAt set way)) = true

instance : Decidable (Installs cfg s) := inferInstanceAs (Decidable (_ ∧ _ ∧ _ ∧ _))

/-- The condition: a line that `handle_writeback` installs is not in flight. -/
def installsApart (cfg : CacheConfig) (s : Cache) : CacheCall → Bool
  | .handleWriteback =>
      decide (Installs cfg s → (s.wq.entryAt s.wq.head).address = 0 ∨
        s.mshr.checkMshr (s.wq.entryAt s.wq.head).address = none)
  | _ => true

/-- Calls that wait as they may. -/
abbrev Lined (cfg : CacheConfig) (s : Cache) (ks : List CacheCall) : Prop :=
  Staged (light · = true) (plain · = true) (Ready cfg) s ks

theorem lined_plain (h : ∀ d ∈ ks, plain d = true) : Lined cfg s ks :=
  Staged.append .nil h fun _ => Ready.of_plain

/-! ## Light calls -/

/-- What a light call leaves to those that wait. -/
structure Leaves (cfg : CacheConfig) (s s' : Cache) : Prop where
  wq : s'.wq = s.wq
  rq : s'.rq = s.rq
  mshr : s'.mshr.lines = s.mshr.lines
  absent : ∀ a, Absent cfg s.lines a → Absent cfg s'.lines a
  pq : ∀ i, (s.pq.entryAt i).address ≠ 0 → (s'.pq.entryAt i).address = (s.pq.entryAt i).address

theorem Leaves.of_eq (hw : s'.wq = s.wq) (hr : s'.rq = s.rq) (hm : s'.mshr = s.mshr)
    (hb : s'.block = s.block) (hp : s'.pq = s.pq) : Leaves cfg s s' where
  wq := hw
  rq := hr
  mshr := by rw [hm]
  absent a h := by
    unfold lines at h ⊢
    rwa [hb]
  pq i _ := by rw [hp]

theorem Leaves.ready (h : Leaves cfg s s') (hc : Ready cfg s c) : Ready cfg s' c := by
  cases c with
  | finishFill i set way =>
      change (s'.mshr.entryAt i).address ≠ 0 ∧ set = cfg.getSet (s'.mshr.entryAt i).address
      rw [CacheQueue.address_congr h.mshr]
      exact hc
  | finishWriteback i set way =>
      obtain ⟨hset, habs, hheld⟩ := hc
      change set = cfg.getSet (s'.wq.entryAt i).address ∧ _ ∧ _
      rw [h.wq]
      exact ⟨hset, h.absent _ habs, fun hh => hheld ((CacheQueue.holding_congr h.mshr).mp hh)⟩
  | prefetchMiss i left =>
      rcases hc with hfull | ⟨ha, hnew, habs⟩
      · exact .inl ((CacheQueue.lines_congr h.mshr).trans hfull)
      · refine .inr ?_
        rw [h.pq i ha]
        exact ⟨ha, (CacheQueue.lines_congr h.mshr).trans hnew, h.absent _ habs⟩
  | walked i =>
      change s'.mshr.checkMshr 0 = none ∨ (s'.rq.entryAt i).address ≠ 0
      rw [h.rq, CacheQueue.lines_congr h.mshr]
      exact hc
  | _ => trivial

theorem addPq_leaves {pkt : CachePacket} {rc : Int} (h : s.addPq cfg pkt = .ok (s', rc)) :
    Leaves cfg s s' ∧ s'.mshr = s.mshr := by
  have hset : ∀ {j : Nat} {e : CachePacket} {q : CacheQueue},
      (∀ k, q.entryAt k = (s.pq.setEntry j e).entryAt k) →
      ((s.pq.entryAt j).address ≠ 0 → e.address = (s.pq.entryAt j).address) →
      Leaves cfg s { s with pq := q } := by
    intro j e q hq he
    refine ⟨rfl, rfl, rfl, fun _ ha => ha, fun i hi => ?_⟩
    change (q.entryAt i).address = _
    rw [hq, CacheQueue.entryAt_setEntry]
    split
    · rename_i hij
      rw [← hij.1] at hi ⊢
      exact he hi
    · rfl
  unfold addPq at h
  split at h
  · cases h
    exact ⟨.of_eq rfl rfl rfl rfl rfl, rfl⟩
  · split at h
    · cases h
      exact ⟨hset (fun _ => rfl) fun _ => rfl, rfl⟩
    · split at h
      · cases h
        exact ⟨.of_eq rfl rfl rfl rfl rfl, rfl⟩
      · split at h
        · cases h
        · rename_i hempty
          split at h
          · cases h
          · cases h
            -- the packet goes to an entry without an address
            exact ⟨hset (j := s.pq.tail) (fun _ => rfl) fun hne => absurd hne hempty, rfl⟩

/-- A completed entry keeps its line. -/
theorem returnData_ok {pkt : CachePacket} (h : s.returnData pkt = .ok s') :
    ∃ j m, s.mshr.checkMshr pkt.address = some j ∧ m.address = pkt.address ∧
      m.returned = .completed ∧
      s' = { s with mshr := (s.mshr.setEntry j m).updateFillCycle } := by
  unfold returnData at h
  split at h
  · cases h
  · rename_i j hj
    cases h
    refine ⟨j, _, hj, ?_, ?_, rfl⟩
    · exact (CacheQueue.checkMshr_some hj).2
    · rfl

theorem complete_lines {j : Nat} {m : CachePacket} (hj : s.mshr.checkMshr a = some j)
    (ha : m.address = a) : (s.mshr.setEntry j m).updateFillCycle.lines = s.mshr.lines :=
  CacheQueue.setEntry_lines (ha.trans (CacheQueue.checkMshr_some hj).2.symm)

theorem invalidateEntry_leaves (a : Nat) : Leaves cfg s (s.invalidateEntry cfg a) := by
  unfold invalidateEntry
  split
  · rename_i way hhit
    refine ⟨rfl, rfl, rfl, fun b hb => ?_, fun _ _ => rfl⟩
    rw [setBlock_lines]
    refine hb.flags (blockAt_get (checkHit_some hhit).2.1) rfl ?_
    exact fun hv => by cases hv
  · exact .of_eq rfl rfl rfl rfl rfl

theorem exec_light (hc : light c = true) (h : s.exec cfg c = .ok (s', ks)) :
    Leaves cfg s s' ∧ ∀ d ∈ ks, light d = true := by
  cases c with
  | addPq pkt =>
      obtain ⟨hl, rfl⟩ := last_ok h
      obtain ⟨⟨s₁, rc⟩, hr, rfl⟩ := map_ok hl
      exact ⟨(addPq_leaves hr).1, by simp⟩
  | invalidateEntry a =>
      cases h
      exact ⟨invalidateEntry_leaves a, by simp⟩
  | returnData r =>
      obtain ⟨hl, rfl⟩ := last_ok h
      obtain ⟨j, m, hj, ha, -, rfl⟩ := returnData_ok hl
      exact ⟨⟨rfl, rfl, complete_lines hj ha, fun _ hb => hb, fun _ _ => rfl⟩, by simp⟩
  | prefetcher cpu =>
      cases h
      refine ⟨.of_eq rfl rfl rfl rfl rfl, fun d hd => ?_⟩
      obtain ⟨act, -, rfl⟩ := List.mem_map.mp hd
      rfl
  | prefetch cpu act =>
      cases act with
      | line p =>
          cases h
          refine ⟨.of_eq rfl rfl rfl rfl rfl, fun d hd => ?_⟩
          split at hd
          · rw [List.mem_singleton.mp hd]
            rfl
          · cases hd
      | codeLine vAddr pa invalidated =>
          change s.prefetch cfg cpu (.codeLine vAddr pa invalidated) = _ at h
          rw [prefetch] at h
          split at h
          · cases h
          · cases h
            refine ⟨.of_eq rfl rfl rfl rfl rfl, fun d hd => ?_⟩
            split at hd
            · rcases List.mem_append.mp hd with hd | hd
              · obtain ⟨a, -, rfl⟩ := List.mem_map.mp hd
                rfl
              · rw [List.mem_singleton.mp hd]
                rfl
            · cases hd
  | _ => cases hc

/-! ## What a call does to the MSHR -/

inductive MshrEffect (cfg : CacheConfig) (s : Cache) : CacheQueue → Prop
  | kept : MshrEffect cfg s s.mshr
  | added (e : CachePacket) (new : s.mshr.checkMshr e.address = none)
      (absent : Absent cfg s.lines e.address) : MshrEffect cfg s (s.mshr.addMshr e)
  | merged {j : Nat} {m : CachePacket} (address : m.address = (s.mshr.entryAt j).address)
      (returned : m.returned = (s.mshr.entryAt j).returned) :
      MshrEffect cfg s (s.mshr.setEntry j m)
  | completed {a j : Nat} {m : CachePacket} (ne : a ≠ 0) (held : s.mshr.checkMshr a = some j)
      (address : m.address = a) (returned : m.returned = .completed) :
      MshrEffect cfg s (s.mshr.setEntry j m).updateFillCycle
  | removed {i : Nat} {q : CacheQueue} (remove : removeFrom s.mshr i = .ok q) :
      MshrEffect cfg s q.updateFillCycle

/-- A line that is waited for afterwards was waited for, or is absent. -/
theorem MshrEffect.tidy {q : CacheQueue} (h : MshrEffect cfg s q) (ht : s.mshr.Tidy) :
    q.Tidy ∧ ∀ a, q.Holding a → s.mshr.Holding a ∨ Absent cfg s.lines a := by
  cases h with
  | kept => exact ⟨ht, fun _ ha => .inl ha⟩
  | added e new absent =>
      obtain ⟨htidy, hheld⟩ := ht.addMshr new
      refine ⟨htidy, fun a ha => (hheld a ha).imp id fun heq => ?_⟩
      rw [heq]
      exact absent
  | merged address returned =>
      refine ⟨ht.merge address returned, fun a ha => .inl ?_⟩
      exact (CacheQueue.holding_congr (CacheQueue.setEntry_lines address)).mp ha
  | completed ne held address returned =>
      obtain ⟨htidy, hlines⟩ := ht.complete ne held address returned
      exact ⟨htidy, fun a ha => .inl ((CacheQueue.holding_congr hlines).mp ha)⟩
  | removed remove =>
      obtain ⟨htidy, hheld⟩ := ht.remove remove
      exact ⟨htidy, fun a ha => .inl (hheld a ha).1⟩

/-- What the proof needs of a call: the MSHR, and the calls it makes. -/
structure Result (cfg : CacheConfig) (s s' : Cache) (ks : List CacheCall) : Prop where
  mshr : MshrEffect cfg s s'.mshr
  calls : Lined cfg s' ks

theorem Result.plain (hm : MshrEffect cfg s s'.mshr) (h : ∀ d ∈ ks, plain d = true) :
    Result cfg s s' ks := ⟨hm, lined_plain h⟩

theorem kept_of_eq (h : s'.mshr = s.mshr) : MshrEffect cfg s s'.mshr := by
  rw [h]
  exact .kept

theorem prefetcherCalls_light (cpu : Nat) : ∀ d ∈ prefetcherCalls cfg cpu, light d = true := by
  intro d hd
  unfold prefetcherCalls at hd
  split at hd
  · rw [List.mem_singleton.mp hd]
    rfl
  · cases hd

theorem replies_light (rs : List Reply) :
    ∀ d ∈ rs.map CacheCall.returnData, light d = true := by
  intro d hd
  obtain ⟨r, -, rfl⟩ := List.mem_map.mp hd
  rfl

theorem light_plain (h : light c = true) : plain c = true := by
  cases c <;> first | (cases h; done) | rfl

/-- A call of the lower level: what comes next waits behind the callbacks. -/
theorem askLower_lined {op : LowerCall} {next : List CacheCall}
    (h : s.askLower op next = .ok (s', ks)) (hnext : Lined cfg s' next) : Lined cfg s' ks := by
  cases h
  exact Staged.lights (replies_light _) hnext

theorem askLower_ok {op : LowerCall} {next : List CacheCall}
    (h : s.askLower op next = .ok (s', ks)) :
    s'.mshr = s.mshr ∧ s'.wq = s.wq ∧ s'.block = s.block := by
  cases h
  exact ⟨rfl, rfl, rfl⟩

/-- An eviction leaves lines and queues alone, and what comes next waits. -/
theorem evict_result {victim : Block} {cpu instrId : Nat} {next : List CacheCall}
    (h : s.evict cfg victim cpu instrId next = .ok (s', ks))
    (hnext : s.canEvict cfg victim = true → ∀ t : Cache, t.mshr = s.mshr → t.wq = s.wq →
      t.lines = s.lines → Lined cfg t next) :
    Result cfg s s' ks := by
  unfold evict at h
  split at h
  · split at h
    · split at h
      · cases h
        exact .plain .kept (by simp)
      · rename_i hroom
        obtain ⟨hm, hw, hb⟩ := askLower_ok h
        refine ⟨kept_of_eq hm, askLower_lined h (hnext ?_ s' hm hw (congrArg linesOf hb))⟩
        simp [canEvict, hroom]
    · rename_i hlower
      split at h
      · cases h
        exact ⟨.kept, hnext (by simp [canEvict, hlower]) s rfl rfl rfl⟩
      · cases h
  · rename_i hclean
    cases h
    exact ⟨.kept, hnext (by simp [canEvict, hclean]) s rfl rfl rfl⟩

theorem now_lt (s : Cache) (cpu : Nat) : s.now cpu < uint64Max := s.clock.cycle_lt cpu

theorem handleFill_result (ht : s.mshr.Tidy) (h : s.handleFill cfg = .ok (s', ks)) :
    Result cfg s s' ks := by
  unfold handleFill at h
  dsimp only at h
  split at h
  · cases h
    exact .plain .kept (by simp)
  · split at h
    · rename_i hdue
      split at h
      · cases h
      · split at h
        · cases h
        · refine evict_result h fun _ t hm _ _ => ?_
          refine Staged.lights (prefetcherCalls_light _) (.ready ?_ (by simp))
          -- the entry to fill next is completed, so it has an address
          have hnext := ht.next.resolve_left fun hnever => by
            have := s.now_lt (s.fillCpu cfg)
            omega
          refine ⟨fun h0 => ?_, ?_⟩
          · rw [hm] at h0
            rw [(ht.live _).mpr h0] at hnext
            cases hnext
          · rw [hm]
    · cases h
      exact .plain .kept (by simp)

/-- A merged entry keeps its line and its state. -/
theorem merge_same {m m₀ e : CachePacket} (he : e.address = m₀.address)
    (ha : m.address = m₀.address) (hr : m.returned = m₀.returned) :
    ((m.updateFill e).updateRequest e).address = m₀.address ∧
      ((m.updateFill e).updateRequest e).returned = m₀.returned := by
  unfold CachePacket.updateRequest
  split
  · exact ⟨he, hr⟩
  · exact ⟨ha, hr⟩

theorem markConsumer_same (m e : CachePacket) :
    (m.markConsumer e).address = m.address ∧ (m.markConsumer e).returned = m.returned := by
  unfold CachePacket.markConsumer
  split
  · exact ⟨rfl, rfl⟩
  · split <;> exact ⟨rfl, rfl⟩

theorem rfoMiss_result {i : Nat} (hmiss : s.checkHit cfg (s.wq.entryAt i).address = none)
    (h : s.rfoMiss cfg i = .ok (s', ks)) : Result cfg s s' ks := by
  unfold rfoMiss at h
  dsimp only at h
  split at h
  · rename_i j hj
    cases h
    have hsame := merge_same (m := s.mshr.entryAt j) (CacheQueue.checkMshr_some hj).2.symm rfl rfl
    exact .plain (.merged hsame.1 hsame.2) (by simp [Cache.plain])
  · rename_i hnew
    split at h
    · obtain ⟨hm, -, -⟩ := askLower_ok h
      refine ⟨?_, askLower_lined h (lined_plain (by simp [Cache.plain]))⟩
      rw [hm]
      exact .added _ hnew (checkHit_none hmiss)
    · split at h
      · cases h
        exact .plain .kept (by simp)
      · cases h

theorem handleWriteback_result (hok : s.installsApart cfg .handleWriteback = true)
    (h : s.handleWriteback cfg = .ok (s', ks)) : Result cfg s s' ks := by
  have hapart : Installs cfg s → ¬ s.mshr.Holding (s.wq.entryAt s.wq.head).address := by
    intro hinst hheld
    rcases of_decide_eq_true hok hinst with h0 | hnew
    · exact hheld.1 h0
    · exact CacheQueue.not_holding_of_checkMshr hnew hheld
  unfold handleWriteback at h
  dsimp only at h
  split at h
  · cases h
    exact .plain .kept (by simp)
  · rename_i hcpu
    split at h
    · rename_i hdue
      split at h
      · obtain ⟨s₁, hw, heq⟩ := map_ok h
        cases heq
        obtain ⟨block, q, -, -, rfl⟩ := writebackHit_ok hw
        exact .plain .kept (by simp)
      · rename_i hmiss
        split at h
        · exact rfoMiss_result hmiss h
        · rename_i htype
          unfold writebackMiss at h
          dsimp only at h
          split at h
          · cases h
          · rename_i way hway
            refine evict_result h fun hroom t hm hw hl => ?_
            refine Staged.lights (prefetcherCalls_light _) (.ready ?_ (by simp))
            refine ⟨by rw [hw], ?_, ?_⟩
            · rw [hw, hl]
              exact checkHit_none hmiss
            · rw [hw, hm]
              exact hapart ⟨htype, ⟨hcpu, hdue⟩, hmiss, by rw [hway]; exact hroom⟩
    · cases h
      exact .plain .kept (by simp)

theorem nextRead_result {s₀ : Cache} {left : Nat} (h : s.nextRead left = .ok (s', ks))
    (h₀ : s.mshr = s₀.mshr) : Result cfg s₀ s' ks := by
  obtain ⟨rfl, hks⟩ := nextRead_ok h
  refine .plain (kept_of_eq h₀) ?_
  rcases hks with rfl | rfl <;> simp [Cache.plain]

theorem nextPrefetch_result {s₀ : Cache} {left : Nat} (h : s.nextPrefetch left = .ok (s', ks))
    (h₀ : s.mshr = s₀.mshr) : Result cfg s₀ s' ks := by
  obtain ⟨rfl, hks⟩ := nextPrefetch_ok h
  refine .plain (kept_of_eq h₀) ?_
  rcases hks with rfl | rfl <;> simp [Cache.plain]

/-- A new entry, and a call of the lower level for it. -/
theorem added_result {s₁ : Cache} {e : CachePacket} {op : LowerCall} {next : List CacheCall}
    (hnew : s.mshr.checkMshr e.address = none) (habs : Absent cfg s.lines e.address)
    (h₁ : s₁.mshr = s.mshr.addMshr e) (h : s₁.askLower op next = .ok (s', ks))
    (hnext : ∀ d ∈ next, plain d = true) : Result cfg s s' ks := by
  obtain ⟨hm, -, -⟩ := askLower_ok h
  refine ⟨?_, askLower_lined h (lined_plain hnext)⟩
  rw [hm, h₁]
  exact .added e hnew habs

theorem readMiss_result {i left : Nat} (hmiss : s.checkHit cfg (s.rq.entryAt i).address = none)
    (hnew : s.mshr.checkMshr (s.rq.entryAt i).address = none)
    (h : s.readMiss cfg i left = .ok (s', ks)) : Result cfg s s' ks := by
  have habs := checkHit_none hmiss
  unfold readMiss at h
  dsimp only at h
  split at h
  · split at h
    · exact nextRead_result h rfl
    · exact added_result hnew habs rfl h (by simp [Cache.plain])
  · split at h
    · exact added_result hnew habs rfl h (by simp [Cache.plain])
    · split at h
      · cases h
        refine ⟨.added _ hnew habs, Staged.lights ?_ (.ready ?_ (by simp [Cache.plain]))⟩
        · intro d hd
          obtain ⟨a, -, rfl⟩ := List.mem_map.mp hd
          rfl
        · by_cases h0 : (s.rq.entryAt i).address = 0
          · -- there is no entry free, and none is added
            rw [h0] at hnew
            left
            change (s.mshr.addMshr (s.rq.entryAt i)).checkMshr 0 = none
            rw [CacheQueue.addMshr, hnew]
            exact hnew
          · exact .inr h0
      · cases h
        exact .plain (.added _ hnew habs) (by simp [Cache.plain])

theorem operateOnRead_light (e : CachePacket) : ∀ d ∈ operateOnRead cfg e, light d = true := by
  unfold operateOnRead
  split
  · exact prefetcherCalls_light _
  · simp

theorem operateOnPrefetch_light (e : CachePacket) :
    ∀ d ∈ operateOnPrefetch cfg e, light d = true := by
  unfold operateOnPrefetch
  split
  · exact prefetcherCalls_light _
  · simp

/-- Light calls and then a plain one. -/
theorem lined_then {next : List CacheCall} (hks : ∀ d ∈ ks, light d = true)
    (hnext : ∀ d ∈ next, plain d = true) : Lined cfg s (ks ++ next) :=
  Staged.lights hks (lined_plain hnext)

theorem handleRead_result {left : Nat} (h : s.handleRead cfg left = .ok (s', ks)) :
    Result cfg s s' ks := by
  cases left with
  | zero =>
      cases h
      exact .plain .kept (by simp)
  | succ left =>
      rw [handleRead] at h
      split at h
      · cases h
        exact .plain .kept (by simp)
      · split at h
        · split at h
          · cases h
            exact ⟨.kept, lined_then (operateOnRead_light _) (by simp [Cache.plain])⟩
          · rename_i hmiss
            split at h
            · rename_i j hj
              cases h
              obtain ⟨ha, hr⟩ := markConsumer_same (s.mshr.entryAt j) (s.rq.entryAt s.rq.head)
              have hsame := merge_same (CacheQueue.checkMshr_some hj).2.symm ha hr
              exact .plain (.merged hsame.1 hsame.2) (by simp [Cache.plain])
            · rename_i hnew
              split at h
              · exact readMiss_result hmiss hnew h
              · split at h
                · exact nextRead_result h rfl
                · cases h
        · cases h
          exact .plain .kept (by simp)

theorem handlePrefetch_result {left : Nat} (h : s.handlePrefetch cfg left = .ok (s', ks)) :
    Result cfg s s' ks := by
  cases left with
  | zero =>
      cases h
      exact .plain .kept (by simp)
  | succ left =>
      rw [handlePrefetch] at h
      split at h
      · cases h
        exact .plain .kept (by simp)
      · split at h
        · split at h
          · obtain ⟨s₁, hrep, heq⟩ := map_ok h
            obtain ⟨block, rfl, -⟩ := updateReplacementState_ok hrep
            cases heq
            exact ⟨.kept, lined_then (operateOnPrefetch_light _) (by simp [Cache.plain])⟩
          · rename_i hmiss
            split at h
            · rename_i j hj
              cases h
              exact .plain (.merged rfl rfl) (by simp [Cache.plain])
            · rename_i hnew
              split at h
              · split at h
                · split at h
                  · exact nextPrefetch_result h rfl
                  · cases h
                    refine ⟨.kept, Staged.lights (operateOnPrefetch_light _) (.ready ?_ (by simp))⟩
                    by_cases h0 : (s.pq.entryAt s.pq.head).address = 0
                    · rw [h0] at hnew
                      exact .inl hnew
                    · exact .inr ⟨h0, hnew, checkHit_none hmiss⟩
                · cases h
                  exact .plain .kept (by simp [Cache.plain])
              · split at h
                · exact nextPrefetch_result h rfl
                · cases h
        · cases h
          exact .plain .kept (by simp)

theorem prefetchMiss_result {i left : Nat} (hr : Ready cfg s (.prefetchMiss i left))
    (h : s.prefetchMiss cfg i left = .ok (s', ks)) : Result cfg s s' ks := by
  unfold prefetchMiss at h
  dsimp only at h
  split at h
  · rcases hr with hfull | ⟨-, hnew, habs⟩
    · obtain ⟨hm, -, -⟩ := askLower_ok h
      refine ⟨kept_of_eq (hm.trans ?_), askLower_lined h (lined_plain (by simp [Cache.plain]))⟩
      change s.mshr.addMshr _ = _
      rw [CacheQueue.addMshr, hfull]
    · exact added_result hnew habs rfl h (by simp [Cache.plain])
  · obtain ⟨hm, -, -⟩ := askLower_ok h
    exact ⟨kept_of_eq hm, askLower_lined h (lined_plain (by simp [Cache.plain]))⟩

theorem addRq_mshr {pkt : CachePacket} {rc : Int} (h : s.addRq cfg pkt = .ok (s', rc)) :
    s'.mshr = s.mshr := by
  unfold addRq at h
  split at h
  · split at h
    all_goals cases h
    rfl
  · split at h
    · cases h
      rfl
    · split at h
      · cases h
        rfl
      · split at h
        · cases h
        · split at h
          · cases h
          · cases h
            rfl

theorem addWq_mshr {pkt : CachePacket} {rc : Int} (h : s.addWq cfg pkt = .ok (s', rc)) :
    s'.mshr = s.mshr := by
  unfold addWq at h
  split at h
  · cases h
    rfl
  · split at h
    · cases h
    · split at h
      · cases h
      · cases h
        rfl

theorem exec_result (ht : s.mshr.Tidy) (hready : Ready cfg s c)
    (hok : s.installsApart cfg c = true) (h : s.exec cfg c = .ok (s', ks)) :
    Result cfg s s' ks := by
  have hlight : light c = true → ∀ d ∈ ks, plain d = true := fun hc d hd =>
    light_plain ((exec_light hc h).2 d hd)
  cases c with
  | addRq pkt =>
      obtain ⟨hl, rfl⟩ := last_ok h
      obtain ⟨⟨s₁, rc⟩, hr, rfl⟩ := map_ok hl
      exact .plain (kept_of_eq (addRq_mshr hr)) (by simp)
  | addWq pkt =>
      obtain ⟨hl, rfl⟩ := last_ok h
      obtain ⟨⟨s₁, rc⟩, hr, rfl⟩ := map_ok hl
      exact .plain (kept_of_eq (addWq_mshr hr)) (by simp)
  | addPq pkt =>
      obtain ⟨⟨s₁, rc⟩, hr, rfl⟩ := map_ok (last_ok h).1
      exact .plain (kept_of_eq (addPq_leaves hr).2) (hlight rfl)
  | invalidateEntry a =>
      cases h
      refine .plain (kept_of_eq ?_) (by simp)
      unfold invalidateEntry
      split <;> rfl
  | returnData r =>
      obtain ⟨hl, rfl⟩ := last_ok h
      obtain ⟨j, m, hj, ha, hret, rfl⟩ := returnData_ok hl
      exact .plain (.completed r.address_ne hj ha hret) (by simp)
  | prefetcher cpu =>
      refine .plain ?_ (hlight rfl)
      cases h
      exact .kept
  | prefetch cpu act =>
      refine .plain ?_ (hlight rfl)
      cases act with
      | line p =>
          cases h
          exact .kept
      | codeLine vAddr pa invalidated =>
          change s.prefetch cfg cpu (.codeLine vAddr pa invalidated) = _ at h
          rw [prefetch] at h
          split at h
          · cases h
          · cases h
            exact .kept
  | handleFill => exact handleFill_result ht h
  | finishFill i set way =>
      obtain ⟨hl, rfl⟩ := last_ok h
      obtain ⟨block, dirty, q, hq, -, rfl⟩ := finishFill_ok hl
      exact .plain (.removed hq) (by simp)
  | handleWriteback => exact handleWriteback_result hok h
  | finishWriteback i set way =>
      obtain ⟨hl, rfl⟩ := last_ok h
      obtain ⟨block, q, -, -, rfl⟩ := finishWriteback_ok hl
      exact .plain .kept (by simp)
  | removeWrite i =>
      obtain ⟨hl, rfl⟩ := last_ok h
      obtain ⟨q, -, rfl⟩ := removeWrite_ok hl
      exact .plain .kept (by simp)
  | startReads =>
      cases h
      exact .plain .kept (by simp [Cache.plain])
  | handleRead left => exact handleRead_result h
  | finishReadHit i way left =>
      obtain ⟨s₁, hrep, h⟩ := bind_ok h
      obtain ⟨block, rfl, -⟩ := updateReplacementState_ok hrep
      obtain ⟨q, -, h⟩ := bind_ok h
      exact nextRead_result h rfl
  | walked i =>
      obtain ⟨hl, rfl⟩ := last_ok h
      obtain ⟨j, m, hj, ha, hret, rfl⟩ := returnData_ok hl
      have hne : (s.rq.entryAt i).address ≠ 0 := hready.elim
        (fun hfull h0 => by
          change s.mshr.checkMshr (s.rq.entryAt i).address = some j at hj
          rw [h0, hfull] at hj
          cases hj) id
      exact .plain (.completed hne hj ha hret) (by simp)
  | readMissHandled i left =>
      cases h
      exact ⟨.kept, lined_then (operateOnRead_light _) (by simp [Cache.plain])⟩
  | removeRead i left =>
      obtain ⟨q, -, h⟩ := bind_ok h
      exact nextRead_result h rfl
  | startPrefetches =>
      cases h
      refine .plain .kept fun d hd => ?_
      split at hd
      · rw [List.mem_singleton.mp hd]
        rfl
      · cases hd
  | handlePrefetch left => exact handlePrefetch_result h
  | finishPrefetchHit i left =>
      obtain ⟨q, -, h⟩ := bind_ok h
      exact nextPrefetch_result h rfl
  | prefetchMiss i left => exact prefetchMiss_result hready h
  | removePrefetch i left =>
      obtain ⟨q, -, h⟩ := bind_ok h
      exact nextPrefetch_result h rfl

/-! ## Runs -/

/-- **One step.** -/
theorem Apart.exec (h : Apart cfg s) (hready : Ready cfg s c)
    (hok : s.installsApart cfg c = true) (he : s.exec cfg c = .ok (s', ks)) : Apart cfg s' := by
  obtain ⟨htidy, hheld⟩ := (exec_result h.mshr hready hok he).mshr.tidy h.mshr
  -- a call that only takes lines away
  have htakes : TagsDistinct s'.lines → (∀ a, Absent cfg s.lines a → Absent cfg s'.lines a) →
      Apart cfg s' := fun hd ha =>
    ⟨hd, htidy, fun a hh => ha a ((hheld a hh).elim (h.absent a) id)⟩
  cases exec_effect he with
  | still hstill =>
      rw [hstill.lines] at htakes
      exact htakes h.distinct fun _ ha => ha
  | evicted dirty lines sent =>
      rw [lines] at htakes
      exact htakes h.distinct fun _ ha => ha
  | dirtied mem valid lines sent =>
      rw [lines] at htakes
      exact htakes (h.distinct.flags (blockAt_get valid) rfl fun _ => valid)
        fun a ha => ha.flags (blockAt_get valid) rfl fun _ => valid
  | invalidated hit lines sent =>
      have hvalid := (checkHit_some hit).2.1
      rw [lines] at htakes
      exact htakes (h.distinct.flags (blockAt_get hvalid) rfl fun _ => hvalid)
        fun a ha => ha.flags (blockAt_get hvalid) rfl fun _ => hvalid
  | @filled i set way _ dirty lines sent =>
      obtain ⟨hne, hset⟩ := hready
      obtain ⟨block, dirty', q, hq, -, rfl⟩ := finishFill_ok (last_ok he).1
      have habs : Absent cfg s.lines (s.mshr.entryAt i).address := h.absent _ ⟨hne, i, rfl⟩
      refine ⟨?_, htidy, fun a hh => ?_⟩
      · rw [lines]
        exact h.distinct.fill hset habs
      · obtain ⟨hold, hother⟩ := (h.mshr.remove hq).2 a hh
        rw [lines]
        exact (h.absent a hold).put fun _ _ => hother.symm
  | @installed i set way _ lines sent =>
      obtain ⟨hset, habs, hfree⟩ := hready
      obtain ⟨block, q, -, -, rfl⟩ := finishWriteback_ok (last_ok he).1
      refine ⟨?_, htidy, fun a hh => ?_⟩
      · rw [lines]
        exact h.distinct.fill hset habs
      · rw [lines]
        refine (h.absent a hh).put fun _ _ => ?_
        rintro rfl
        exact hfree hh

/-- In a run in which no write-back is installed while its line is in flight,
two valid ways of a set hold different lines. -/
theorem tags_distinct {cfg : CacheConfig} {x : Worklist.Config Cache CacheCall}
    (h : ReachesIf (machine cfg) (fun _ => True)
      (fun x => x.1.head?.all (x.2.installsApart cfg) = true) (new cfg) x) :
    ∀ (set i j : Nat) (b b' : Block), (x.2.block set)[i]? = some b →
      (x.2.block set)[j]? = some b' → b.valid = true → b'.valid = true → b.tag = b'.tag →
        i = j := by
  have hinv : Apart cfg x.2 ∧ Lined cfg x.2 x.1 := by
    refine ReachesIf.invariant (P := fun x => Apart cfg x.2 ∧ Lined cfg x.2 x.1)
      ⟨new_apart cfg, .nil⟩ ?_ ?_ h
    · rintro op s - - - ⟨hs, -⟩
      cases op with
      | operate env =>
          exact ⟨⟨hs.distinct, hs.mshr, hs.absent⟩,
            lined_plain (by simp [machine, enter, operateCalls, plain])⟩
      | setLatency n => exact ⟨⟨hs.distinct, hs.mshr, hs.absent⟩, .nil⟩
      | setClock clk => exact ⟨⟨hs.distinct, hs.mshr, hs.absent⟩, .nil⟩
      | _ => exact ⟨hs, lined_plain (by simp [machine, enter, plain])⟩
    · rintro c K s s' ks hok - ⟨hs, hl⟩ he
      have hready : Ready cfg s c := by
        cases hl with
        | light hc _ => exact .of_plain (light_plain hc)
        | ready hc _ => exact hc
      refine ⟨hs.exec hready hok he, hl.call ?_ ?_ ?_⟩
      · intro hc
        obtain ⟨hleaves, hks⟩ := exec_light hc he
        exact ⟨hks, fun d hd => hleaves.ready hd⟩
      · exact fun _ => (exec_result hs.mshr hready hok he).calls
      · exact fun d hd => .of_plain hd
  intro set i j b b' hi hj hv hv' htag
  refine hinv.1.distinct set i j b.line b'.line ?_ ?_ hv hv' htag
  · rw [lines, linesOf, List.getElem?_map, hi]
    rfl
  · rw [lines, linesOf, List.getElem?_map, hj]
    rfl

/-- A line is fetched, and before it comes back the first-level data cache
writes one back. -/
def fetchAndWriteBack (written : Nat) : List CacheOp :=
  [.addRq { address := 5, cpu := 0, instruction := true, isData := false, fillLevel := 1,
            fillL1i := true, eventCycle := 0 },
   .operate {},
   .addWq (dirtyLine written),
   .operate {},
   .returnData lineBack,
   .operate {}]

/-- The valid lines of set 5. -/
def validTags (s : Cache) : List Nat := ((s.block 5).filter (·.valid)).map (·.tag)

/-- Another line of the set. -/
theorem tags_distinct_other :
    ∃ s, ReachesIf (machine l2c) (fun _ => True)
        (fun x => x.1.head?.all (x.2.installsApart l2c) = true) (new l2c) ([], s) ∧
      validTags s = [517, 5] ∧
      ∀ (set i j : Nat) (b b' : Block), (s.block set)[i]? = some b →
        (s.block set)[j]? = some b' → b.valid = true → b'.valid = true → b.tag = b'.tag →
          i = j := by
  obtain ⟨s, hs, htags⟩ := Option.map_eq_some_iff.mp (show (Worklist.driveIf (machine l2c)
    (fun x => x.1.head?.all (x.2.installsApart l2c) = true) 60 (fetchAndWriteBack 517)
      (new l2c)).map validTags = some [517, 5] by decide +kernel)
  have hr := Worklist.driveIf_reaches (fun _ _ => trivial) .refl hs
  exact ⟨s, hr, htags, tags_distinct hr⟩

/-- The line itself: the write-back installs it, and the fill once more. -/
theorem tags_duplicated :
    ∃ s, Reaches (machine l2c) (fun _ => True) (new l2c) ([], s) ∧ validTags s = [5, 5] ∧
      ∃ b b' : Block, (s.block 5)[0]? = some b ∧ (s.block 5)[1]? = some b' ∧
        b.valid = true ∧ b'.valid = true ∧ b.tag = b'.tag := by
  obtain ⟨s, hs, hfacts⟩ := Option.map_eq_some_iff.mp (show (Worklist.drive (machine l2c) 60
    (fetchAndWriteBack 5) (new l2c)).map (fun s => decide (validTags s = [5, 5] ∧
      (s.block 5)[0]?.map (fun b => (b.valid, b.tag)) = some (true, 5) ∧
      (s.block 5)[1]?.map (fun b => (b.valid, b.tag)) = some (true, 5))) = some true
        by decide +kernel)
  obtain ⟨htags, h₀, h₁⟩ := of_decide_eq_true hfacts
  obtain ⟨b, hb, hbv⟩ := Option.map_eq_some_iff.mp h₀
  obtain ⟨b', hb', hbv'⟩ := Option.map_eq_some_iff.mp h₁
  obtain ⟨hv, ht⟩ := Prod.mk.inj hbv
  obtain ⟨hv', ht'⟩ := Prod.mk.inj hbv'
  exact ⟨s, Worklist.drive_reaches (fun _ _ => trivial) .refl hs, htags, b, b', hb, hb', hv, hv',
    ht.trans ht'.symm⟩

end Cache

end DramCache
