import DramCache.Cache
import DramCache.Mshr

/-!
# Live lines

What a cache holds, apart from the order its replacement policy keeps, and
what each call does to it (`exec_lines`). A fill makes its line valid and what
is marked dirty has been hit or filled, but `invalidate_entry` takes `valid`
away and leaves `dirty`: as long as it only takes lines that are clean, every
dirty line is valid, and every write-back is one of a line that is both
(`writeback_live`).
-/

namespace DramCache

open Worklist (ReachesIf Reaches)

/-- What a block says of its line. -/
structure Line where
  valid : Bool
  dirty : Bool
  tag : Nat
  address : Nat
deriving Repr, DecidableEq

def Block.line (b : Block) : Line := ⟨b.valid, b.dirty, b.tag, b.address⟩

namespace Cache

/-! ## Lines -/

def linesOf (block : Nat → List Block) (set : Nat) : List Line := (block set).map Block.line

def lines (s : Cache) : Nat → List Line := linesOf s.block

def putLine (L : Nat → List Line) (set way : Nat) (l : Line) : Nat → List Line :=
  Function.update L set ((L set).set way l)

/-- The line of a packet that is filled in. -/
def lineOf (pkt : CachePacket) (dirty : Bool) : Line := ⟨true, dirty, pkt.address, pkt.address⟩

theorem mem_putLine {L : Nat → List Line} {set way set' : Nat} {l l' : Line}
    (h : l' ∈ putLine L set way l set') : l' ∈ L set' ∨ (set' = set ∧ l' = l) := by
  unfold putLine at h
  by_cases hs : set' = set
  · subst hs
    rw [Function.update_self] at h
    exact (List.mem_or_eq_of_mem_set h).imp id fun heq => ⟨rfl, heq⟩
  · rw [Function.update_of_ne hs] at h
    exact .inl h

theorem putLine_putLine (L : Nat → List Line) (set way : Nat) (l l' : Line) :
    putLine (putLine L set way l) set way l' = putLine L set way l' := by
  simp [putLine]

variable {cfg : CacheConfig} {s s' : Cache} {ks : List CacheCall} {set way : Nat}

theorem setBlock_lines (s : Cache) (set way : Nat) (b : Block) :
    (s.setBlock set way b).lines = putLine s.lines set way b.line := by
  funext set'
  unfold lines linesOf putLine setBlock
  by_cases hs : set' = set
  · subst hs
    simp [List.map_set]
  · simp [hs]

theorem blockAt_line (s : Cache) (set way : Nat) :
    (s.blockAt set way).line = ((s.lines set)[way]?).getD (Block.line {}) := by
  rw [lines, linesOf, List.getElem?_map, blockAt, Lru.blockAt]
  cases (s.block set)[way]? <;> rfl

/-- The counters are no part of the lines. -/
theorem lruAge_line (blocks : List Block) (way i : Nat) :
    (Lru.lruAge way blocks i).map Block.line = blocks.map Block.line := by
  unfold Lru.lruAge
  split
  · rw [List.map_set]
    refine CacheQueue.set_same fun hi => ?_
    rw [List.length_map] at hi
    simp [Lru.blockAt, hi, Block.line]
  · rfl

theorem lruUpdate_line (numWay : Nat) (blocks : List Block) (way : Nat) :
    (Lru.lruUpdate numWay blocks way).map Block.line = blocks.map Block.line := by
  have hfold : ∀ (is : List Nat) (blocks : List Block),
      (is.foldl (Lru.lruAge way) blocks).map Block.line = blocks.map Block.line := by
    intro is
    induction is with
    | nil => exact fun _ => rfl
    | cons i is ih => exact fun blocks => (ih _).trans (lruAge_line blocks way i)
  unfold Lru.lruUpdate
  rw [List.map_set, set_line, hfold]
where
  set_line {blocks : List Block} {way : Nat} :
      (blocks.map Block.line).set way
        (Block.line { Lru.blockAt blocks way with lru := 0 }) = blocks.map Block.line := by
    refine CacheQueue.set_same fun hi => ?_
    rw [List.length_map] at hi
    simp [Lru.blockAt, hi, Block.line]

theorem update_linesOf (numWay : Nat) (block : Nat → List Block) (call : Nat × Nat) :
    linesOf (Lru.update numWay block call) = linesOf block := by
  funext set
  unfold linesOf Lru.update
  by_cases hs : set = call.1
  · subst hs
    rw [Function.update_self, lruUpdate_line]
  · rw [Function.update_of_ne hs]

theorem updateReplacementState_ok {ip : Nat} {type : AccessType} {hit : Bool}
    (h : s.updateReplacementState cfg set way ip type hit = .ok s') :
    ∃ block, s' = { s with block := block } ∧ linesOf block = s.lines := by
  unfold updateReplacementState at h
  split at h
  · cases h
  · split at h
    · cases h
      exact ⟨s.block, rfl, rfl⟩
    · cases h
      exact ⟨_, rfl, update_linesOf ..⟩

theorem fillCache_lines (s : Cache) (set way : Nat) (pkt : CachePacket) :
    (s.fillCache set way pkt).lines = putLine s.lines set way (lineOf pkt false) :=
  setBlock_lines ..

theorem fillCache_markDirty_lines (s : Cache) (set way : Nat) (pkt : CachePacket) :
    ((s.fillCache set way pkt).markDirty set way).lines =
      putLine s.lines set way (lineOf pkt true) := by
  unfold markDirty
  rw [setBlock_lines, fillCache_lines]
  by_cases hway : way < (s.block set).length
  · have hb : (s.fillCache set way pkt).blockAt set way =
        { s.blockAt set way with
          valid := true, dirty := false, tag := pkt.address, address := pkt.address,
          fullAddr := pkt.fullAddr } := by
      simp [fillCache, setBlock, blockAt, Lru.blockAt, hway]
    rw [hb, putLine_putLine]
    rfl
  · have hout : ∀ l, (s.lines set).set way l = s.lines set := fun l =>
      List.set_eq_of_length_le (by simpa [lines, linesOf] using hway)
    simp [putLine, hout]

theorem checkHit_some {a : Nat} (h : s.checkHit cfg a = some way) :
    s.blockAt (cfg.getSet a) way ∈ s.block (cfg.getSet a) ∧
      (s.blockAt (cfg.getSet a) way).valid = true ∧ (s.blockAt (cfg.getSet a) way).tag = a := by
  obtain ⟨hlt, hp, -⟩ := List.findIdx?_eq_some_iff_getElem.mp h
  have hat : s.blockAt (cfg.getSet a) way = (s.block (cfg.getSet a))[way] := by
    simp [blockAt, Lru.blockAt, hlt]
  rw [hat]
  rw [Bool.and_eq_true, beq_iff_eq] at hp
  exact ⟨List.getElem_mem hlt, hp⟩

/-! ## Results -/

theorem bind_ok {α β : Type} {x : Except CacheFault α} {f : α → Except CacheFault β} {b : β}
    (h : (x >>= f) = .ok b) : ∃ a, x = .ok a ∧ f a = .ok b := by
  cases x with
  | error e => cases h
  | ok a => exact ⟨a, rfl, h⟩

theorem map_ok {α β : Type} {x : Except CacheFault α} {f : α → β} {b : β}
    (h : x.map f = .ok b) : ∃ a, x = .ok a ∧ f a = b := by
  cases x with
  | error e => cases h
  | ok a =>
      cases h
      exact ⟨a, rfl, rfl⟩

theorem last_ok {x : Except CacheFault Cache} (h : last x = .ok (s', ks)) :
    x = .ok s' ∧ ks = [] := by
  obtain ⟨s₁, hx, heq⟩ := map_ok h
  cases heq
  exact ⟨hx, rfl⟩

/-- The request at the head of a queue is due. -/
def Due (s : Cache) (q : CacheQueue) : Prop :=
  (q.entryAt q.head).cpu ≠ numCpus ∧
    (q.entryAt q.head).eventCycle ≤ s.now (q.entryAt q.head).cpu ∧ 0 < q.occupancy

instance (q : CacheQueue) : Decidable (s.Due q) := inferInstanceAs (Decidable (_ ∧ _ ∧ _))

/-! ## What a call does to the lines -/

/-- The write-backs sent so far. -/
def writebacks (s : Cache) : List CachePacket :=
  s.sent.filterMap fun op =>
    match op with
    | .addWq pkt => some pkt
    | .addRq _ | .addPq _ | .incrementWqFull _ => none

/-- Neither the lines change nor is one written back. -/
structure Still (s s' : Cache) : Prop where
  lines : s'.lines = s.lines
  writebacks : s'.writebacks = s.writebacks

theorem Still.of_eq (hb : s'.block = s.block) (hs : s'.sent = s.sent) : Still s s' := by
  refine ⟨congrArg linesOf hb, ?_⟩
  rw [Cache.writebacks, hs, Cache.writebacks]

theorem Still.trans {s₁ s₂ s₃ : Cache} (h : Still s₁ s₂) (h' : Still s₂ s₃) : Still s₁ s₃ :=
  ⟨h'.lines.trans h.lines, h'.writebacks.trans h.writebacks⟩

/-- All that a call can do to the lines. -/
inductive Effect (cfg : CacheConfig) (s : Cache) : CacheCall → Cache → Prop
  | still {c : CacheCall} {s' : Cache} (h : Still s s') : Effect cfg s c s'
  | evicted {c : CacheCall} {s' : Cache} {set way cpu instrId : Nat}
      (dirty : (s.blockAt set way).dirty = true) (lines : s'.lines = s.lines)
      (sent : s'.writebacks =
        s.writebacks ++ [s.writebackPacket cfg (s.blockAt set way) cpu instrId]) :
      Effect cfg s c s'
  | filled {i set way : Nat} {s' : Cache} (dirty : Bool)
      (lines : s'.lines = putLine s.lines set way (lineOf (s.mshr.entryAt i) dirty))
      (sent : s'.writebacks = s.writebacks) : Effect cfg s (.finishFill i set way) s'
  | installed {i set way : Nat} {s' : Cache}
      (lines : s'.lines = putLine s.lines set way (lineOf (s.wq.entryAt i) true))
      (sent : s'.writebacks = s.writebacks) : Effect cfg s (.finishWriteback i set way) s'
  | dirtied {set way : Nat} {s' : Cache} (mem : s.blockAt set way ∈ s.block set)
      (valid : (s.blockAt set way).valid = true)
      (lines : s'.lines =
        putLine s.lines set way { (s.blockAt set way).line with dirty := true })
      (sent : s'.writebacks = s.writebacks) : Effect cfg s .handleWriteback s'
  | invalidated {a way : Nat} {s' : Cache} (hit : s.checkHit cfg a = some way)
      (lines : s'.lines = putLine s.lines (cfg.getSet a) way
        { (s.blockAt (cfg.getSet a) way).line with valid := false })
      (sent : s'.writebacks = s.writebacks) : Effect cfg s (.invalidateEntry a) s'

theorem removeMshr_ok {i : Nat} (h : s.removeMshr i = .ok s') :
    ∃ q, removeFrom s.mshr i = .ok q ∧ s' = { s with mshr := q.updateFillCycle } := by
  obtain ⟨q, hq, heq⟩ := bind_ok h
  cases heq
  exact ⟨q, hq, rfl⟩

theorem removeWrite_ok {i : Nat} (h : s.removeWrite i = .ok s') :
    ∃ q, removeFrom s.wq i = .ok q ∧ s' = { s with wq := q } := by
  obtain ⟨q, hq, heq⟩ := bind_ok h
  cases heq
  exact ⟨q, hq, rfl⟩

theorem nextRead_ok {left : Nat} (h : s.nextRead left = .ok (s', ks)) :
    s' = s ∧ (ks = [] ∨ ks = [.handleRead left]) := by
  cases h
  refine ⟨rfl, ?_⟩
  split
  · exact .inl rfl
  · exact .inr rfl

theorem nextPrefetch_ok {left : Nat} (h : s.nextPrefetch left = .ok (s', ks)) :
    s' = s ∧ (ks = [] ∨ ks = [.handlePrefetch left]) := by
  cases h
  refine ⟨rfl, ?_⟩
  split
  · exact .inl rfl
  · exact .inr rfl

theorem removeRead_ok {i left : Nat} (h : s.removeRead i left = .ok (s', ks)) :
    ∃ q, s' = { s with rq := q, readsAvailable := dec32 s.readsAvailable } ∧
      (ks = [] ∨ ks = [.handleRead left]) := by
  obtain ⟨q, -, h⟩ := bind_ok h
  exact ⟨q, nextRead_ok h⟩

theorem removePrefetch_ok {i left : Nat} (h : s.removePrefetch i left = .ok (s', ks)) :
    ∃ q, removeFrom s.pq i = .ok q ∧
      s' = { s with pq := q, readsAvailable := dec32 s.readsAvailable } ∧
      (ks = [] ∨ ks = [.handlePrefetch left]) := by
  obtain ⟨q, hq, h⟩ := bind_ok h
  exact ⟨q, hq, nextPrefetch_ok h⟩

theorem evict_effect {victim : Block} {cpu instrId : Nat} {next : List CacheCall} {c : CacheCall}
    (hv : victim = s.blockAt set way)
    (h : s.evict cfg victim cpu instrId next = .ok (s', ks)) : Effect cfg s c s' := by
  subst hv
  unfold evict at h
  split at h
  · rename_i hdirty
    split at h
    · split at h
      · cases h
        refine .still ⟨rfl, ?_⟩
        simp [writebacks]
      · cases h
        refine .evicted hdirty rfl
          (show _ = _ ++ [s.writebackPacket cfg _ cpu instrId] from ?_)
        rw [writebacks, List.filterMap_append]
        rfl
    · split at h
      · cases h
        exact .still (.of_eq rfl rfl)
      · cases h
  · cases h
    exact .still (.of_eq rfl rfl)

theorem handleFill_effect (h : s.handleFill cfg = .ok (s', ks)) {c : CacheCall} :
    Effect cfg s c s' := by
  unfold handleFill at h
  dsimp only at h
  split at h
  · cases h
    exact .still (.of_eq rfl rfl)
  · split at h
    · split at h
      · cases h
      · split at h
        · cases h
        · exact evict_effect rfl h
    · cases h
      exact .still (.of_eq rfl rfl)

theorem fillCache_markRfo (cfg : CacheConfig) (s : Cache) (set way : Nat) (e : CachePacket) :
    ∃ block dirty, (s.fillCache set way e).markRfo cfg set way e = { s with block := block } ∧
      linesOf block = putLine s.lines set way (lineOf e dirty) := by
  unfold markRfo
  split
  · exact ⟨_, true, rfl, fillCache_markDirty_lines s set way e⟩
  · exact ⟨_, false, rfl, fillCache_lines s set way e⟩

theorem finishFill_ok {i : Nat} (h : s.finishFill cfg i set way = .ok s') :
    ∃ block dirty q, removeFrom s.mshr i = .ok q ∧
      linesOf block = putLine s.lines set way (lineOf (s.mshr.entryAt i) dirty) ∧
      s' = { s with
        block := block
        mshr := q.updateFillCycle
        answers := s.answers ++
          (cfg.waiters (s.mshr.entryAt i)).map fun p => (p, s.mshr.entryAt i) } := by
  obtain ⟨s₁, hrep, h⟩ := bind_ok h
  obtain ⟨block₁, rfl, hlines₁⟩ := updateReplacementState_ok hrep
  obtain ⟨block, dirty, heq, hlines⟩ :=
    fillCache_markRfo cfg { s with block := block₁ } set way (s.mshr.entryAt i)
  rw [heq] at h
  obtain ⟨q, hq, rfl⟩ := removeMshr_ok h
  exact ⟨block, dirty, q, hq, hlines.trans (congrArg (putLine · set way _) hlines₁), rfl⟩

theorem finishWriteback_ok {i : Nat} (h : s.finishWriteback cfg i set way = .ok s') :
    ∃ block q, removeFrom s.wq i = .ok q ∧
      linesOf block = putLine s.lines set way (lineOf (s.wq.entryAt i) true) ∧
      s' = { s with
        block := block
        wq := q
        answers := s.answers ++
          (cfg.waiters (s.wq.entryAt i)).map fun p => (p, s.wq.entryAt i) } := by
  obtain ⟨s₁, hrep, h⟩ := bind_ok h
  obtain ⟨block₁, rfl, hlines₁⟩ := updateReplacementState_ok hrep
  obtain ⟨q, hq, rfl⟩ := removeWrite_ok h
  refine ⟨_, q, hq, ?_, rfl⟩
  exact (fillCache_markDirty_lines { s with block := block₁ } set way _).trans
    (congrArg (putLine · set way _) hlines₁)

theorem writebackHit_ok {i : Nat} (h : s.writebackHit cfg i way = .ok s') :
    ∃ block q, removeFrom s.wq i = .ok q ∧
      linesOf block = putLine s.lines (cfg.getSet (s.wq.entryAt i).address) way
        { (s.blockAt (cfg.getSet (s.wq.entryAt i).address) way).line with dirty := true } ∧
      s' = { s with
        block := block
        wq := q
        answers := s.answers ++
          (cfg.waiters (s.wq.entryAt i)).map fun p => (p, s.wq.entryAt i) } := by
  obtain ⟨s₁, hrep, h⟩ := bind_ok h
  obtain ⟨block₁, rfl, hlines₁⟩ := updateReplacementState_ok hrep
  obtain ⟨q, hq, rfl⟩ := removeWrite_ok h
  refine ⟨_, q, hq, ?_, rfl⟩
  refine (setBlock_lines { s with block := block₁ } _ way _).trans ?_
  have hat := blockAt_line { s with block := block₁ } (cfg.getSet (s.wq.entryAt i).address) way
  have hlines : lines { s with block := block₁ } = s.lines := hlines₁
  rw [hlines, ← blockAt_line] at hat
  rw [hlines, ← hat]
  rfl

/-! ## Every call -/

theorem addRq_still {pkt : CachePacket} {rc : Int} (h : s.addRq cfg pkt = .ok (s', rc)) :
    Still s s' := by
  unfold addRq at h
  split at h
  · split at h
    all_goals cases h
    exact .of_eq rfl rfl
  · split at h
    · cases h
      exact .of_eq rfl rfl
    · split at h
      · cases h
        exact .of_eq rfl rfl
      · split at h
        · cases h
        · split at h
          · cases h
          · cases h
            exact .of_eq rfl rfl

theorem addWq_still {pkt : CachePacket} {rc : Int} (h : s.addWq cfg pkt = .ok (s', rc)) :
    Still s s' := by
  unfold addWq at h
  split at h
  · cases h
    exact .of_eq rfl rfl
  · split at h
    · cases h
    · split at h
      · cases h
      · cases h
        exact .of_eq rfl rfl

theorem addPq_still {pkt : CachePacket} {rc : Int} (h : s.addPq cfg pkt = .ok (s', rc)) :
    Still s s' := by
  unfold addPq at h
  split at h
  · cases h
    exact .of_eq rfl rfl
  · split at h
    · cases h
      exact .of_eq rfl rfl
    · split at h
      · cases h
        exact .of_eq rfl rfl
      · split at h
        · cases h
        · split at h
          · cases h
          · cases h
            exact .of_eq rfl rfl

theorem returnData_still {pkt : CachePacket} (h : s.returnData pkt = .ok s') : Still s s' := by
  unfold returnData at h
  split at h
  · cases h
  · cases h
    exact .of_eq rfl rfl

theorem askLower_still {s₀ : Cache} {op : LowerCall} {next : List CacheCall}
    (hop : ∀ pkt, op ≠ .addWq pkt) (h : s.askLower op next = .ok (s', ks))
    (h₀ : Still s₀ s) : Still s₀ s' := by
  cases h
  refine h₀.trans ⟨rfl, ?_⟩
  rw [writebacks, List.filterMap_append]
  cases op with
  | addWq pkt => exact absurd rfl (hop pkt)
  | addRq pkt => exact List.append_nil _
  | addPq pkt => exact List.append_nil _
  | incrementWqFull a => exact List.append_nil _

theorem prefetch_still {cpu : Nat} {act : PrefetchAct}
    (h : s.prefetch cfg cpu act = .ok (s', ks)) : Still s s' := by
  cases act with
  | line p =>
      cases h
      exact .of_eq rfl rfl
  | codeLine vAddr pa invalidated =>
      rw [prefetch] at h
      split at h
      · cases h
      · cases h
        exact .of_eq rfl rfl

theorem handleWriteback_effect (h : s.handleWriteback cfg = .ok (s', ks)) :
    Effect cfg s .handleWriteback s' := by
  unfold handleWriteback at h
  dsimp only at h
  split at h
  · cases h
    exact .still (.of_eq rfl rfl)
  · split at h
    · split at h
      · rename_i way hhit
        obtain ⟨s₁, hw, heq⟩ := map_ok h
        cases heq
        obtain ⟨block, q, -, hlines, rfl⟩ := writebackHit_ok hw
        obtain ⟨hmem, hvalid, -⟩ := checkHit_some hhit
        exact .dirtied hmem hvalid hlines rfl
      · split at h
        · unfold rfoMiss at h
          dsimp only at h
          split at h
          · cases h
            exact .still (.of_eq rfl rfl)
          · split at h
            · exact .still (askLower_still (fun _ heq => by cases heq) h (.of_eq rfl rfl))
            · split at h
              · cases h
                exact .still (.of_eq rfl rfl)
              · cases h
        · unfold writebackMiss at h
          dsimp only at h
          split at h
          · cases h
          · exact evict_effect rfl h
    · cases h
      exact .still (.of_eq rfl rfl)

theorem readMiss_still {i left : Nat} (h : s.readMiss cfg i left = .ok (s', ks)) : Still s s' := by
  unfold readMiss at h
  dsimp only at h
  split at h
  · split at h
    · obtain ⟨rfl, -⟩ := nextRead_ok h
      exact .of_eq rfl rfl
    · exact askLower_still (fun _ heq => by cases heq) h (.of_eq rfl rfl)
  · split at h
    · exact askLower_still (fun _ heq => by cases heq) h (.of_eq rfl rfl)
    · split at h
      · cases h
        exact .of_eq rfl rfl
      · cases h
        exact .of_eq rfl rfl

theorem handleRead_still {left : Nat} (h : s.handleRead cfg left = .ok (s', ks)) : Still s s' := by
  cases left with
  | zero =>
      cases h
      exact .of_eq rfl rfl
  | succ left =>
      rw [handleRead] at h
      split at h
      · cases h
        exact .of_eq rfl rfl
      · split at h
        · split at h
          · cases h
            exact .of_eq rfl rfl
          · split at h
            · cases h
              exact .of_eq rfl rfl
            · split at h
              · exact readMiss_still h
              · split at h
                · obtain ⟨rfl, -⟩ := nextRead_ok h
                  exact .of_eq rfl rfl
                · cases h
        · cases h
          exact .of_eq rfl rfl

theorem finishReadHit_still {i left : Nat} (h : s.finishReadHit cfg i way left = .ok (s', ks)) :
    Still s s' := by
  obtain ⟨s₁, hrep, h⟩ := bind_ok h
  obtain ⟨block, rfl, hlines⟩ := updateReplacementState_ok hrep
  obtain ⟨q, rfl, -⟩ := removeRead_ok h
  exact ⟨hlines, rfl⟩

theorem handlePrefetch_still {left : Nat} (h : s.handlePrefetch cfg left = .ok (s', ks)) :
    Still s s' := by
  cases left with
  | zero =>
      cases h
      exact .of_eq rfl rfl
  | succ left =>
      rw [handlePrefetch] at h
      split at h
      · cases h
        exact .of_eq rfl rfl
      · split at h
        · split at h
          · obtain ⟨s₁, hrep, heq⟩ := map_ok h
            obtain ⟨block, rfl, hlines⟩ := updateReplacementState_ok hrep
            cases heq
            exact ⟨hlines, rfl⟩
          · split at h
            · cases h
              exact .of_eq rfl rfl
            · split at h
              · split at h
                · split at h
                  · obtain ⟨rfl, -⟩ := nextPrefetch_ok h
                    exact .of_eq rfl rfl
                  · cases h
                    exact .of_eq rfl rfl
                · cases h
                  exact .of_eq rfl rfl
              · split at h
                · obtain ⟨rfl, -⟩ := nextPrefetch_ok h
                  exact .of_eq rfl rfl
                · cases h
        · cases h
          exact .of_eq rfl rfl

theorem prefetchMiss_still {i left : Nat} (h : s.prefetchMiss cfg i left = .ok (s', ks)) :
    Still s s' := by
  unfold prefetchMiss at h
  have hop : ∀ pkt, (if cfg.cacheType = .llc then LowerCall.addRq (s.pq.entryAt i)
      else .addPq (s.pq.entryAt i)) ≠ .addWq pkt := by
    intro pkt
    split <;> simp
  dsimp only at h
  split at h
  · exact askLower_still hop h (.of_eq rfl rfl)
  · exact askLower_still hop h (.of_eq rfl rfl)

theorem invalidateEntry_effect (a : Nat) :
    Effect cfg s (.invalidateEntry a) (s.invalidateEntry cfg a) := by
  unfold invalidateEntry
  split
  · rename_i way hhit
    exact .invalidated hhit (setBlock_lines ..) rfl
  · exact .still (.of_eq rfl rfl)

/-- **What a call can do to the lines.** -/
theorem exec_effect {c : CacheCall} (h : s.exec cfg c = .ok (s', ks)) : Effect cfg s c s' := by
  cases c with
  | addRq pkt =>
      obtain ⟨⟨s₁, rc⟩, hr, rfl⟩ := map_ok (last_ok h).1
      exact .still (addRq_still hr)
  | addWq pkt =>
      obtain ⟨⟨s₁, rc⟩, hr, rfl⟩ := map_ok (last_ok h).1
      exact .still (addWq_still hr)
  | addPq pkt =>
      obtain ⟨⟨s₁, rc⟩, hr, rfl⟩ := map_ok (last_ok h).1
      exact .still (addPq_still hr)
  | invalidateEntry a =>
      cases h
      exact invalidateEntry_effect a
  | returnData r => exact .still (returnData_still (last_ok h).1)
  | prefetcher cpu =>
      cases h
      exact .still (.of_eq rfl rfl)
  | prefetch cpu act => exact .still (prefetch_still h)
  | handleFill => exact handleFill_effect h
  | finishFill i set way =>
      obtain ⟨block, dirty, q, -, hlines, rfl⟩ := finishFill_ok (last_ok h).1
      exact .filled dirty hlines rfl
  | handleWriteback => exact handleWriteback_effect h
  | finishWriteback i set way =>
      obtain ⟨block, q, -, hlines, rfl⟩ := finishWriteback_ok (last_ok h).1
      exact .installed hlines rfl
  | removeWrite i =>
      obtain ⟨q, -, rfl⟩ := removeWrite_ok (last_ok h).1
      exact .still (.of_eq rfl rfl)
  | startReads =>
      cases h
      exact .still (.of_eq rfl rfl)
  | handleRead left => exact .still (handleRead_still h)
  | finishReadHit i way left => exact .still (finishReadHit_still h)
  | walked i =>
      have hret := returnData_still (last_ok h).1
      exact .still ⟨hret.lines, hret.writebacks⟩
  | readMissHandled i left =>
      cases h
      exact .still (.of_eq rfl rfl)
  | removeRead i left =>
      obtain ⟨q, rfl, -⟩ := removeRead_ok h
      exact .still (.of_eq rfl rfl)
  | startPrefetches =>
      cases h
      exact .still (.of_eq rfl rfl)
  | handlePrefetch left => exact .still (handlePrefetch_still h)
  | finishPrefetchHit i left =>
      obtain ⟨q, -, rfl, -⟩ := removePrefetch_ok h
      exact .still (.of_eq rfl rfl)
  | prefetchMiss i left => exact .still (prefetchMiss_still h)
  | removePrefetch i left =>
      obtain ⟨q, -, rfl, -⟩ := removePrefetch_ok h
      exact .still (.of_eq rfl rfl)

/-! ## Runs -/

/-- Every dirty line is valid. -/
def Live (s : Cache) : Prop := ∀ set, ∀ l ∈ s.lines set, l.dirty = true → l.valid = true

theorem mem_line {b : Block} (h : b ∈ s.block set) : b.line ∈ s.lines set :=
  List.mem_map_of_mem h

/-- The condition: an `invalidate_entry` that finds its line finds it clean. -/
def takesClean (cfg : CacheConfig) (s : Cache) : CacheCall → Bool
  | .invalidateEntry a =>
      (s.checkHit cfg a).all fun way => !(s.blockAt (cfg.getSet a) way).dirty
  | _ => true

theorem new_live (cfg : CacheConfig) : (new cfg).Live := by
  intro set l hl hd
  obtain ⟨b, hb, rfl⟩ := List.mem_map.mp hl
  obtain ⟨j, -, rfl⟩ := List.mem_map.mp hb
  cases hd

theorem Live.put (h : s.Live) {l : Line} (hl : l.dirty = true → l.valid = true)
    (hs : s'.lines = putLine s.lines set way l) : s'.Live := by
  intro set' l' hmem hd
  rw [hs] at hmem
  rcases mem_putLine hmem with hold | ⟨-, rfl⟩
  · exact h set' l' hold hd
  · exact hl hd

theorem Live.exec (h : s.Live) {c : CacheCall} (hok : s.takesClean cfg c = true)
    (he : s.exec cfg c = .ok (s', ks)) : s'.Live := by
  cases exec_effect he with
  | still hstill =>
      intro set l hl
      rw [hstill.lines] at hl
      exact h set l hl
  | evicted dirty lines sent =>
      intro set l hl
      rw [lines] at hl
      exact h set l hl
  | filled dirty lines sent => exact h.put (fun _ => rfl) lines
  | installed lines sent => exact h.put (fun _ => rfl) lines
  | dirtied mem valid lines sent => exact h.put (fun _ => valid) lines
  | @invalidated a way _ hit lines sent =>
      have hclean : (s.blockAt (cfg.getSet a) way).dirty = false := by
        simpa [takesClean, hit] using hok
      refine h.put (fun hd => ?_) lines
      cases hclean.symm.trans hd

/-- What is written back is a block of the cache. -/
theorem blockAt_mem (h : (s.blockAt set way).dirty = true) :
    s.blockAt set way ∈ s.block set := by
  unfold blockAt Lru.blockAt at h ⊢
  cases hb : (s.block set)[way]? with
  | none =>
      rw [hb] at h
      cases h
  | some b => exact List.mem_of_getElem? hb

/-- In a run in which every line that is invalidated is clean, dirty lines are
valid, and what a call writes back is a line that is valid and dirty in the
cache it is executed in. -/
theorem writeback_live {cfg : CacheConfig} {x : Worklist.Config Cache CacheCall}
    (h : ReachesIf (machine cfg) (fun _ => True)
      (fun x => x.1.head?.all (x.2.takesClean cfg) = true) (new cfg) x) :
    (∀ set, ∀ b ∈ x.2.block set, b.dirty = true → b.valid = true) ∧
      ∀ c s' ks, x.2.exec cfg c = .ok (s', ks) →
        ∀ pkt ∈ s'.writebacks.drop x.2.writebacks.length,
          ∃ set, ∃ b ∈ x.2.block set,
            b.valid = true ∧ b.dirty = true ∧ pkt.address = b.address := by
  have hlive : x.2.Live := by
    refine ReachesIf.invariant (P := fun x => x.2.Live) (new_live cfg) ?_ ?_ h
    · intro op s _ _ _ hs
      cases op <;> exact hs
    · intro c K s s' ks hok _ hs he
      exact hs.exec hok he
  refine ⟨fun set b hb hd => hlive set _ (mem_line hb) hd, ?_⟩
  intro c s' ks he pkt hpkt
  have hquiet : s'.writebacks = x.2.writebacks → False := fun hsent => by
    rw [hsent, List.drop_length] at hpkt
    cases hpkt
  cases exec_effect he with
  | still hstill => exact (hquiet hstill.writebacks).elim
  | filled dirty lines sent => exact (hquiet sent).elim
  | installed lines sent => exact (hquiet sent).elim
  | dirtied mem valid lines sent => exact (hquiet sent).elim
  | invalidated hit lines sent => exact (hquiet sent).elim
  | evicted dirty lines sent =>
      rw [sent, List.drop_left, List.mem_singleton] at hpkt
      have hmem := blockAt_mem dirty
      exact ⟨_, _, hmem, hlive _ _ (mem_line hmem) dirty, dirty, congrArg (·.address) hpkt⟩

end Cache

/-- `ooo_cpu[i].L2C`. -/
def l2c : CacheConfig where
  name := "L2C"
  cacheType := .l2c
  numSet := 512
  numWay := 8
  wqSize := 32
  rqSize := 32
  pqSize := 16
  mshrSize := l2cMshrSize
  fillLevel := 2
  maxRead := 1

namespace Cache

/-- The level below hands line 5 back. -/
def lineBack : Reply := ⟨{ address := 5, cpu := 0 }, by decide⟩

/-- A write-back from the first-level data cache. -/
def dirtyLine (address : Nat) : CachePacket :=
  { address := address, cpu := 0, type := .writeback, eventCycle := 0, fillLevel := 2 }

/-- Nine dirty lines of one set: the first is written back for the ninth. -/
def crowding : List CacheOp :=
  (List.range 9).flatMap fun i => [.addWq (dirtyLine (512 * i + 5)), .operate {}]

theorem writeback_live_crowding :
    ∃ s, ReachesIf (machine l2c) (fun _ => True)
        (fun x => x.1.head?.all (x.2.takesClean l2c) = true) (new l2c) ([], s) ∧
      s.writebacks.map (·.address) = [5] ∧
      ∀ set, ∀ b ∈ s.block set, b.dirty = true → b.valid = true := by
  obtain ⟨s, hs, hsent⟩ := Option.map_eq_some_iff.mp (show (Worklist.driveIf (machine l2c)
    (fun x => x.1.head?.all (x.2.takesClean l2c) = true) 60 crowding (new l2c)).map
      (fun s => s.writebacks.map (·.address)) = some [5] by decide +kernel)
  have hr := Worklist.driveIf_reaches (fun _ _ => trivial) .refl hs
  exact ⟨s, hr, hsent, (writeback_live hr).1⟩

/-- A page is swapped out while a line of it is dirty in the cache. -/
def swapOut : List CacheOp := [.addWq (dirtyLine 5), .operate {}, .invalidateEntry 5]

/-- Another line is written to the same set. -/
def refill : List CacheOp := [.addWq (dirtyLine 517), .operate {}]

/-- The line is dirty and no longer valid, and it is written back when its way
is used again. -/
theorem writeback_swapped_out :
    ∃ s s', Reaches (machine l2c) (fun _ => True) (new l2c) ([], s) ∧
      Reaches (machine l2c) (fun _ => True) (new l2c) ([], s') ∧
      (∃ b ∈ s.block 5, b.dirty = true ∧ b.valid = false ∧ b.address = 5) ∧
      (∀ b ∈ s.block 5, b.valid = false) ∧ s.writebacks = [] ∧
      s'.writebacks.map (·.address) = [5] := by
  obtain ⟨s, hs, hrun⟩ := Option.bind_eq_some_iff.mp (show (Worklist.drive (machine l2c) 60 swapOut
    (new l2c)).bind (fun s => (Worklist.drive (machine l2c) 60 refill s).map fun s' =>
      decide ((∃ b ∈ s.block 5, b.dirty = true ∧ b.valid = false ∧ b.address = 5) ∧
        (∀ b ∈ s.block 5, b.valid = false) ∧ s.writebacks = [] ∧
        s'.writebacks.map (·.address) = [5])) = some true by decide +kernel)
  obtain ⟨s', hs', hfacts⟩ := Option.map_eq_some_iff.mp hrun
  have hr := Worklist.drive_reaches (fun _ _ => trivial) .refl hs
  exact ⟨s, s', hr, Worklist.drive_reaches (fun _ _ => trivial) hr hs', of_decide_eq_true hfacts⟩

end Cache

end DramCache
