import DramCache.Dataflow

/-!
# The scoreboard

What holds of the reorder buffer while instructions are scheduled, executed and
completed out of order: who waits for whom, what the flags of an entry say
about each other, that entries are scheduled in line, and that the arrays of
what is ready to execute hold each entry that is, once.
-/

namespace DramCache

open Wakeup

/-! ## What is ready -/

namespace ReadyArray

/-- These indices are in the array. -/
def Holds (size : Nat) (a : ReadyArray) (is : List Nat) : Prop :=
  Ring.Holds size a.head a.tail a.entry none (is.map some)

variable {size i : Nat} {a : ReadyArray} {is : List Nat}

theorem holds_new (hpos : 0 < size) : Holds size (new size) [] := Ring.holds_nil hpos

theorem Holds.push (h : Holds size a is) (hroom : is.length < size) :
    Holds size (a.push size i) (is ++ [i]) := by
  have hring := Ring.Holds.push (x := some i) h (by rwa [List.length_map])
  rwa [Holds, List.map_append]

theorem Holds.pop (h : Holds size a (i :: is)) : Holds size (a.pop size) is := Ring.Holds.pop h

theorem Holds.front_eq (h : Holds size a is) : a.front = is.head? := by
  have hcell := Ring.cell_zero h.head_lt
  unfold front
  cases is with
  | nil =>
      have hdead := h.dead 0 (Nat.zero_lt_of_lt h.head_lt) le_rfl
      rw [hcell] at hdead
      rw [hdead]
      rfl
  | cons i is =>
      have hlive := h.live 0 (Nat.succ_pos _)
      rw [hcell] at hlive
      rw [hlive]
      rfl

theorem Holds.not_occupied (h : Holds size a is) (hroom : is.length < size) :
    a.occupied = false := by
  have hdead := h.dead is.length hroom (by rw [List.length_map])
  have htail := h.tail_eq
  rw [List.length_map] at htail
  unfold occupied
  rw [htail, hdead]
  rfl

end ReadyArray

/-! ## Entries -/

/-- What the scoreboard goes by. -/
def OooInstr.sched (e : OooInstr) : OooInstr :=
  { e with
    eventCycle := 0
    isProducer := false
    numMemOps := 0
    memoryInstrsDependOnMe := []
    sourceAdded := []
    destinationAdded := []
    lqIndex := []
    sqIndex := [] }

namespace CoreBuffer

/-- The `p`-th entry from the head. -/
def nth (b : CoreBuffer) (p : Nat) : OooInstr := b.entryAt (Ring.cell b.size b.head p)

namespace Holds

variable {b : CoreBuffer} {x e : OooInstr} {xs : List OooInstr} {p : Nat}

theorem nth_lt (h : b.Holds xs) (p : Nat) : Ring.cell b.size b.head p < b.entry.length :=
  h.length.symm ▸ Ring.cell_lt h.ring.head_lt p

theorem tail_cell (h : b.Holds xs) : b.tail = Ring.cell b.size b.head b.occupancy := by
  rw [h.ring.tail_eq, h.occupancy]

theorem push_nth (h : b.Holds xs) (hroom : b.occupancy < b.size) (hp : p < b.size)
    (hne : p ≠ b.occupancy) : (b.push e).nth p = b.nth p := by
  unfold nth entryAt CoreBuffer.push
  dsimp only
  rw [List.getElem?_set_ne]
  intro heq
  exact hne (Ring.cell_inj h.ring.head_lt hp hroom (heq.symm.trans h.tail_cell))

theorem push_nth_last (h : b.Holds xs) : (b.push e).nth b.occupancy = e := by
  have hlt := h.nth_lt b.occupancy
  rw [← h.tail_cell] at hlt
  unfold nth entryAt CoreBuffer.push
  dsimp only
  rw [← h.tail_cell, List.getElem?_set_self hlt]
  rfl

theorem pop_nth (h : b.Holds xs) (hp : p + 1 < b.size) : b.pop.nth p = b.nth (p + 1) := by
  have hlt := h.ring.head_lt
  unfold nth
  change b.pop.entryAt (Ring.cell b.size (Ring.advance b.size b.head) p) = _
  rw [Ring.cell_advance hlt]
  unfold entryAt CoreBuffer.pop
  dsimp only
  rw [List.getElem?_set_ne]
  intro heq
  have hzero := Ring.cell_inj hlt hp (Nat.zero_lt_of_lt hlt) (heq.symm.trans (Ring.cell_zero hlt).symm)
  exact Nat.succ_ne_zero p hzero

end Holds

structure SameSched (b b' : CoreBuffer) : Prop where
  size : b'.size = b.size
  head : b'.head = b.head
  tail : b'.tail = b.tail
  occupancy : b'.occupancy = b.occupancy
  nextFetch : b'.nextFetch = b.nextFetch
  length : b'.entry.length = b.entry.length
  entry : ∀ c, (b'.entryAt c).sched = (b.entryAt c).sched

theorem SameSched.refl (b : CoreBuffer) : b.SameSched b :=
  ⟨rfl, rfl, rfl, rfl, rfl, rfl, fun _ => rfl⟩

theorem SameSched.trans {b b' b'' : CoreBuffer} (h : b.SameSched b') (h' : b'.SameSched b'') :
    b.SameSched b'' :=
  ⟨h'.size.trans h.size, h'.head.trans h.head, h'.tail.trans h.tail,
    h'.occupancy.trans h.occupancy, h'.nextFetch.trans h.nextFetch, h'.length.trans h.length,
    fun c => (h'.entry c).trans (h.entry c)⟩

theorem SameSched.field {β : Type*} {b b' : CoreBuffer} (h : b.SameSched b') (v : OooInstr → β)
    (hv : ∀ e, v e = v e.sched) (c : Nat) : v (b'.entryAt c) = v (b.entryAt c) := by
  rw [hv, h.entry, ← hv]

theorem SameSched.modify {b : CoreBuffer} {i : Nat} {f : OooInstr → OooInstr}
    (hf : ∀ e, (f e).sched = e.sched) : b.SameSched (b.modify i f) := by
  refine ⟨rfl, rfl, rfl, rfl, rfl, modify_entry_length, fun c => ?_⟩
  by_cases hc : i = c
  · subst hc
    by_cases hi : i < b.entry.length
    · rw [entryAt_modify_self hi, hf]
    · unfold entryAt CoreBuffer.modify
      rw [List.modify_eq_self (Nat.le_of_not_lt hi)]
  · rw [entryAt_modify_ne hc]

end CoreBuffer

/-- What the flags of an entry say about each other. -/
structure Flags (b : CoreBuffer) : Prop where
  fresh : ∀ c, (b.entryAt c).scheduled = .idle → (b.entryAt c).Fresh
  memory : ∀ c, (b.entryAt c).isMemory = true →
    ((b.entryAt c).scheduled = .completed ↔ (b.entryAt c).executed ≠ .idle)
  plain : ∀ c, (b.entryAt c).isMemory = false → (b.entryAt c).scheduled ≠ .inflight
  ready : ∀ c, (b.entryAt c).executed ≠ .idle → (b.entryAt c).regReady = true
  awake : ∀ c, (b.entryAt c).scheduled ≠ .idle → (b.entryAt c).numRegDependent = 0 →
    (b.entryAt c).regReady = true

/-- Entries are scheduled in line, and what they need of older ones is done, or
waited for. -/
structure InLine (b : CoreBuffer) (w : Nat → Nat → Option Nat) : Prop where
  nextFetch : b.nextFetch = 0
  dead : ∀ p, b.occupancy ≤ p → p < b.size →
    (b.nth p).scheduled = .idle ∧ (b.nth p).fetched ≠ .completed
  inOrder : ∀ p q, p < q → q < b.occupancy → (b.nth q).scheduled ≠ .idle →
    (b.nth p).scheduled ≠ .idle
  known : ∀ p q, p < q → q < b.occupancy → (b.nth q).scheduled ≠ .idle →
    ∀ j < numInstrSources, (b.nth q).sourceRegister j ≠ 0 →
      (b.nth p).writes ((b.nth q).sourceRegister j) = true →
      (∀ m, p < m → m < q → (b.nth m).writes ((b.nth q).sourceRegister j) = false) →
      (b.nth p).executed = .completed ∨
        w (Ring.cell b.size b.head q) j = some (Ring.cell b.size b.head p)
  older : ∀ p q, p < b.size → q < b.size → ∀ j,
    w (Ring.cell b.size b.head q) j = some (Ring.cell b.size b.head p) → p < q

structure Scoreboard (b : CoreBuffer) (w : Nat → Nat → Option Nat) : Prop where
  linked : Linked b w
  recorded : Recorded b w
  flags : Flags b
  line : InLine b w

/-! ### Entries that look the same -/

/-- What the account of the dependencies goes by. -/
def OooInstr.links (e : OooInstr) : OooInstr :=
  { regReady := e.regReady
    regRAWProducer := e.regRAWProducer
    numRegDependent := e.numRegDependent
    regRAWChecked := e.regRAWChecked
    registersInstrsDependOnMe := e.registersInstrsDependOnMe
    registersIndexDependOnMe := e.registersIndexDependOnMe }

theorem Linked.congr {b b' : CoreBuffer} {w : Nat → Nat → Option Nat} (hl : Linked b w)
    (hlength : b'.entry.length = b.entry.length)
    (he : ∀ c, (b'.entryAt c).links = (b.entryAt c).links) : Linked b' w := by
  have hchecked : ∀ c (j : Nat), (b'.entryAt c).regRAWChecked[j]?.getD false =
      (b.entryAt c).regRAWChecked[j]?.getD false := fun c j =>
    congrArg (fun e => e.regRAWChecked[j]?.getD false) (he c)
  have hindex : ∀ c j, (b'.entryAt c).indexDependOnMe j = (b.entryAt c).indexDependOnMe j :=
    fun c j => (congrArg (OooInstr.indexDependOnMe · j) (he c) :)
  have hinstrs : ∀ c, (b'.entryAt c).registersInstrsDependOnMe =
      (b.entryAt c).registersInstrsDependOnMe := fun c =>
    (congrArg OooInstr.registersInstrsDependOnMe (he c) :)
  exact {
    slot := fun hw => hlength ▸ hl.slot hw
    checked := fun hw => (hchecked _ _).trans (hl.checked hw)
    count := fun d => (congrArg OooInstr.numRegDependent (he d)).trans (hl.count d)
    ready := fun d hd => hl.ready d ((congrArg OooInstr.regReady (he d)).symm.trans hd)
    instrs := fun c d => by
      rw [hinstrs, hl.instrs c d]
      exact exists_congr fun j => and_congr Iff.rfl (by rw [hindex])
    nodup := fun c => by
      rw [hinstrs]
      exact hl.nodup c
    producer := fun c hc => (congrArg OooInstr.regRAWProducer (he c)).trans
      (hl.producer c (by rwa [← hinstrs]))
    sized := fun c =>
      ⟨(congrArg (fun e => e.regRAWChecked.length) (he c)).trans (hl.sized c).checked,
        (congrArg (fun e => e.registersIndexDependOnMe.length) (he c)).trans (hl.sized c).index⟩ }

section Same

variable {b b' : CoreBuffer} {w : Nat → Nat → Option Nat} (h : b.SameSched b')
include h

theorem Linked.same (hl : Linked b w) : Linked b' w :=
  hl.congr h.length fun c => h.field OooInstr.links (fun _ => rfl) c

theorem Recorded.same (hr : Recorded b w) : Recorded b' w := by
  intro c d j
  rw [h.field OooInstr.executed (fun _ => rfl), h.field (OooInstr.indexDependOnMe · j) (fun _ => rfl)]
  exact hr c d j

theorem Flags.same (hf : Flags b) : Flags b' where
  fresh c hc := by
    have hfresh := hf.fresh c ((h.field OooInstr.scheduled (fun _ => rfl) c).symm.trans hc)
    exact {
      executed := (h.field OooInstr.executed (fun _ => rfl) c).trans hfresh.executed
      regReady := (h.field OooInstr.regReady (fun _ => rfl) c).trans hfresh.regReady
      numRegDependent :=
        (h.field OooInstr.numRegDependent (fun _ => rfl) c).trans hfresh.numRegDependent
      checked := fun j => (h.field (fun e => e.regRAWChecked[j]?.getD false) (fun _ => rfl) c).trans
        (hfresh.checked j)
      instrs := (h.field OooInstr.registersInstrsDependOnMe (fun _ => rfl) c).trans hfresh.instrs
      index := fun j => (h.field (OooInstr.indexDependOnMe · j) (fun _ => rfl) c).trans
        (hfresh.index j) }
  memory c := by
    rw [h.field OooInstr.isMemory (fun _ => rfl), h.field OooInstr.scheduled (fun _ => rfl),
      h.field OooInstr.executed (fun _ => rfl)]
    exact hf.memory c
  plain c := by
    rw [h.field OooInstr.isMemory (fun _ => rfl), h.field OooInstr.scheduled (fun _ => rfl)]
    exact hf.plain c
  ready c := by
    rw [h.field OooInstr.executed (fun _ => rfl), h.field OooInstr.regReady (fun _ => rfl)]
    exact hf.ready c
  awake c := by
    rw [h.field OooInstr.scheduled (fun _ => rfl), h.field OooInstr.numRegDependent (fun _ => rfl),
      h.field OooInstr.regReady (fun _ => rfl)]
    exact hf.awake c

theorem CoreBuffer.SameSched.nth {β : Type*} (v : OooInstr → β) (hv : ∀ e, v e = v e.sched)
    (p : Nat) : v (b'.nth p) = v (b.nth p) := by
  unfold CoreBuffer.nth
  rw [h.size, h.head]
  exact h.field v hv _

theorem InLine.same (hl : InLine b w) : InLine b' w where
  nextFetch := h.nextFetch.trans hl.nextFetch
  dead p := by
    rw [h.occupancy, h.size, h.nth OooInstr.scheduled (fun _ => rfl),
      h.nth OooInstr.fetched (fun _ => rfl)]
    exact hl.dead p
  inOrder p q := by
    rw [h.occupancy, h.nth OooInstr.scheduled (fun _ => rfl),
      h.nth OooInstr.scheduled (fun _ => rfl)]
    exact hl.inOrder p q
  known p q hpq hq hscheduled j hj hsource hwrites hlast := by
    have hreg : (b'.nth q).sourceRegister j = (b.nth q).sourceRegister j :=
      h.nth (OooInstr.sourceRegister · j) (fun _ => rfl) q
    have hwriter : ∀ m r, (b'.nth m).writes r = (b.nth m).writes r := fun m r =>
      h.nth (OooInstr.writes · r) (fun _ => rfl) m
    rw [hreg] at hsource
    rw [hreg, hwriter] at hwrites
    rw [h.nth OooInstr.executed (fun _ => rfl), h.size, h.head]
    refine hl.known p q hpq (h.occupancy ▸ hq)
      ((h.nth OooInstr.scheduled (fun _ => rfl) q).symm.trans_ne hscheduled) j hj hsource hwrites
      fun m hpm hmq => ?_
    rw [← hreg, ← hwriter]
    exact hlast m hpm hmq
  older p q := by
    rw [h.size, h.head]
    exact hl.older p q

theorem Scoreboard.same (hs : Scoreboard b w) : Scoreboard b' w :=
  ⟨hs.linked.same h, hs.recorded.same h, hs.flags.same h, hs.line.same h⟩

end Same

/-! ## One entry changes -/

section Modify

variable {b : CoreBuffer} {w : Nat → Nat → Option Nat} {c : Nat} {f : OooInstr → OooInstr}

/-- What the change does not touch. -/
theorem CoreBuffer.modify_field {β : Type*} (v : OooInstr → β)
    (hv : v (f (b.entryAt c)) = v (b.entryAt c)) (d : Nat) :
    v ((b.modify c f).entryAt d) = v (b.entryAt d) := by
  by_cases hd : c = d
  · subst hd
    by_cases hc : c < b.entry.length
    · rw [entryAt_modify_self hc, hv]
    · unfold entryAt CoreBuffer.modify
      rw [List.modify_eq_self (Nat.le_of_not_lt hc)]
  · rw [entryAt_modify_ne hd]

theorem CoreBuffer.modify_nth {β : Type*} (v : OooInstr → β)
    (hv : v (f (b.entryAt c)) = v (b.entryAt c)) (p : Nat) :
    v ((b.modify c f).nth p) = v (b.nth p) :=
  CoreBuffer.modify_field v hv _

/-- An entry whose registers are there is executed. -/
theorem Flags.execute (h : Flags b) (hc : c < b.entry.length)
    (hready : (b.entryAt c).regReady = true)
    (hf : f (b.entryAt c) = { b.entryAt c with
      eventCycle := (f (b.entryAt c)).eventCycle
      scheduled := .completed
      executed := .inflight }) :
    Flags (b.modify c f) := by
  have hself : (b.modify c f).entryAt c = f (b.entryAt c) := CoreBuffer.entryAt_modify_self hc
  have hne : ∀ d, d ≠ c → (b.modify c f).entryAt d = b.entryAt d := fun d hd =>
    CoreBuffer.entryAt_modify_ne (Ne.symm hd)
  refine ⟨fun d => ?_, fun d => ?_, fun d => ?_, fun d => ?_, fun d => ?_⟩ <;>
    by_cases hd : d = c
  · subst hd
    rw [hself, hf]
    exact fun h => Returned.noConfusion h
  · rw [hne d hd]
    exact h.fresh d
  · subst hd
    rw [hself, hf]
    exact fun _ => ⟨fun _ => Returned.noConfusion, fun _ => rfl⟩
  · rw [hne d hd]
    exact h.memory d
  · subst hd
    rw [hself, hf]
    exact fun _ => Returned.noConfusion
  · rw [hne d hd]
    exact h.plain d
  · subst hd
    rw [hself, hf]
    exact fun _ => hready
  · rw [hne d hd]
    exact h.ready d
  · subst hd
    rw [hself, hf]
    exact fun _ _ => hready
  · rw [hne d hd]
    exact h.awake d

/-- It is still not complete. -/
theorem Recorded.execute (h : Recorded b w) (hc : c < b.entry.length)
    (hidle : (b.entryAt c).executed = .idle)
    (hf : f (b.entryAt c) = { b.entryAt c with
      eventCycle := (f (b.entryAt c)).eventCycle
      scheduled := .completed
      executed := .inflight }) :
    Recorded (b.modify c f) w := by
  intro q d j
  rw [CoreBuffer.modify_field (OooInstr.indexDependOnMe · j) (by rw [hf]; rfl), h q d j]
  refine and_congr ?_ Iff.rfl
  by_cases hq : q = c
  · subst hq
    rw [CoreBuffer.entryAt_modify_self hc, hf, hidle]
    exact ⟨fun _ => Returned.noConfusion, fun _ => Returned.noConfusion⟩
  · rw [CoreBuffer.entryAt_modify_ne (Ne.symm hq)]

/-- Entries that are executed or complete stay in line. -/
theorem InLine.progress (h : InLine b w)
    (hregs : (f (b.entryAt c)).sourceRegisters = (b.entryAt c).sourceRegisters ∧
      (f (b.entryAt c)).destinationRegisters = (b.entryAt c).destinationRegisters ∧
      (f (b.entryAt c)).fetched = (b.entryAt c).fetched)
    (hscheduled : (f (b.entryAt c)).scheduled = .idle ↔ (b.entryAt c).scheduled = .idle)
    (hdone : (b.entryAt c).executed = .completed → (f (b.entryAt c)).executed = .completed) :
    InLine (b.modify c f) w := by
  have hidle : ∀ d, ((b.modify c f).entryAt d).scheduled = .idle ↔
      (b.entryAt d).scheduled = .idle := fun d =>
    (CoreBuffer.modify_field (fun e => e.scheduled = .idle) (propext hscheduled) d).to_iff
  have hsource : ∀ p j, ((b.modify c f).nth p).sourceRegister j = (b.nth p).sourceRegister j :=
    fun p j => CoreBuffer.modify_nth (OooInstr.sourceRegister · j)
      (by unfold OooInstr.sourceRegister; rw [hregs.1]) p
  have hwriter : ∀ p r, ((b.modify c f).nth p).writes r = (b.nth p).writes r :=
    fun p r => CoreBuffer.modify_nth (OooInstr.writes · r)
      (by unfold OooInstr.writes; rw [hregs.2.1]) p
  refine ⟨h.nextFetch, fun p hp hps => ?_, fun p q hpq hq hqs => ?_,
    fun p q hpq hq hqs j hj hne hwrites hlast => ?_, h.older⟩
  · obtain ⟨hs, hfetched⟩ := h.dead p hp hps
    refine ⟨(hidle _).mpr hs, ?_⟩
    rwa [CoreBuffer.modify_nth OooInstr.fetched hregs.2.2]
  · exact fun hps => h.inOrder p q hpq hq (fun h => hqs ((hidle _).mpr h)) ((hidle _).mp hps)
  · rw [hsource] at hne hwrites
    rw [hwriter] at hwrites
    have hknown := h.known p q hpq hq (fun h => hqs ((hidle _).mpr h)) j hj hne hwrites
      fun m hpm hmq => by
        have hm := hlast m hpm hmq
        rwa [hsource, hwriter] at hm
    refine hknown.imp_left fun hcompleted => ?_
    unfold CoreBuffer.nth at hcompleted ⊢
    change (((b.modify c f).entryAt (Ring.cell b.size b.head p)).executed = .completed)
    by_cases hp : Ring.cell b.size b.head p = c
    · rw [hp] at hcompleted ⊢
      by_cases hc : c < b.entry.length
      · rw [CoreBuffer.entryAt_modify_self hc]
        exact hdone hcompleted
      · unfold CoreBuffer.entryAt CoreBuffer.modify
        rw [List.modify_eq_self (Nat.le_of_not_lt hc)]
        exact hcompleted
    · rwa [CoreBuffer.entryAt_modify_ne (Ne.symm hp)]

theorem Scoreboard.execute (h : Scoreboard b w) (hc : c < b.entry.length)
    (hready : (b.entryAt c).regReady = true) (hidle : (b.entryAt c).executed = .idle)
    (hscheduled : (b.entryAt c).scheduled ≠ .idle)
    (hf : f (b.entryAt c) = { b.entryAt c with
      eventCycle := (f (b.entryAt c)).eventCycle
      scheduled := .completed
      executed := .inflight }) :
    Scoreboard (b.modify c f) w where
  linked := h.linked.congr CoreBuffer.modify_entry_length
    (CoreBuffer.modify_field OooInstr.links (by rw [hf]; rfl))
  recorded := h.recorded.execute hc hidle hf
  flags := h.flags.execute hc hready hf
  line := h.line.progress (by rw [hf]; exact ⟨rfl, rfl, rfl⟩)
    (by rw [hf]; exact ⟨fun h => Returned.noConfusion h, fun h => absurd h hscheduled⟩)
    (by rw [hidle]; exact fun h => Returned.noConfusion h)

end Modify

/-! ## An entry is scheduled -/

/-- A cell behind the head, and its place. -/
theorem cell_sub {size head c : Nat} (hhead : head ≤ c) (hc : c < size) :
    Ring.cell size head (c - head) = c := by
  unfold Ring.cell
  rw [Nat.add_sub_cancel' hhead, Nat.mod_eq_of_lt hc]

section Schedule

variable {b b₂ b' : CoreBuffer} {w w' : Nat → Nat → Option Nat} {c : Nat} {xs : List OooInstr}

/-- The next entry to be scheduled: the ones before it in the array are. -/
structure Next (b : CoreBuffer) (c : Nat) : Prop where
  head : b.head ≤ c
  lt : c < b.size
  idle : (b.entryAt c).scheduled = .idle
  fetched : (b.entryAt c).fetched = .completed
  before : ∀ d, b.head ≤ d → d < c → (b.entryAt d).scheduled ≠ .idle

/-- It is in the buffer. -/
theorem Next.live (hn : Next b c) (h : InLine b w) : c - b.head < b.occupancy := by
  by_contra hdead
  refine (h.dead (c - b.head) (Nat.le_of_not_lt hdead) (by have := hn.lt; omega)).2 ?_
  unfold CoreBuffer.nth
  rw [cell_sub hn.head hn.lt]
  exact hn.fetched

/-- The entry is taken to be ready until a producer is found. -/
theorem Linked.markReady (h : Linked b w) (hzero : waiting numInstrSources w c = 0) :
    Linked (b.modify c fun e => { e with regReady := true }) w where
  slot hw := by
    rw [CoreBuffer.modify_entry_length]
    exact h.slot hw
  checked {d j} hw := by
    rw [CoreBuffer.modify_field (fun e => e.regRAWChecked[j]?.getD false) rfl]
    exact h.checked hw
  count d := by
    rw [CoreBuffer.modify_field OooInstr.numRegDependent rfl]
    exact h.count d
  ready d hd := by
    by_cases hdc : d = c
    · rw [hdc]
      exact hzero
    · rw [CoreBuffer.entryAt_modify_ne (Ne.symm hdc)] at hd
      exact h.ready d hd
  instrs q d := by
    rw [CoreBuffer.modify_field OooInstr.registersInstrsDependOnMe rfl, h.instrs q d]
    refine exists_congr fun j => and_congr Iff.rfl ?_
    rw [CoreBuffer.modify_field (OooInstr.indexDependOnMe · j) rfl]
  nodup q := by
    rw [CoreBuffer.modify_field OooInstr.registersInstrsDependOnMe rfl]
    exact h.nodup q
  producer q := by
    rw [CoreBuffer.modify_field OooInstr.registersInstrsDependOnMe rfl,
      CoreBuffer.modify_field OooInstr.regRAWProducer rfl]
    exact h.producer q
  sized q :=
    ⟨(CoreBuffer.modify_field (fun e => e.regRAWChecked.length) rfl q).trans (h.sized q).checked,
      (CoreBuffer.modify_field (fun e => e.registersIndexDependOnMe.length) rfl q).trans
        (h.sized q).index⟩

theorem Recorded.markReady (h : Recorded b w) :
    Recorded (b.modify c fun e => { e with regReady := true }) w := by
  intro q d j
  rw [CoreBuffer.modify_field OooInstr.executed rfl,
    CoreBuffer.modify_field (OooInstr.indexDependOnMe · j) rfl]
  exact h q d j

/-- Which entry is the last one scheduled does not matter. -/
theorem Found.setNextSchedule {b₀ : CoreBuffer} {k n : Nat} (h : Found b₀ b w w' c k n) (next : Nat) :
    Found b₀ { b with nextSchedule := next } w w' c k n where
  tied := ⟨h.tied.size, h.tied.head, h.tied.tail, h.tied.occupancy, h.tied.nextFetch,
    h.tied.length, h.tied.others, h.tied.self⟩
  linked := h.linked.congr rfl fun _ => rfl
  recorded := h.recorded
  others := h.others
  older := h.older
  awake := h.awake
  checked := h.checked
  known := h.known

/-- What `do_scheduling` makes of the buffer: the producers are found, and the
entry is scheduled. -/
structure Scheduling (b b₂ b' : CoreBuffer) (w w' : Nat → Nat → Option Nat) (c : Nat) : Prop where
  found : Found (b.modify c fun e => { e with regReady := true }) b₂ w w' c b.head numInstrSources
  size : b'.size = b₂.size
  head : b'.head = b₂.head
  occupancy : b'.occupancy = b₂.occupancy
  nextFetch : b'.nextFetch = b₂.nextFetch
  length : b'.entry.length = b₂.entry.length
  others : ∀ d, d ≠ c → b'.entryAt d = b₂.entryAt d
  self : b'.entryAt c = { b₂.entryAt c with
    eventCycle := (b'.entryAt c).eventCycle
    scheduled := if (b.entryAt c).isMemory then .inflight else .completed }

namespace Scheduling

variable (hs : Scheduling b b₂ b' w w' c)
include hs

theorem field {β : Type*} (v : OooInstr → β)
    (hv : ∀ (e : OooInstr) p instrs index id ready num checked cycle scheduled, v { e with
      regRAWProducer := p
      registersInstrsDependOnMe := instrs
      registersIndexDependOnMe := index
      producerId := id
      regReady := ready
      numRegDependent := num
      regRAWChecked := checked
      eventCycle := cycle
      scheduled := scheduled } = v e) (d : Nat) :
    v (b'.entryAt d) = v (b.entryAt d) := by
  have hfound : v (b₂.entryAt d) = v (b.entryAt d) := by
    rw [hs.found.tied.field v fun e p instrs index id ready num checked =>
      hv e p instrs index id ready num checked e.eventCycle e.scheduled]
    exact CoreBuffer.modify_field v (hv (b.entryAt c) (b.entryAt c).regRAWProducer
      (b.entryAt c).registersInstrsDependOnMe (b.entryAt c).registersIndexDependOnMe
      (b.entryAt c).producerId true (b.entryAt c).numRegDependent (b.entryAt c).regRAWChecked
      (b.entryAt c).eventCycle (b.entryAt c).scheduled) d
  rw [← hfound]
  by_cases hd : d = c
  · subst hd
    rw [hs.self]
    exact hv (b₂.entryAt d) (b₂.entryAt d).regRAWProducer (b₂.entryAt d).registersInstrsDependOnMe
      (b₂.entryAt d).registersIndexDependOnMe (b₂.entryAt d).producerId (b₂.entryAt d).regReady
      (b₂.entryAt d).numRegDependent (b₂.entryAt d).regRAWChecked _ _
  · rw [hs.others d hd]

/-- What only the sets of the other entries change. -/
theorem other {β : Type*} (v : OooInstr → β)
    (hv : ∀ (e : OooInstr) p instrs index, v { e with
      regRAWProducer := p
      registersInstrsDependOnMe := instrs
      registersIndexDependOnMe := index } = v e) {d : Nat} (hd : d ≠ c) :
    v (b'.entryAt d) = v (b.entryAt d) := by
  rw [hs.others d hd, hs.found.tied.others d hd, hv, CoreBuffer.entryAt_modify_ne (Ne.symm hd)]

theorem scheduled_self :
    (b'.entryAt c).scheduled = if (b.entryAt c).isMemory then .inflight else .completed := by
  rw [hs.self]

theorem linked : Linked b' w' := by
  refine hs.found.linked.congr hs.length fun d => ?_
  by_cases hd : d = c
  · subst hd
    rw [hs.self]
    rfl
  · rw [hs.others d hd]

theorem recorded : Recorded b' w' := by
  intro q d j
  have hsame : (b'.entryAt q).executed = (b₂.entryAt q).executed ∧
      (b'.entryAt q).indexDependOnMe j = (b₂.entryAt q).indexDependOnMe j := by
    by_cases hq : q = c
    · subst hq
      rw [hs.self]
      exact ⟨rfl, rfl⟩
    · rw [hs.others q hq]
      exact ⟨rfl, rfl⟩
  rw [hsame.1, hsame.2]
  exact hs.found.recorded q d j

/-- Nobody has come to wait for an entry that is not scheduled. -/
theorem index_idle (h : Scoreboard b w) (hn : Next b c) {d j : Nat} (hd : d ≠ c)
    (hidle : (b.entryAt d).scheduled = .idle) : (b'.entryAt d).indexDependOnMe j = [] := by
  have hfresh := h.flags.fresh d hidle
  refine List.eq_nil_iff_forall_not_mem.mpr fun x hx => ?_
  have hexecuted : (b'.entryAt d).executed ≠ .completed := by
    rw [hs.field OooInstr.executed (fun _ _ _ _ _ _ _ _ _ _ => rfl), hfresh.executed]
    exact Returned.noConfusion
  have hw := (hs.recorded d x j).mpr ⟨hexecuted, hx⟩
  by_cases hxc : x = c
  · subst hxc
    have holder := hs.found.older hw
    exact hn.before d holder.1 holder.2 hidle
  · rw [hs.found.others x hxc] at hw
    have hmem := ((h.recorded d x j).mp hw).2
    rw [hfresh.index j] at hmem
    exact List.not_mem_nil hmem

theorem flags (h : Scoreboard b w) (hn : Next b c) : Flags b' := by
  have hfresh := h.flags.fresh c hn.idle
  have hmemory := hs.field OooInstr.isMemory (fun _ _ _ _ _ _ _ _ _ _ => rfl)
  have hexecuted := hs.field OooInstr.executed (fun _ _ _ _ _ _ _ _ _ _ => rfl)
  have hne : (b'.entryAt c).scheduled ≠ .idle := by
    rw [hs.scheduled_self]
    split <;> exact Returned.noConfusion
  refine ⟨fun d hd => ?_, fun d => ?_, fun d => ?_, fun d => ?_, fun d => ?_⟩
  · have hdc : d ≠ c := by
      rintro rfl
      exact hne hd
    rw [hs.other OooInstr.scheduled (fun _ _ _ _ => rfl) hdc] at hd
    have hf := h.flags.fresh d hd
    exact {
      executed := (hexecuted d).trans hf.executed
      regReady := (hs.other OooInstr.regReady (fun _ _ _ _ => rfl) hdc).trans hf.regReady
      numRegDependent :=
        (hs.other OooInstr.numRegDependent (fun _ _ _ _ => rfl) hdc).trans hf.numRegDependent
      checked := fun j => (hs.other (fun e => e.regRAWChecked[j]?.getD false)
        (fun _ _ _ _ => rfl) hdc).trans (hf.checked j)
      instrs := by
        refine List.eq_nil_iff_forall_not_mem.mpr fun x hx => ?_
        obtain ⟨j, -, hj⟩ := (hs.linked.instrs d x).mp hx
        rw [hs.index_idle h hn hdc hd] at hj
        exact List.not_mem_nil hj
      index := fun j => hs.index_idle h hn hdc hd }
  · rw [hmemory, hexecuted]
    by_cases hd : d = c
    · subst hd
      intro hm
      rw [hs.scheduled_self, if_pos hm, hfresh.executed]
      exact ⟨fun h => Returned.noConfusion h, fun h => absurd rfl h⟩
    · rw [hs.other OooInstr.scheduled (fun _ _ _ _ => rfl) hd]
      exact h.flags.memory d
  · rw [hmemory]
    by_cases hd : d = c
    · subst hd
      intro hm
      rw [hs.scheduled_self, if_neg (by rw [hm]; exact Bool.false_ne_true)]
      exact Returned.noConfusion
    · rw [hs.other OooInstr.scheduled (fun _ _ _ _ => rfl) hd]
      exact h.flags.plain d
  · rw [hexecuted]
    by_cases hd : d = c
    · subst hd
      exact fun hex => absurd hfresh.executed hex
    · rw [hs.other OooInstr.regReady (fun _ _ _ _ => rfl) hd]
      exact h.flags.ready d
  · by_cases hd : d = c
    · subst hd
      intro _ hzero
      rw [hs.self] at hzero ⊢
      refine hs.found.awake ?_
      have hcount := hs.found.linked.count d
      rw [show (b₂.entryAt d).numRegDependent = 0 from hzero] at hcount
      exact (Int.natCast_eq_zero.mp hcount.symm)
    · rw [hs.other OooInstr.scheduled (fun _ _ _ _ => rfl) hd,
        hs.other OooInstr.numRegDependent (fun _ _ _ _ => rfl) hd,
        hs.other OooInstr.regReady (fun _ _ _ _ => rfl) hd]
      exact h.flags.awake d

theorem size_eq : b'.size = b.size := hs.size.trans hs.found.tied.size

theorem head_eq : b'.head = b.head := hs.head.trans hs.found.tied.head

theorem occupancy_eq : b'.occupancy = b.occupancy := hs.occupancy.trans hs.found.tied.occupancy

theorem nth_field {β : Type*} (v : OooInstr → β)
    (hv : ∀ (e : OooInstr) p instrs index id ready num checked cycle scheduled, v { e with
      regRAWProducer := p
      registersInstrsDependOnMe := instrs
      registersIndexDependOnMe := index
      producerId := id
      regReady := ready
      numRegDependent := num
      regRAWChecked := checked
      eventCycle := cycle
      scheduled := scheduled } = v e) (p : Nat) : v (b'.nth p) = v (b.nth p) := by
  unfold CoreBuffer.nth
  rw [hs.size_eq, hs.head_eq]
  exact hs.field v hv _

theorem line (h : Scoreboard b w) (hn : Next b c) (hring : b.Holds xs) : InLine b' w' := by
  have hhead := hring.ring.head_lt
  have hocc : b.occupancy ≤ b.size := hring.occupancy ▸ hring.le_size
  have hplace : ∀ p, p < b.size → Ring.cell b.size b.head p = c → p = c - b.head := fun p hp hpc =>
    Ring.cell_inj hhead hp (by have := hn.lt; omega) (hpc.trans (cell_sub hn.head hn.lt).symm)
  have hcell : ∀ p, p ≤ c - b.head → Ring.cell b.size b.head p = b.head + p := fun p hp =>
    Nat.mod_eq_of_lt (by have := hn.lt; have := hn.head; omega)
  have hother : ∀ p, Ring.cell b.size b.head p ≠ c → (b'.nth p).scheduled = (b.nth p).scheduled := by
    intro p hp
    unfold CoreBuffer.nth
    rw [hs.size_eq, hs.head_eq]
    exact hs.other OooInstr.scheduled (fun _ _ _ _ => rfl) hp
  have hexecuted := hs.nth_field OooInstr.executed (fun _ _ _ _ _ _ _ _ _ _ => rfl)
  have hsource : ∀ p j, (b'.nth p).sourceRegister j = (b.nth p).sourceRegister j := fun p j =>
    hs.nth_field (OooInstr.sourceRegister · j) (fun _ _ _ _ _ _ _ _ _ _ => rfl) p
  have hwriter : ∀ p r, (b'.nth p).writes r = (b.nth p).writes r := fun p r =>
    hs.nth_field (OooInstr.writes · r) (fun _ _ _ _ _ _ _ _ _ _ => rfl) p
  refine ⟨hs.nextFetch.trans (hs.found.tied.nextFetch.trans h.line.nextFetch), fun p => ?_,
    fun p q hpq => ?_, fun p q hpq => ?_, fun p q => ?_⟩
  · rw [hs.occupancy_eq, hs.size_eq]
    intro hp hps
    have hpc : Ring.cell b.size b.head p ≠ c := fun hpc => by
      have hlive := hn.live h.line
      rw [← hplace p hps hpc] at hlive
      omega
    rw [hother p hpc, hs.nth_field OooInstr.fetched (fun _ _ _ _ _ _ _ _ _ _ => rfl)]
    exact h.line.dead p hp hps
  · rw [hs.occupancy_eq]
    intro hq hqs hps
    by_cases hqc : Ring.cell b.size b.head q = c
    · have hqplace := hplace q (by omega) hqc
      have hpcell := hcell p (by omega)
      rw [hother p (by rw [hpcell]; omega)] at hps
      unfold CoreBuffer.nth at hps
      rw [hpcell] at hps
      exact hn.before _ (by omega) (by omega) hps
    · rw [hother q hqc] at hqs
      have hpb := h.line.inOrder p q hpq hq hqs
      by_cases hpc : Ring.cell b.size b.head p = c
      · unfold CoreBuffer.nth at hpb
        rw [hpc] at hpb
        exact hpb hn.idle
      · rw [hother p hpc] at hps
        exact hpb hps
  · rw [hs.occupancy_eq, hs.size_eq, hs.head_eq]
    intro hq hqs j hj
    rw [hsource, hwriter, hexecuted]
    intro hne hwrites hlast'
    have hlast : ∀ m, p < m → m < q → (b.nth m).writes ((b.nth q).sourceRegister j) = false :=
      fun m hpm hmq => (hwriter m _).symm.trans (hlast' m hpm hmq)
    by_cases hqc : Ring.cell b.size b.head q = c
    · -- the entry itself: what has been found
      have hqplace := hplace q (by omega) hqc
      have hpcell := hcell p (by omega)
      have hb₁ : ∀ d, ((b.modify c fun e => { e with regReady := true }).entryAt d).executed =
          (b.entryAt d).executed := CoreBuffer.modify_field OooInstr.executed rfl
      have hb₁s : ∀ d, ((b.modify c fun e => { e with regReady := true }).entryAt d).sourceRegister j =
          (b.entryAt d).sourceRegister j := CoreBuffer.modify_field (OooInstr.sourceRegister · j) rfl
      have hb₁w : ∀ d r, ((b.modify c fun e => { e with regReady := true }).entryAt d).writes r =
          (b.entryAt d).writes r := fun d r => CoreBuffer.modify_field (OooInstr.writes · r) rfl d
      have hknown := hs.found.known j hj
      rw [hb₁s] at hknown
      unfold CoreBuffer.nth at hne hwrites hlast ⊢
      rw [hqc] at hne hwrites hlast ⊢
      rw [hpcell] at hwrites ⊢
      have hfound := hknown hne (b.head + p) (by omega) (by omega) (by rwa [hb₁w])
        fun m hpm hmc => by
          rw [hb₁w]
          have hm := hlast (m - b.head) (by omega) (by omega)
          rwa [hcell _ (by omega), Nat.add_sub_cancel' (by omega)] at hm
      rwa [hb₁] at hfound
    · rw [hother q hqc] at hqs
      rw [hs.found.others _ hqc]
      exact h.line.known p q hpq hq hqs j hj hne hwrites hlast
  · rw [hs.size_eq, hs.head_eq]
    intro hp hq j hw
    by_cases hqc : Ring.cell b.size b.head q = c
    · -- the producers are the ones before the entry in the array
      rw [hqc] at hw
      have holder := hs.found.older hw
      have hlt := hn.lt
      have hpplace := Ring.cell_inj hhead hp (j := Ring.cell b.size b.head p - b.head) (by omega)
        (cell_sub holder.1 (by omega)).symm
      have hqplace := hplace q hq hqc
      omega
    · rw [hs.found.others _ hqc] at hw
      exact h.line.older p q hp hq j hw

theorem scoreboard (h : Scoreboard b w) (hn : Next b c) (hring : b.Holds xs) : Scoreboard b' w' :=
  ⟨hs.linked, hs.recorded, hs.flags h hn, hs.line h hn hring⟩

end Scheduling

end Schedule

/-! ## An entry completes -/

/-- `c` has completed, and `R` is what still waits for it. -/
structure Completing (b : CoreBuffer) (w : Nat → Nat → Option Nat) (c : Nat) (R : Nat → Nat → Prop) :
    Prop where
  linked : Linked b w
  flags : Flags b
  line : InLine b w
  done : (b.entryAt c).executed = .completed
  others : ∀ q, q ≠ c → ∀ d j, w d j = some q ↔
    (b.entryAt q).executed ≠ .completed ∧ d ∈ (b.entryAt q).indexDependOnMe j
  self : ∀ d j, w d j = some c ↔ R d j

section Release

variable {b : CoreBuffer} {w : Nat → Nat → Option Nat} {c d j : Nat} {R : Nat → Nat → Prop}

/-- Who waits has not been executed. -/
theorem waits_idle (hl : Linked b w) (hf : Flags b) (hw : w d j = some c) :
    (b.entryAt d).regReady = false ∧ (b.entryAt d).executed = .idle ∧
      (b.entryAt d).scheduled ≠ .idle := by
  have hready : (b.entryAt d).regReady = false := by
    refine Bool.eq_false_iff.mpr fun hready => ?_
    have hnone := waiting_eq_zero.mp (hl.ready d hready) j (hl.slot hw).2.2
    exact Option.some_ne_none c (hw.symm.trans hnone)
  refine ⟨hready, ?_, fun hidle => ?_⟩
  · by_contra hexecuted
    exact Bool.false_ne_true (hready.symm.trans (hf.ready d hexecuted))
  · have hchecked := hl.checked (hw.symm ▸ Option.some_ne_none c : w d j ≠ none)
    exact Bool.false_ne_true (((hf.fresh d hidle).checked j).symm.trans hchecked)

theorem Scoreboard.complete (h : Scoreboard b w) (hc : c < b.entry.length)
    (hexecuted : (b.entryAt c).executed = .inflight) :
    Completing (b.modify c fun e => { e with executed := .completed }) w c
      fun d j => d ∈ (b.entryAt c).indexDependOnMe j := by
  have hself : (b.modify c fun e => { e with executed := .completed }).entryAt c =
      { b.entryAt c with executed := .completed } := CoreBuffer.entryAt_modify_self hc
  have hne : ∀ d, d ≠ c → (b.modify c fun e => { e with executed := .completed }).entryAt d =
      b.entryAt d := fun d hd => CoreBuffer.entryAt_modify_ne (Ne.symm hd)
  have hidle : (b.entryAt c).executed ≠ .idle := by
    rw [hexecuted]
    exact Returned.noConfusion
  have hscheduled : (b.entryAt c).scheduled ≠ .idle := fun hs =>
    hidle (h.flags.fresh c hs).executed
  exact {
    linked := h.linked.congr CoreBuffer.modify_entry_length
      (CoreBuffer.modify_field OooInstr.links rfl)
    flags := by
      refine ⟨fun d => ?_, fun d => ?_, fun d => ?_, fun d => ?_, fun d => ?_⟩
      · by_cases hd : d = c
        · subst hd
          rw [hself]
          exact fun hs => absurd hs hscheduled
        · rw [hne d hd]
          exact h.flags.fresh d
      · by_cases hd : d = c
        · subst hd
          rw [hself]
          exact fun hm => (h.flags.memory d hm).trans
            ⟨fun _ => Returned.noConfusion, fun _ => hidle⟩
        · rw [hne d hd]
          exact h.flags.memory d
      · rw [CoreBuffer.modify_field OooInstr.isMemory rfl,
          CoreBuffer.modify_field OooInstr.scheduled rfl]
        exact h.flags.plain d
      · by_cases hd : d = c
        · subst hd
          rw [hself]
          exact fun _ => h.flags.ready d hidle
        · rw [hne d hd]
          exact h.flags.ready d
      · rw [CoreBuffer.modify_field OooInstr.scheduled rfl,
          CoreBuffer.modify_field OooInstr.numRegDependent rfl,
          CoreBuffer.modify_field OooInstr.regReady rfl]
        exact h.flags.awake d
    line := h.line.progress ⟨rfl, rfl, rfl⟩ Iff.rfl fun _ => rfl
    done := by rw [hself]
    others := fun q hq d j => by
      rw [hne q hq]
      exact h.recorded q d j
    self := fun d j => by
      rw [h.recorded c d j, hexecuted]
      exact and_iff_right Returned.noConfusion }

theorem InLine.released (h : InLine b w) (hdone : (b.entryAt c).executed = .completed)
    (hw : w d j = some c) : InLine b (release w d j) where
  nextFetch := h.nextFetch
  dead := h.dead
  inOrder := h.inOrder
  known p q hpq hq hqs i hi hne hwrites hlast := by
    rcases h.known p q hpq hq hqs i hi hne hwrites hlast with hp | hp
    · exact .inl hp
    · by_cases hd : Ring.cell b.size b.head q = d ∧ i = j
      · rw [hd.1, hd.2, hw] at hp
        refine .inl ?_
        unfold CoreBuffer.nth
        rw [← Option.some.inj hp]
        exact hdone
      · exact .inr ((release_ne hd).trans hp)
  older p q hp hq i hwi := h.older p q hp hq i (release_eq_some.mp hwi).1

section Receive

variable {f : OooInstr → OooInstr}
  (hf : ∀ e, f e = { e with
    numRegDependent := e.numRegDependent - 1
    regReady := (f e).regReady
    scheduled := (f e).scheduled })

include hf

theorem receive_field {β : Type} (v : OooInstr → β)
    (hv : ∀ (e : OooInstr) num ready scheduled, v { e with
      numRegDependent := num, regReady := ready, scheduled := scheduled } = v e) (q : Nat) :
    v ((b.modify d f).entryAt q) = v (b.entryAt q) :=
  CoreBuffer.modify_field v (by rw [hf]; exact hv _ _ _ _) q

theorem Linked.released (h : Linked b w) (hw : w d j = some c)
    (hready : (f (b.entryAt d)).regReady = true ↔ (b.entryAt d).numRegDependent - 1 = 0) :
    Linked (b.modify d f) (release w d j) := by
  have hwait : w d j ≠ none := hw.symm ▸ Option.some_ne_none c
  obtain ⟨-, hd, hj⟩ := h.slot hw
  have hself : (b.modify d f).entryAt d = f (b.entryAt d) := CoreBuffer.entryAt_modify_self hd
  have hne : ∀ q, q ≠ d → (b.modify d f).entryAt q = b.entryAt q := fun q hq =>
    CoreBuffer.entryAt_modify_ne (Ne.symm hq)
  have hcount : (b.entryAt d).numRegDependent - 1 = waiting numInstrSources (release w d j) d := by
    rw [h.count d, waiting_release hj hwait]
    omega
  exact {
    slot := fun hs => by
      rw [CoreBuffer.modify_entry_length]
      exact h.slot (release_eq_some.mp hs).1
    checked := fun {q i} hs => by
      rw [receive_field hf (fun e => e.regRAWChecked[i]?.getD false) fun _ _ _ _ => rfl]
      obtain ⟨x, hx⟩ := Option.ne_none_iff_exists'.mp hs
      exact h.checked ((release_eq_some.mp hx).1.symm ▸ Option.some_ne_none x)
    count := fun q => by
      by_cases hq : q = d
      · subst hq
        rw [hself, hf]
        exact hcount
      · rw [hne q hq, waiting_release_ne hq]
        exact h.count q
    ready := fun q hq => by
      by_cases hqd : q = d
      · subst hqd
        rw [hself, hready, hcount] at hq
        exact Int.natCast_eq_zero.mp hq
      · rw [hne q hqd] at hq
        rw [waiting_release_ne hqd]
        exact h.ready q hq
    instrs := fun q x => by
      rw [receive_field hf OooInstr.registersInstrsDependOnMe fun _ _ _ _ => rfl, h.instrs q x]
      refine exists_congr fun i => and_congr Iff.rfl ?_
      rw [receive_field hf (OooInstr.indexDependOnMe · i) fun _ _ _ _ => rfl]
    nodup := fun q => by
      rw [receive_field hf OooInstr.registersInstrsDependOnMe fun _ _ _ _ => rfl]
      exact h.nodup q
    producer := fun q hq => by
      rw [receive_field hf OooInstr.registersInstrsDependOnMe fun _ _ _ _ => rfl] at hq
      rw [receive_field hf OooInstr.regRAWProducer fun _ _ _ _ => rfl]
      exact h.producer q hq
    sized := fun q => {
      checked := by
        rw [receive_field hf (fun e => e.regRAWChecked.length) fun _ _ _ _ => rfl]
        exact (h.sized q).checked
      index := by
        rw [receive_field hf (fun e => e.registersIndexDependOnMe.length) fun _ _ _ _ => rfl]
        exact (h.sized q).index } }

theorem Flags.released (h : Flags b) (hd : d < b.entry.length)
    (hidle : (b.entryAt d).scheduled ≠ .idle) (hexecuted : (b.entryAt d).executed = .idle)
    (hscheduled : (f (b.entryAt d)).scheduled = (b.entryAt d).scheduled)
    (hready : (f (b.entryAt d)).regReady = true ↔ (b.entryAt d).numRegDependent - 1 = 0) :
    Flags (b.modify d f) := by
  have hself : (b.modify d f).entryAt d = f (b.entryAt d) := CoreBuffer.entryAt_modify_self hd
  have hne : ∀ q, q ≠ d → (b.modify d f).entryAt q = b.entryAt q := fun q hq =>
    CoreBuffer.entryAt_modify_ne (Ne.symm hq)
  have hsame : ∀ q, ((b.modify d f).entryAt q).scheduled = (b.entryAt q).scheduled :=
    CoreBuffer.modify_field OooInstr.scheduled hscheduled
  have hex : ∀ q, ((b.modify d f).entryAt q).executed = (b.entryAt q).executed :=
    receive_field hf OooInstr.executed fun _ _ _ _ => rfl
  refine ⟨fun q hq => ?_, fun q => ?_, fun q => ?_, fun q hq => ?_, fun q hq hzero => ?_⟩
  · rw [hsame] at hq
    rw [hne q (by rintro rfl; exact hidle hq)]
    exact h.fresh q hq
  · rw [receive_field hf OooInstr.isMemory fun _ _ _ _ => rfl, hsame, hex]
    exact h.memory q
  · rw [receive_field hf OooInstr.isMemory fun _ _ _ _ => rfl, hsame]
    exact h.plain q
  · rw [hex] at hq
    rw [hne q (by rintro rfl; exact hq hexecuted)]
    exact h.ready q hq
  · by_cases hqd : q = d
    · subst hqd
      rw [hself] at hzero ⊢
      rw [hf] at hzero
      exact hready.mpr hzero
    · rw [hne q hqd] at hq hzero ⊢
      exact h.awake q hq hzero

/-- One source of an entry that waits is there. -/
theorem Completing.released (h : Completing b w c R) (hR : R d j)
    (hscheduled : (f (b.entryAt d)).scheduled = (b.entryAt d).scheduled)
    (hready : (f (b.entryAt d)).regReady = true ↔ (b.entryAt d).numRegDependent - 1 = 0) :
    Completing (b.modify d f) (release w d j) c fun d' j' => R d' j' ∧ ¬(d' = d ∧ j' = j) := by
  have hw := (h.self d j).mpr hR
  obtain ⟨-, hd, hj⟩ := h.linked.slot hw
  obtain ⟨hnot, hexecuted, hidle⟩ := waits_idle h.linked h.flags hw
  have hdc : c ≠ d := fun hdc => by
    rw [← hdc, h.done] at hexecuted
    exact Returned.noConfusion hexecuted
  exact {
    linked := h.linked.released hf hw hready
    flags := h.flags.released hf hd hidle hexecuted hscheduled hready
    line := (h.line.released h.done hw).progress
      (by rw [hf]; exact ⟨rfl, rfl, rfl⟩) (by rw [hscheduled])
      (by rw [hexecuted]; exact fun h => Returned.noConfusion h)
    done := by
      rw [CoreBuffer.entryAt_modify_ne (Ne.symm hdc)]
      exact h.done
    others := fun q hq x i => by
      rw [release_eq_some, receive_field hf OooInstr.executed fun _ _ _ _ => rfl,
        receive_field hf (OooInstr.indexDependOnMe · i) fun _ _ _ _ => rfl, ← h.others q hq x i]
      refine and_iff_left_of_imp fun hx hxd => ?_
      rw [hxd.1, hxd.2, hw] at hx
      exact hq (Option.some.inj hx).symm
    self := fun x i => by rw [release_eq_some, h.self x i] }

end Receive

/-- Nothing waits for it any more. -/
theorem Completing.finish (h : Completing b w c R) (hR : ∀ d j, ¬R d j) : Scoreboard b w where
  linked := h.linked
  flags := h.flags
  line := h.line
  recorded q d j := by
    by_cases hq : q = c
    · subst hq
      rw [h.self d j, h.done]
      exact ⟨fun hr => absurd hr (hR d j), fun hr => absurd rfl hr.1⟩
    · exact h.others q hq d j

theorem Completing.congr {R' : Nat → Nat → Prop} (h : Completing b w c R)
    (hR : ∀ d j, R d j ↔ R' d j) : Completing b w c R' :=
  ⟨h.linked, h.flags, h.line, h.done, h.others, fun d j => (h.self d j).trans (hR d j)⟩

end Release

/-! ## The two ends of the buffer -/

section Ends

variable {b b' : CoreBuffer} {w : Nat → Nat → Option Nat} {c : Nat} {e x : OooInstr}
  {xs : List OooInstr}

/-- An entry is overwritten that nothing waits for, and that waits for nothing. -/
structure Replaced (b b' : CoreBuffer) (w : Nat → Nat → Option Nat) (c : Nat) (e : OooInstr) :
    Prop where
  entry : b'.entry = b.entry.set c e
  lt : c < b.entry.length
  fresh : e.Fresh
  sized : e.Sized
  idle : e.scheduled = .idle
  waits : ∀ j, w c j = none
  waited : ∀ d j, w d j ≠ some c

namespace Replaced

variable (h : Replaced b b' w c e)
include h

theorem self : b'.entryAt c = e := by
  unfold CoreBuffer.entryAt
  rw [h.entry, List.getElem?_set_self h.lt]
  rfl

theorem ne {d : Nat} (hd : d ≠ c) : b'.entryAt d = b.entryAt d := by
  unfold CoreBuffer.entryAt
  rw [h.entry, List.getElem?_set_ne (Ne.symm hd)]

theorem linked (hl : Linked b w) : Linked b' w := by
  have hzero : waiting numInstrSources w c = 0 := waiting_eq_zero.mpr fun j _ => h.waits j
  refine ⟨fun hw => ?_, fun {d j} hw => ?_, fun d => ?_, fun d => ?_, fun q d => ?_, fun q => ?_,
    fun q => ?_, fun q => ?_⟩
  · rw [h.entry, List.length_set]
    exact hl.slot hw
  · rw [h.ne (by rintro rfl; exact hw (h.waits j))]
    exact hl.checked hw
  · by_cases hd : d = c
    · subst hd
      rw [h.self, h.fresh.numRegDependent, hzero]
      rfl
    · rw [h.ne hd]
      exact hl.count d
  · by_cases hd : d = c
    · subst hd
      exact fun _ => hzero
    · rw [h.ne hd]
      exact hl.ready d
  · by_cases hq : q = c
    · subst hq
      rw [h.self, h.fresh.instrs]
      refine ⟨fun hd => absurd hd List.not_mem_nil, fun ⟨j, _, hd⟩ => ?_⟩
      rw [h.fresh.index j] at hd
      exact absurd hd List.not_mem_nil
    · rw [h.ne hq]
      exact hl.instrs q d
  · by_cases hq : q = c
    · subst hq
      rw [h.self, h.fresh.instrs]
      exact List.nodup_nil
    · rw [h.ne hq]
      exact hl.nodup q
  · by_cases hq : q = c
    · subst hq
      rw [h.self, h.fresh.instrs]
      exact fun hne => absurd rfl hne
    · rw [h.ne hq]
      exact hl.producer q
  · by_cases hq : q = c
    · subst hq
      rw [h.self]
      exact h.sized
    · rw [h.ne hq]
      exact hl.sized q

theorem recorded (hr : Recorded b w) : Recorded b' w := by
  intro q d j
  by_cases hq : q = c
  · subst hq
    rw [h.self, h.fresh.index j]
    exact ⟨fun hw => absurd hw (h.waited d j), fun hd => absurd hd.2 List.not_mem_nil⟩
  · rw [h.ne hq]
    exact hr q d j

theorem flags (hf : Flags b) : Flags b' := by
  have hplain : ∀ s : Returned, e.scheduled = s → s = .idle := fun s hs => hs.symm.trans h.idle
  refine ⟨fun q => ?_, fun q => ?_, fun q => ?_, fun q => ?_, fun q => ?_⟩ <;> by_cases hq : q = c
  · subst hq
    rw [h.self]
    exact fun _ => h.fresh
  · rw [h.ne hq]
    exact hf.fresh q
  · subst hq
    rw [h.self]
    exact fun _ => ⟨fun hs => absurd (hplain _ hs) Returned.noConfusion,
      fun hs => absurd h.fresh.executed hs⟩
  · rw [h.ne hq]
    exact hf.memory q
  · subst hq
    rw [h.self]
    exact fun _ hs => absurd (hplain _ hs) Returned.noConfusion
  · rw [h.ne hq]
    exact hf.plain q
  · subst hq
    rw [h.self]
    exact fun hs => absurd h.fresh.executed hs
  · rw [h.ne hq]
    exact hf.ready q
  · subst hq
    rw [h.self]
    exact fun hs => absurd h.idle hs
  · rw [h.ne hq]
    exact hf.awake q

end Replaced

/-- An entry that is scheduled has its registers just when it waits for none. -/
theorem Scoreboard.ready_iff (h : Scoreboard b w) {d : Nat}
    (hscheduled : (b.entryAt d).scheduled ≠ .idle) :
    (b.entryAt d).regReady = true ↔ ∀ j < numInstrSources, w d j = none := by
  rw [← waiting_eq_zero]
  refine ⟨h.linked.ready d, fun hzero => h.flags.awake d hscheduled ?_⟩
  rw [h.linked.count d, hzero]
  rfl

/-- A cell that is not in use waits for nothing, and nothing waits for it. -/
theorem Scoreboard.unused (h : Scoreboard b w) (hidle : (b.entryAt c).scheduled = .idle) :
    (∀ j, w c j = none) ∧ ∀ d j, w d j ≠ some c := by
  have hfresh := h.flags.fresh c hidle
  refine ⟨fun j => ?_, fun d j hw => ?_⟩
  · by_contra hw
    exact Bool.false_ne_true ((hfresh.checked j).symm.trans (h.linked.checked hw))
  · have hmem := ((h.recorded c d j).mp hw).2
    rw [hfresh.index j] at hmem
    exact List.not_mem_nil hmem

theorem Scoreboard.push (h : Scoreboard b w) (hring : b.Holds xs) (hroom : b.occupancy < b.size)
    (hfresh : e.Fresh) (hsized : e.Sized) (hidle : e.scheduled = .idle) :
    Scoreboard (b.push e) w := by
  have hdead : (b.entryAt b.tail).scheduled = .idle := by
    rw [hring.tail_cell]
    exact (h.line.dead b.occupancy le_rfl hroom).1
  obtain ⟨hwaits, hwaited⟩ := h.unused hdead
  have hrep : Replaced b (b.push e) w b.tail e :=
    ⟨rfl, by rw [hring.tail_cell]; exact hring.nth_lt _, hfresh, hsized, hidle, hwaits, hwaited⟩
  have hnth : ∀ p, p < b.size → p ≠ b.occupancy → (b.push e).nth p = b.nth p := fun _ hp hpo =>
    hring.push_nth hroom hp hpo
  have hlast : (b.push e).nth b.occupancy = e := hring.push_nth_last
  refine ⟨hrep.linked h.linked, hrep.recorded h.recorded, hrep.flags h.flags, h.line.nextFetch,
    fun p hp hps => ?_, fun p q hpq hq => ?_, fun p q hpq hq => ?_, h.line.older⟩
  · change b.occupancy + 1 ≤ p at hp
    rw [hnth p hps (by omega)]
    exact h.line.dead p (by omega) hps
  · change q < b.occupancy + 1 at hq
    by_cases hqo : q = b.occupancy
    · rw [hqo, hlast]
      exact fun hs => absurd hidle hs
    · rw [hnth q (by omega) hqo, hnth p (by omega) (by omega)]
      exact h.line.inOrder p q hpq (by omega)
  · change q < b.occupancy + 1 at hq
    by_cases hqo : q = b.occupancy
    · rw [hqo, hlast]
      exact fun hs => absurd hidle hs
    · rw [hnth q (by omega) hqo, hnth p (by omega) (by omega)]
      intro hqs j hj hne hwrites hall
      refine h.line.known p q hpq (by omega) hqs j hj hne hwrites fun m hpm hmq => ?_
      rw [← hnth m (by omega) (by omega)]
      exact hall m hpm hmq

theorem Scoreboard.pop (h : Scoreboard b w) (hring : b.Holds (x :: xs))
    (hdone : (b.entryAt b.head).executed = .completed) : Scoreboard b.pop w := by
  have hlt := hring.ring.head_lt
  have hidle : (b.entryAt b.head).executed ≠ .idle := by
    rw [hdone]
    exact Returned.noConfusion
  have hbound := hring.le_size
  have hocc := hring.occupancy
  rw [List.length_cons] at hocc hbound
  have hpopocc : b.pop.occupancy = xs.length := hring.pop.occupancy
  have hrep : Replaced b b.pop w b.head {} := by
    refine ⟨rfl, by rw [hring.length]; exact hlt, OooInstr.fresh_blank, OooInstr.sized_blank, rfl,
      fun j => ?_, fun d j hw => ?_⟩
    · by_contra hw
      obtain ⟨q, hq⟩ := Option.ne_none_iff_exists'.mp hw
      exact hidle (waits_idle h.linked h.flags hq).2.1
    · exact ((h.recorded b.head d j).mp hw).1 hdone
  have hcell : ∀ p, Ring.cell b.pop.size b.pop.head p = Ring.cell b.size b.head (p + 1) :=
    fun p => Ring.cell_advance hlt p
  have hnth : ∀ p, p + 1 < b.size → b.pop.nth p = b.nth (p + 1) := fun _ hp => hring.pop_nth hp
  refine ⟨hrep.linked h.linked, hrep.recorded h.recorded, hrep.flags h.flags, h.line.nextFetch,
    fun p hp hps => ?_, fun p q hpq hq => ?_, fun p q hpq hq => ?_, fun p q hp hq j hw => ?_⟩
  · change p < b.size at hps
    rw [hpopocc] at hp
    by_cases hlast : p + 1 < b.size
    · rw [hnth p hlast]
      exact h.line.dead (p + 1) (by omega) hlast
    · -- the cell just emptied
      have hback : Ring.cell b.pop.size b.pop.head p = b.head := by
        rw [hcell, Ring.cell_eq hlt (by omega), if_neg (by omega)]
        omega
      unfold CoreBuffer.nth
      rw [hback, hrep.self]
      exact ⟨rfl, Returned.noConfusion⟩
  · rw [hpopocc] at hq
    rw [hnth q (by omega), hnth p (by omega)]
    exact h.line.inOrder (p + 1) (q + 1) (by omega) (by omega)
  · rw [hpopocc] at hq
    rw [hnth q (by omega), hnth p (by omega), hcell, hcell]
    intro hqs j hj hne hwrites hall
    refine h.line.known (p + 1) (q + 1) (by omega) (by omega) hqs j hj hne hwrites
      fun m hpm hmq => ?_
    have hm := hall (m - 1) (by omega) (by omega)
    rwa [hnth (m - 1) (by omega), Nat.sub_add_cancel (by omega)] at hm
  · change p < b.size at hp
    change q < b.size at hq
    have hback : ∀ p, p + 1 = b.size → Ring.cell b.size b.head (p + 1) = b.head := fun p hp => by
      rw [Ring.cell_eq hlt (by omega), if_neg (by omega)]
      omega
    rw [hcell, hcell] at hw
    by_cases hpb : p + 1 = b.size
    · rw [hback p hpb] at hw
      exact absurd hw (hrep.waited _ j)
    · by_cases hqb : q + 1 = b.size
      · rw [hback q hqb, hrep.waits j] at hw
        exact absurd hw (Option.some_ne_none _).symm
      · exact Nat.lt_of_succ_lt_succ (h.line.older (p + 1) (q + 1) (by omega) (by omega) j hw)

end Ends

end DramCache
