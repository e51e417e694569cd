import DramCache.ProgramOrder
import DramCache.Wakeup

/-!
# Register dependencies

The producers keep sets of the entries that depend on them, and the consumers
a counter. Together they are one account of which source register of which
entry waits for which producer (`Linked`, `Recorded`), and that is what
`reg_dependency` writes down (`regDependency_found`).
-/

namespace DramCache

open Wakeup

theorem mem_insertIndex {x y : Nat} {l : List Nat} : y ∈ insertIndex x l ↔ y = x ∨ y ∈ l := by
  unfold insertIndex
  split
  · rename_i h
    exact ⟨.inr, fun hy => hy.elim (fun heq => heq ▸ h) id⟩
  · rw [List.mem_orderedInsert]

theorem nodup_insertIndex {x : Nat} {l : List Nat} (h : l.Nodup) : (insertIndex x l).Nodup := by
  unfold insertIndex
  split
  · exact h
  · rename_i hx
    exact (List.perm_orderedInsert _ x l).nodup_iff.mpr (List.nodup_cons.mpr ⟨hx, h⟩)

namespace OooInstr

/-- Nothing has been done to schedule the instruction. -/
structure Fresh (e : OooInstr) : Prop where
  executed : e.executed = .idle
  regReady : e.regReady = false
  numRegDependent : e.numRegDependent = 0
  checked : ∀ j : Nat, e.regRAWChecked[j]?.getD false = false
  instrs : e.registersInstrsDependOnMe = []
  index : ∀ j : Nat, e.indexDependOnMe j = []

/-- The arrays with one element for each source register. -/
structure Sized (e : OooInstr) : Prop where
  checked : e.regRAWChecked.length = numInstrSources
  index : e.registersIndexDependOnMe.length = numInstrSources

theorem fresh_blank : Fresh {} := by
  refine ⟨rfl, rfl, rfl, fun j => ?_, rfl, fun j => ?_⟩
  · rw [List.getElem?_replicate]
    split <;> rfl
  · unfold indexDependOnMe
    rw [List.getElem?_replicate]
    split <;> rfl

theorem sized_blank : Sized {} := ⟨rfl, rfl⟩

theorem Sized.lt_of_mem {e : OooInstr} (hs : e.Sized) {d j : Nat} (h : d ∈ e.indexDependOnMe j) :
    j < numInstrSources := by
  by_contra hj
  unfold indexDependOnMe at h
  rw [List.getElem?_eq_none (by rw [hs.index]; exact Nat.le_of_not_lt hj)] at h
  exact List.not_mem_nil h

theorem mem_addDependent_index {e : OooInstr} {c d j j' : Nat} (hs : e.Sized)
    (hj : j < numInstrSources) :
    d ∈ (e.addDependent c j).indexDependOnMe j' ↔
      (d = c ∧ j' = j) ∨ d ∈ e.indexDependOnMe j' := by
  unfold indexDependOnMe addDependent
  by_cases h : j = j'
  · subst h
    have hlt : j < e.registersIndexDependOnMe.length := hs.index.symm ▸ hj
    rw [List.getElem?_modify_eq, List.getElem?_eq_getElem hlt]
    exact mem_insertIndex.trans (or_congr (and_iff_left rfl).symm Iff.rfl)
  · rw [List.getElem?_modify_ne _ _ h]
    exact ⟨.inr, fun hd => hd.elim (fun hd => absurd hd.2.symm h) id⟩

theorem Sized.addDependent {e : OooInstr} (hs : e.Sized) (c j : Nat) : (e.addDependent c j).Sized :=
  ⟨hs.checked, (List.length_modify ..).trans hs.index⟩

theorem Sized.addProducer {e : OooInstr} (hs : e.Sized) (p j : Nat) : (e.addProducer p j).Sized :=
  ⟨(List.length_set ..).trans hs.checked, hs.index⟩

theorem addProducer_checked_self {e : OooInstr} {p j : Nat} (hs : e.Sized)
    (hj : j < numInstrSources) : (e.addProducer p j).regRAWChecked[j]?.getD false = true := by
  unfold addProducer
  rw [List.getElem?_set_self (hs.checked.symm ▸ hj)]
  rfl

theorem addProducer_checked_ne {e : OooInstr} {p j j' : Nat} (h : j ≠ j') :
    (e.addProducer p j).regRAWChecked[j']?.getD false = e.regRAWChecked[j']?.getD false := by
  unfold addProducer
  rw [List.getElem?_set_ne h]

end OooInstr

/-! ## The account -/

/-- The counters, and the sets of the producers. -/
structure Linked (b : CoreBuffer) (w : Nat → Nat → Option Nat) : Prop where
  slot : ∀ {c d j}, w d j = some c → c < b.entry.length ∧ d < b.entry.length ∧ j < numInstrSources
  checked : ∀ {d j}, w d j ≠ none → (b.entryAt d).regRAWChecked[j]?.getD false = true
  count : ∀ d, (b.entryAt d).numRegDependent = waiting numInstrSources w d
  ready : ∀ d, (b.entryAt d).regReady = true → waiting numInstrSources w d = 0
  instrs : ∀ c d, d ∈ (b.entryAt c).registersInstrsDependOnMe ↔
    ∃ j < numInstrSources, d ∈ (b.entryAt c).indexDependOnMe j
  nodup : ∀ c, (b.entryAt c).registersInstrsDependOnMe.Nodup
  producer : ∀ c, (b.entryAt c).registersInstrsDependOnMe ≠ [] → (b.entryAt c).regRAWProducer = true
  sized : ∀ c, (b.entryAt c).Sized

/-- Who is in the set of a producer that has not completed waits for it. -/
def Recorded (b : CoreBuffer) (w : Nat → Nat → Option Nat) : Prop :=
  ∀ c d j, w d j = some c ↔
    (b.entryAt c).executed ≠ .completed ∧ d ∈ (b.entryAt c).indexDependOnMe j

/-- What the dependencies of `c` change of the others, and of `c` itself. -/
structure Tied (b b' : CoreBuffer) (c : Nat) : Prop where
  size : b'.size = b.size
  head : b'.head = b.head
  tail : b'.tail = b.tail
  occupancy : b'.occupancy = b.occupancy
  nextFetch : b'.nextFetch = b.nextFetch
  length : b'.entry.length = b.entry.length
  others : ∀ d, d ≠ c → b'.entryAt d = { b.entryAt d with
    regRAWProducer := (b'.entryAt d).regRAWProducer
    registersInstrsDependOnMe := (b'.entryAt d).registersInstrsDependOnMe
    registersIndexDependOnMe := (b'.entryAt d).registersIndexDependOnMe }
  self : b'.entryAt c = { b.entryAt c with
    producerId := (b'.entryAt c).producerId
    regReady := (b'.entryAt c).regReady
    numRegDependent := (b'.entryAt c).numRegDependent
    regRAWChecked := (b'.entryAt c).regRAWChecked }

namespace Tied

variable {b b' b'' : CoreBuffer} {c : Nat}

theorem refl (b : CoreBuffer) (c : Nat) : Tied b b c :=
  ⟨rfl, rfl, rfl, rfl, rfl, rfl, fun _ _ => rfl, rfl⟩

theorem trans (h : Tied b b' c) (h' : Tied b' b'' c) : Tied b b'' c := by
  refine ⟨h'.size.trans h.size, h'.head.trans h.head, h'.tail.trans h.tail,
    h'.occupancy.trans h.occupancy, h'.nextFetch.trans h.nextFetch, h'.length.trans h.length,
    fun d hd => ?_, ?_⟩
  · rw [h'.others d hd, h.others d hd]
  · rw [h'.self, h.self]

/-- What neither of them changes. -/
theorem field {β : Type*} (h : Tied b b' c) (v : OooInstr → β)
    (hv : ∀ (e : OooInstr) p instrs index id ready num checked, v { e with
      regRAWProducer := p
      registersInstrsDependOnMe := instrs
      registersIndexDependOnMe := index
      producerId := id
      regReady := ready
      numRegDependent := num
      regRAWChecked := checked } = v e) (d : Nat) :
    v (b'.entryAt d) = v (b.entryAt d) := by
  by_cases hd : d = c
  · subst hd
    rw [h.self]
    exact hv (b.entryAt d) (b.entryAt d).regRAWProducer (b.entryAt d).registersInstrsDependOnMe
      (b.entryAt d).registersIndexDependOnMe _ _ _ _
  · rw [h.others d hd]
    exact hv (b.entryAt d) _ _ _ (b.entryAt d).producerId (b.entryAt d).regReady
      (b.entryAt d).numRegDependent (b.entryAt d).regRAWChecked

end Tied

/-! ## One dependency more -/

/-- `c` depends on `p` for its source `j`. -/
def CoreBuffer.addEdge (b : CoreBuffer) (p c j : Nat) : CoreBuffer :=
  (b.modify p (OooInstr.addDependent c j)).modify c
    (OooInstr.addProducer (b.entryAt p).instrId j)

section Edge

variable {b : CoreBuffer} {w : Nat → Nat → Option Nat} {p c d j : Nat}

theorem addEdge_self (hc : c < b.entry.length) (hpc : p ≠ c) :
    (b.addEdge p c j).entryAt c = (b.entryAt c).addProducer (b.entryAt p).instrId j := by
  unfold CoreBuffer.addEdge
  rw [CoreBuffer.entryAt_modify_self (by rwa [CoreBuffer.modify_entry_length]),
    CoreBuffer.entryAt_modify_ne hpc]

theorem addEdge_producer (hp : p < b.entry.length) (hpc : p ≠ c) :
    (b.addEdge p c j).entryAt p = (b.entryAt p).addDependent c j := by
  unfold CoreBuffer.addEdge
  rw [CoreBuffer.entryAt_modify_ne hpc.symm, CoreBuffer.entryAt_modify_self hp]

theorem addEdge_ne (hp : d ≠ p) (hc : d ≠ c) : (b.addEdge p c j).entryAt d = b.entryAt d := by
  unfold CoreBuffer.addEdge
  rw [CoreBuffer.entryAt_modify_ne hc.symm, CoreBuffer.entryAt_modify_ne hp.symm]

theorem addEdge_length : (b.addEdge p c j).entry.length = b.entry.length := by
  unfold CoreBuffer.addEdge
  rw [CoreBuffer.modify_entry_length, CoreBuffer.modify_entry_length]

theorem tied_addEdge (hp : p < b.entry.length) (hc : c < b.entry.length) (hpc : p ≠ c) :
    Tied b (b.addEdge p c j) c := by
  refine ⟨rfl, rfl, rfl, rfl, rfl, addEdge_length, fun d hd => ?_, ?_⟩
  · by_cases hdp : d = p
    · subst hdp
      rw [addEdge_producer hp hpc]
      rfl
    · rw [addEdge_ne hdp hd]
  · rw [addEdge_self hc hpc]
    rfl

/-- The sets, with the new dependency in them. -/
theorem mem_addEdge_index (hlink : Linked b w) (hp : p < b.entry.length) (hc : c < b.entry.length)
    (hpc : p ≠ c) (hj : j < numInstrSources) {q i : Nat} :
    d ∈ ((b.addEdge p c j).entryAt q).indexDependOnMe i ↔
      (q = p ∧ d = c ∧ i = j) ∨ d ∈ (b.entryAt q).indexDependOnMe i := by
  by_cases hqp : q = p
  · subst hqp
    rw [addEdge_producer hp hpc, OooInstr.mem_addDependent_index (hlink.sized q) hj]
    exact or_congr (and_iff_right rfl).symm Iff.rfl
  · have hother : ((b.addEdge p c j).entryAt q).indexDependOnMe i =
        (b.entryAt q).indexDependOnMe i := by
      by_cases hqc : q = c
      · subst hqc
        rw [addEdge_self hc hpc]
        rfl
      · rw [addEdge_ne hqp hqc]
    rw [hother]
    exact ⟨.inr, fun h => h.elim (fun h => absurd h.1 hqp) id⟩

theorem recorded_addEdge (hlink : Linked b w) (hrec : Recorded b w) (hp : p < b.entry.length)
    (hc : c < b.entry.length) (hpc : p ≠ c) (hj : j < numInstrSources)
    (hexecuted : (b.entryAt p).executed ≠ .completed) (hnone : w c j = none) :
    Recorded (b.addEdge p c j) (wait w c j p) := by
  intro q d i
  rw [(tied_addEdge hp hc hpc).field OooInstr.executed fun _ _ _ _ _ _ _ _ => rfl,
    mem_addEdge_index hlink hp hc hpc hj]
  by_cases h : d = c ∧ i = j
  · obtain ⟨rfl, rfl⟩ := h
    rw [wait_self]
    constructor
    · intro hq
      obtain rfl := Option.some.inj hq
      exact ⟨hexecuted, .inl ⟨rfl, rfl, rfl⟩⟩
    · rintro ⟨hq, ⟨rfl, -, -⟩ | hmem⟩
      · rfl
      · rw [(hrec q d i).mpr ⟨hq, hmem⟩] at hnone
        exact absurd hnone (Option.some_ne_none q)
  · rw [wait_ne h, hrec q d i]
    refine and_congr Iff.rfl ⟨.inr, fun hmem => hmem.elim (fun hd => absurd hd.2 h) id⟩

theorem linked_addEdge (hlink : Linked b w) (hp : p < b.entry.length) (hc : c < b.entry.length)
    (hpc : p ≠ c) (hj : j < numInstrSources) (hnone : w c j = none) :
    Linked (b.addEdge p c j) (wait w c j p) where
  slot := by
    intro q d i h
    rw [addEdge_length]
    by_cases hd : d = c ∧ i = j
    · obtain ⟨rfl, rfl⟩ := hd
      rw [wait_self] at h
      obtain rfl := Option.some.inj h
      exact ⟨hp, hc, hj⟩
    · rw [wait_ne hd] at h
      exact hlink.slot h
  checked := by
    intro d i h
    by_cases hd : d = c
    · subst hd
      rw [addEdge_self hc hpc]
      by_cases hi : i = j
      · subst hi
        exact OooInstr.addProducer_checked_self (hlink.sized d) hj
      · rw [OooInstr.addProducer_checked_ne (Ne.symm hi)]
        exact hlink.checked (by rwa [wait_ne fun h => hi h.2] at h)
    · rw [(tied_addEdge hp hc hpc).others d hd]
      exact hlink.checked (by rwa [wait_ne fun h => hd h.1] at h)
  count := by
    intro d
    by_cases hd : d = c
    · subst hd
      rw [addEdge_self hc hpc, waiting_wait hj hnone, Nat.cast_succ, ← hlink.count d]
      rfl
    · rw [(tied_addEdge hp hc hpc).others d hd, waiting_wait_ne hd]
      exact hlink.count d
  ready := by
    intro d h
    by_cases hd : d = c
    · subst hd
      rw [addEdge_self hc hpc] at h
      exact absurd h Bool.false_ne_true
    · rw [(tied_addEdge hp hc hpc).others d hd] at h
      rw [waiting_wait_ne hd]
      exact hlink.ready d h
  instrs := by
    intro q d
    have hindex : (∃ i < numInstrSources, d ∈ ((b.addEdge p c j).entryAt q).indexDependOnMe i) ↔
        (q = p ∧ d = c) ∨ ∃ i < numInstrSources, d ∈ (b.entryAt q).indexDependOnMe i := by
      constructor
      · rintro ⟨i, hi, hmem⟩
        rcases (mem_addEdge_index hlink hp hc hpc hj).mp hmem with ⟨hq, hd, -⟩ | hmem
        · exact .inl ⟨hq, hd⟩
        · exact .inr ⟨i, hi, hmem⟩
      · rintro (⟨hq, hd⟩ | ⟨i, hi, hmem⟩)
        · exact ⟨j, hj, (mem_addEdge_index hlink hp hc hpc hj).mpr (.inl ⟨hq, hd, rfl⟩)⟩
        · exact ⟨i, hi, (mem_addEdge_index hlink hp hc hpc hj).mpr (.inr hmem)⟩
    rw [hindex, ← hlink.instrs q d]
    by_cases hq : q = p
    · subst hq
      rw [addEdge_producer hp hpc]
      exact mem_insertIndex.trans (or_congr (and_iff_right rfl).symm Iff.rfl)
    · have hother : ((b.addEdge p c j).entryAt q).registersInstrsDependOnMe =
          (b.entryAt q).registersInstrsDependOnMe := by
        by_cases hqc : q = c
        · subst hqc
          rw [addEdge_self hc hpc]
          rfl
        · rw [addEdge_ne hq hqc]
      rw [hother]
      exact ⟨.inr, fun h => h.elim (fun h => absurd h.1 hq) id⟩
  nodup := by
    intro q
    by_cases hq : q = p
    · subst hq
      rw [addEdge_producer hp hpc]
      exact nodup_insertIndex (hlink.nodup q)
    · by_cases hqc : q = c
      · subst hqc
        rw [addEdge_self hc hpc]
        exact hlink.nodup q
      · rw [addEdge_ne hq hqc]
        exact hlink.nodup q
  producer := by
    intro q h
    by_cases hq : q = p
    · subst hq
      rw [addEdge_producer hp hpc]
      rfl
    · by_cases hqc : q = c
      · subst hqc
        rw [addEdge_self hc hpc] at h ⊢
        exact hlink.producer q h
      · rw [addEdge_ne hq hqc] at h ⊢
        exact hlink.producer q h
  sized := by
    intro q
    by_cases hq : q = p
    · subst hq
      rw [addEdge_producer hp hpc]
      exact (hlink.sized q).addDependent c j
    · by_cases hqc : q = c
      · subst hqc
        rw [addEdge_self hc hpc]
        exact (hlink.sized q).addProducer _ j
      · rw [addEdge_ne hq hqc]
        exact hlink.sized q

end Edge

/-! ## The producers of an entry -/

/-- The producers of `c` are known as far as the cells behind `k` go, and for
the first `n` sources as far as `k`: the youngest of them that writes a source
has completed, or is waited for. -/
structure Found (b₀ b : CoreBuffer) (w₀ w : Nat → Nat → Option Nat) (c k n : Nat) : Prop where
  tied : Tied b₀ b c
  linked : Linked b w
  recorded : Recorded b w
  others : ∀ d, d ≠ c → ∀ j, w d j = w₀ d j
  older : ∀ {m j}, w c j = some m → k ≤ m ∧ m < c
  awake : waiting numInstrSources w c = 0 → (b.entryAt c).regReady = true
  checked : ∀ j : Nat, (b.entryAt c).regRAWChecked[j]?.getD false = true →
    ∃ m, (k < m ∨ m = k ∧ j < n) ∧ m < c ∧
      (b₀.entryAt m).writes ((b₀.entryAt c).sourceRegister j) = true
  known : ∀ j < numInstrSources, (b₀.entryAt c).sourceRegister j ≠ 0 →
    ∀ m, (k < m ∨ m = k ∧ j < n) → m < c →
      (b₀.entryAt m).writes ((b₀.entryAt c).sourceRegister j) = true →
      (∀ m', m < m' → m' < c →
        (b₀.entryAt m').writes ((b₀.entryAt c).sourceRegister j) = false) →
      (b₀.entryAt m).executed = .completed ∨ w c j = some m

namespace Found

variable {b₀ b : CoreBuffer} {w₀ w : Nat → Nat → Option Nat} {c k n j : Nat}

/-- Nothing is behind the entry itself. -/
theorem start (hlink : Linked b w) (hrec : Recorded b w)
    (hready : (b.entryAt c).regReady = true)
    (hchecked : ∀ j : Nat, (b.entryAt c).regRAWChecked[j]?.getD false = false) :
    Found b b w w c c n where
  tied := .refl b c
  linked := hlink
  recorded := hrec
  others _ _ _ := rfl
  older hw := by
    have hnone := waiting_eq_zero.mp (hlink.ready c hready) _ (hlink.slot hw).2.2
    exact absurd (hnone.symm.trans hw) (Option.some_ne_none _).symm
  awake _ := hready
  checked j h := absurd ((hchecked j).symm.trans h) Bool.false_ne_true
  known := fun _ _ _ m hm hlt => by omega

/-- The next cell. -/
theorem before (h : Found b₀ b w₀ w c (k + 1) numInstrSources) : Found b₀ b w₀ w c k 0 where
  tied := h.tied
  linked := h.linked
  recorded := h.recorded
  others := h.others
  older hw := (h.older hw).imp_left Nat.le_of_succ_le
  awake := h.awake
  checked j hj := by
    obtain ⟨m, hm, hlt, hwrites⟩ := h.checked j hj
    exact ⟨m, .inl (by omega), hlt, hwrites⟩
  known j hj hsource m hm hlt hwrites hlast := h.known j hj hsource m (by omega) hlt hwrites hlast

/-- A producer that has completed is not waited for. -/
theorem skip (h : Found b₀ b w₀ w c k 0) (hdone : (b₀.entryAt k).executed = .completed) :
    Found b₀ b w₀ w c k n where
  tied := h.tied
  linked := h.linked
  recorded := h.recorded
  others := h.others
  older := h.older
  awake := h.awake
  checked j hj := by
    obtain ⟨m, hm, hlt, hwrites⟩ := h.checked j hj
    exact ⟨m, .inl (by omega), hlt, hwrites⟩
  known j hj hsource m hm hlt hwrites hlast := by
    by_cases hmk : m = k
    · subst hmk
      exact .inl hdone
    · exact h.known j hj hsource m (.inl (by omega)) hlt hwrites hlast

/-- A source that `k` has nothing to say about. -/
theorem pass (h : Found b₀ b w₀ w c k j)
    (hnew : (b₀.entryAt c).sourceRegister j ≠ 0 → k < c →
      (b₀.entryAt k).writes ((b₀.entryAt c).sourceRegister j) = true →
      ∃ m, k < m ∧ m < c ∧ (b₀.entryAt m).writes ((b₀.entryAt c).sourceRegister j) = true) :
    Found b₀ b w₀ w c k (j + 1) where
  tied := h.tied
  linked := h.linked
  recorded := h.recorded
  others := h.others
  older := h.older
  awake := h.awake
  checked i hi := by
    obtain ⟨m, hm, hlt, hwrites⟩ := h.checked i hi
    exact ⟨m, by omega, hlt, hwrites⟩
  known i hi hsource m hm hlt hwrites hlast := by
    by_cases hmk : m = k ∧ i = j
    · obtain ⟨rfl, rfl⟩ := hmk
      obtain ⟨m', hmm', hlt', hwrites'⟩ := hnew hsource hlt hwrites
      rw [hlast m' hmm' hlt'] at hwrites'
      exact absurd hwrites' Bool.false_ne_true
    · exact h.known i hi hsource m (by omega) hlt hwrites hlast

/-- A source that waits for `k` from now on. -/
theorem add (h : Found b₀ b w₀ w c k j) (hk : k < c) (hc : c < b₀.entry.length)
    (hj : j < numInstrSources) (hexecuted : (b₀.entryAt k).executed ≠ .completed)
    (hwrites : (b₀.entryAt k).writes ((b₀.entryAt c).sourceRegister j) = true)
    (hnew : (b.entryAt c).regRAWChecked[j]?.getD false = false) :
    Found b₀ (b.addEdge k c j) w₀ (wait w c j k) c k (j + 1) := by
  have hlength := h.tied.length
  have hcb : c < b.entry.length := hlength ▸ hc
  have hkb : k < b.entry.length := hk.trans hcb
  have hnone : w c j = none := by
    by_contra hsome
    exact Bool.false_ne_true (hnew.symm.trans (h.linked.checked hsome))
  have hexecutedb : (b.entryAt k).executed ≠ .completed := by
    rwa [h.tied.field OooInstr.executed fun _ _ _ _ _ _ _ _ => rfl]
  have hself := addEdge_self (j := j) hcb hk.ne
  exact {
    tied := h.tied.trans (tied_addEdge hkb hcb hk.ne)
    linked := linked_addEdge h.linked hkb hcb hk.ne hj hnone
    recorded := recorded_addEdge h.linked h.recorded hkb hcb hk.ne hj hexecutedb hnone
    others := fun d hd i => (wait_ne fun hdc => hd hdc.1).trans (h.others d hd i)
    older := fun {m i} hw => by
      by_cases hi : i = j
      · subst hi
        rw [wait_self] at hw
        obtain rfl := Option.some.inj hw
        exact ⟨le_rfl, hk⟩
      · exact h.older (by rwa [wait_ne fun h => hi h.2] at hw)
    awake := fun hzero => by
      rw [waiting_wait hj hnone] at hzero
      exact absurd hzero (Nat.succ_ne_zero _)
    checked := fun i hi => by
      by_cases hij : j = i
      · subst hij
        exact ⟨k, .inr ⟨rfl, Nat.lt_succ_self j⟩, hk, hwrites⟩
      · rw [hself, OooInstr.addProducer_checked_ne hij] at hi
        obtain ⟨m, hm, hlt, hwritten⟩ := h.checked i hi
        exact ⟨m, by omega, hlt, hwritten⟩
    known := fun i hi hsource m hm hlt hwritten hlast => by
      by_cases hmk : m = k ∧ i = j
      · obtain ⟨rfl, rfl⟩ := hmk
        exact .inr wait_self
      · refine (h.known i hi hsource m (by omega) hlt hwritten hlast).imp_right fun hw => ?_
        rw [wait_ne ?_]
        · exact hw
        · rintro ⟨-, rfl⟩
          rw [hnone] at hw
          exact Option.some_ne_none m hw.symm }

end Found

namespace O3Cpu

variable {b₀ b : CoreBuffer} {w₀ w : Nat → Nat → Option Nat} {c k n j : Nat} {s : O3Cpu}

theorem regRAWDependency_eq (b : CoreBuffer) (s : O3Cpu) (k c j : Nat) :
    ({ s with rob := b } : O3Cpu).regRAWDependency k c j =
      { s with rob := if (b.entryAt k).writes ((b.entryAt c).sourceRegister j) then b.addEdge k c j
        else b } := by
  unfold regRAWDependency
  dsimp only
  split
  · rfl
  · rfl

/-- One source of the entry, against `k`. -/
theorem regRAWDependency_found (h : Found b₀ b w₀ w c k j) (hk : k < c)
    (hc : c < b₀.entry.length) (hj : j < numInstrSources)
    (hexecuted : (b₀.entryAt k).executed ≠ .completed) :
    ∃ b' w', (if (b.entryAt c).unchecked j then ({ s with rob := b } : O3Cpu).regRAWDependency k c j
        else { s with rob := b }) = { s with rob := b' } ∧ Found b₀ b' w₀ w' c k (j + 1) := by
  have hsource : (b.entryAt c).sourceRegister j = (b₀.entryAt c).sourceRegister j :=
    h.tied.field (OooInstr.sourceRegister · j) (fun _ _ _ _ _ _ _ _ => rfl) c
  have hwriter : ∀ r, (b.entryAt k).writes r = (b₀.entryAt k).writes r := fun r =>
    h.tied.field (OooInstr.writes · r) (fun _ _ _ _ _ _ _ _ => rfl) k
  split
  · rename_i hun
    rw [OooInstr.unchecked, Bool.and_eq_true, Bool.not_eq_true'] at hun
    rw [regRAWDependency_eq, hwriter, hsource]
    split
    · rename_i hwrites
      exact ⟨_, _, rfl, h.add hk hc hj hexecuted hwrites hun.2⟩
    · rename_i hwrites
      exact ⟨_, _, rfl, h.pass fun _ _ hw => absurd hw hwrites⟩
  · rename_i hun
    rw [OooInstr.unchecked, Bool.and_eq_true, Bool.not_eq_true', not_and, Bool.not_eq_false,
      decide_eq_true_eq, hsource] at hun
    refine ⟨_, _, rfl, h.pass fun hne _ _ => ?_⟩
    obtain ⟨m, hm, hlt, hwrites⟩ := h.checked j (hun hne)
    exact ⟨m, by omega, hlt, hwrites⟩

/-- All of them. -/
theorem regDependencyOn_found (h : Found b₀ b w₀ w c (k + 1) numInstrSources) (hk : k < c)
    (hc : c < b₀.entry.length) :
    ∃ b' w', ({ s with rob := b } : O3Cpu).regDependencyOn c k = { s with rob := b' } ∧
      Found b₀ b' w₀ w' c k numInstrSources := by
  have hexecuted : (b.entryAt k).executed = (b₀.entryAt k).executed :=
    h.tied.field OooInstr.executed (fun _ _ _ _ _ _ _ _ => rfl) k
  unfold regDependencyOn
  dsimp only
  split
  · rename_i hne
    rw [hexecuted] at hne
    have hall : ∀ n ≤ numInstrSources, ∃ b' w',
        (List.range n).foldl (fun s j =>
          if (s.rob.entryAt c).unchecked j then regRAWDependency k c j s else s)
          { s with rob := b } = { s with rob := b' } ∧ Found b₀ b' w₀ w' c k n := by
      intro n
      induction n with
      | zero => exact fun _ => ⟨b, w, rfl, h.before⟩
      | succ n ih =>
          intro hn
          obtain ⟨b₁, w₁, hfold, hfound⟩ := ih (by omega)
          obtain ⟨b', w', hstep, hfound'⟩ := regRAWDependency_found (s := s) hfound hk hc
            (by omega) hne
          refine ⟨b', w', ?_, hfound'⟩
          rw [List.range_succ, List.foldl_append, hfold]
          exact hstep
    exact hall numInstrSources le_rfl
  · rename_i hdone
    rw [hexecuted, not_not] at hdone
    exact ⟨b, w, rfl, h.before.skip hdone⟩

theorem priors_eq {size head index : Nat} (h : head ≤ index) :
    priors size head index = (List.range' head (index - head)).reverse := by
  unfold priors
  dsimp only
  by_cases hi : index = head
  · rw [if_pos hi, hi, Nat.sub_self]
    rfl
  · rw [if_neg hi, if_neg (by omega : ¬index = 0), if_pos (by omega : head ≤ index - 1)]
    congr 2
    omega

/-- **The producers are found.** Behind it, each source of the entry has the
youngest older instruction that writes it done, or waits for it. -/
theorem regDependency_found (hlink : Linked s.rob w) (hrec : Recorded s.rob w)
    (hhead : s.rob.head ≤ c) (hc : c < s.rob.entry.length)
    (hready : (s.rob.entryAt c).regReady = true)
    (hchecked : ∀ j : Nat, (s.rob.entryAt c).regRAWChecked[j]?.getD false = false) :
    ∃ b w', s.regDependency c = { s with rob := b } ∧
      Found s.rob b w w' c s.rob.head numInstrSources := by
  have hall : ∀ (n : Nat) b w', s.rob.head + n ≤ c →
      Found s.rob b w w' c (s.rob.head + n) numInstrSources →
      ∃ b' w'', (List.range' s.rob.head n).reverse.foldl (fun s prior => regDependencyOn c prior s)
        { s with rob := b } = { s with rob := b' } ∧
        Found s.rob b' w w'' c s.rob.head numInstrSources := by
    intro n
    induction n with
    | zero => exact fun b w' _ h => ⟨b, w', rfl, h⟩
    | succ n ih =>
        intro b w' hn h
        obtain ⟨b₁, w₁, hstep, hfound⟩ := regDependencyOn_found (s := s) (k := s.rob.head + n) h
          (by omega) hc
        obtain ⟨b', w'', hfold, hfound'⟩ := ih b₁ w₁ (by omega) hfound
        refine ⟨b', w'', ?_, hfound'⟩
        rw [List.range'_concat, List.reverse_append, List.reverse_singleton,
          List.singleton_append, List.foldl_cons, Nat.one_mul, hstep]
        exact hfold
  unfold regDependency
  rw [priors_eq hhead]
  refine hall (c - s.rob.head) s.rob w (by omega) ?_
  rw [Nat.add_sub_cancel' hhead]
  exact .start hlink hrec hready hchecked

end O3Cpu

end DramCache
