import DramCache.FrontEnd
import DramCache.Keyed

/-!
# The ORB and CRB discipline

Every index has at most one ORB entry, every CRB entry waits for a taken
index, and an entry not being worked on waits for a response. While a
call works on one entry the work list says which: `Ctl` reads that off its
head. `OrbInv` is the invariant, and `orbInv_of_reaches` says it holds of
every configuration of a run after warm-up and outside bypass mode.
-/

namespace DramCache

/-! ## Control -/

/-- What the manager is in the middle of. -/
inductive Ctl where
  | calm
  /-- The entry of an address is about to enter its state. -/
  | drive (address : Nat)
  /-- The entry of an address has been written and is about to complete. -/
  | finish (address : Nat)
  /-- The entry of an index is gone and its successor not admitted. -/
  | hole (indexDC : Nat)
deriving DecidableEq

def Ctl.ofCall : Call → Ctl
  | .driveState a => .drive a
  | .completeRequest a _ => .finish a
  | .promoteFromCRB i => .hole i
  | _ => .calm

/-- The control a work list stands for. -/
def Ctl.of : List Call → Ctl
  | [] => .calm
  | c :: _ => .ofCall c

/-- The address of the entry being worked on. -/
def Ctl.focus : Ctl → Option Nat
  | .drive a => some a
  | .finish a => some a
  | _ => none

/-- The state the entry being worked on is in. -/
def Ctl.Fits : Ctl → ReqState → Prop
  | .drive _, st => st.drivable
  | .finish _, st => st = .waitingLocMemWriteResp
  | _, _ => True

theorem Ctl.ofCall_bystander {c : Call} (h : c.bystander) : Ctl.ofCall c = .calm := by
  cases c <;> simp_all [Call.bystander, Ctl.ofCall]

/-- Control calls stand at the head of a work list only. -/
def CalmTail (K : List Call) : Prop := ∀ c ∈ K.tail, Ctl.ofCall c = .calm

/-- Behind bystanders, a calm list is calm. -/
theorem Ctl.of_append_calm {ks K : List Call} (hks : ∀ k ∈ ks, Ctl.ofCall k = .calm)
    (hK : ∀ c ∈ K, Ctl.ofCall c = .calm) : Ctl.of (ks ++ K) = .calm := by
  cases ks with
  | cons k ks => exact hks k (List.mem_cons_self ..)
  | nil =>
      cases K with
      | nil => rfl
      | cons c K => exact hK c (List.mem_cons_self ..)

theorem FrontStep.calmTail {m m' : Manager} {c : Call} {ks K : List Call}
    (h : FrontStep m c m' ks) (hK : CalmTail (c :: K)) : CalmTail (ks ++ K) := by
  have hcalm : (∀ k ∈ ks.tail, Ctl.ofCall k = .calm) → CalmTail (ks ++ K) := by
    intro hks k hk
    cases ks with
    | nil => exact hK k (List.mem_of_mem_tail hk)
    | cons k' ks =>
        rcases List.mem_append.mp hk with hk | hk
        · exact hks k hk
        · exact hK k hk
  have hby : (∀ k ∈ ks, k.bystander) → CalmTail (ks ++ K) := fun hks =>
    hcalm fun k hk => Ctl.ofCall_bystander (hks k (List.mem_of_mem_tail hk))
  cases h with
  | quiet _ hks => exact hby hks
  | readNear _ _ _ hks => exact hby hks
  | readFar _ _ _ hks => exact hby hks
  | fill hks => exact hby hks
  | farDone => exact hcalm (by simp [Ctl.ofCall])
  | promote => exact hcalm (by simp [Ctl.ofCall])
  | _ => exact hcalm (by simp)

theorem FrontEnter.calmTail {m m' : Manager} {op : Op} {ks : List Call}
    (h : FrontEnter m op m' ks) : CalmTail ks := by
  cases h <;> simp [CalmTail, Sys.operateCalls, Ctl.ofCall]

/-! ## The invariant -/

/-- What holds of the ORB entry of an address, whatever its state. -/
structure EntryOk (next a : Nat) (e : OrbEntry) : Prop where
  addr : e.pkt.address = a
  valid : e.validEntry = true
  index : e.indexDC = returnIndexDC a
  tag : e.tagDC = returnTagDC a
  rid : e.requestId < next
  farRead : e.state = .farMemRead ∨ e.state = .waitingFarMemReadResp →
    e.isWriteReq = false ∧ e.isHit = false
  nearWrite : e.state = .locMemWrite ∨ e.state = .waitingLocMemWriteResp → e.isWriteReq = true

structure OrbInv (ctl : Ctl) (m : Manager) : Prop where
  entry : ∀ {a e}, m.orb.lookup a = some e → EntryOk m.nextRequestId a e
  index : ∀ {a b e f}, m.orb.lookup a = some e → m.orb.lookup b = some f →
    e.indexDC = f.indexDC → a = b
  rest : ∀ {a e}, m.orb.lookup a = some e → ctl.focus ≠ some a → e.state.waiting = true
  focus : ∀ {a}, ctl.focus = some a → ∃ e, m.orb.lookup a = some e ∧ ctl.Fits e.state
  hole : ∀ {i a e}, ctl = .hole i → m.orb.lookup a = some e → e.indexDC ≠ i
  waits : ∀ c ∈ m.crb, (∃ a e, m.orb.lookup a = some e
      ∧ e.indexDC = returnIndexDC c.pkt.address) ∨ ctl = .hole (returnIndexDC c.pkt.address)
  orbSize : m.orbSize + (if ctl.focus = none ∧ ctl ≠ .calm then 1 else 0) ≤ dcmOrbMaxSize
  crbSize : m.crb.length ≤ dcmCrbMaxSize

/-! ### Classification chooses a state that fits -/

namespace Manager

theorem initialChoice_drivable (e : OrbEntry) : (initialChoice e).1.drivable = true := by
  unfold initialChoice
  split
  · rfl
  · split
    · rfl
    · split
      · cases e.isWriteReq <;> rfl
      · rfl

theorem initialChoice_farMemRead {e : OrbEntry} (h : (initialChoice e).1 = .farMemRead) :
    e.isWriteReq = false ∧ e.isHit = false := by
  unfold initialChoice at h
  split at h
  · cases h
  · split at h
    · cases h
    · split at h
      · rename_i hc
        cases hw : e.isWriteReq
        · simp only [isCleanMiss, Bool.and_eq_true, Bool.not_eq_true'] at hc
          exact ⟨rfl, hc.2.1⟩
        · simp [hw] at h
      · cases h

theorem initialChoice_locMemWrite {e : OrbEntry} (h : (initialChoice e).1 = .locMemWrite) :
    e.isWriteReq = true := by
  unfold initialChoice at h
  split at h
  · rename_i hc
    simp only [isWriteHit, Bool.and_eq_true] at hc
    exact hc.2.1
  · split at h
    · rename_i hc
      simp only [isWriteHit, Bool.and_eq_true] at hc
      exact hc.2.1
    · split at h
      · cases hw : e.isWriteReq
        · simp [hw] at h
        · rfl
      · cases h

theorem initialChoice_ne_waiting (e : OrbEntry) :
    (initialChoice e).1.waiting = false ∧ (initialChoice e).1 ≠ .waitingLocMemWriteResp := by
  have h := initialChoice_drivable e
  cases hs : (initialChoice e).1 <;> simp_all [ReqState.drivable, ReqState.waiting]

/-- A dirty victim is recorded when it is evicted, and no policy skips the
near read that leads to its write-back. -/
theorem admittedEntry_evicts (m : Manager) (pkt : Packet) (w : Bool) (arr : Option Nat)
    (now : Nat) :
    let e := m.admittedEntry pkt w arr now
    e.handleDirtyLine = (e.victimWasValid && e.victimWasDirty && !e.isHit) ∧
      (e.handleDirtyLine = true →
        e.dirtyLineAddr = e.victimFarAddr ∧ e.state = .locMemRead) := by
  intro e
  have hhandle : e.handleDirtyLine = (e.victimWasValid && e.victimWasDirty && !e.isHit) := by
    dsimp only [e, admittedEntry, classify, newEntry]
    split <;> rename_i hev
    · exact hev.symm
    · exact (Bool.eq_false_iff.mpr hev).symm
  refine ⟨hhandle, fun h => ⟨?_, ?_⟩⟩
  · dsimp only [e, admittedEntry, classify, newEntry] at h ⊢
    split at h
    · rename_i hev
      rw [if_pos hev]
    · cases h
  · rw [hhandle] at h
    simp only [Bool.and_eq_true, Bool.not_eq_true'] at h
    obtain ⟨⟨hv, hd⟩, hhit⟩ := h
    have hwh : isWriteHit e = false := by simp [isWriteHit, hhit]
    have hcm : isCleanMiss e = false := by simp [isCleanMiss, hhit, hv, hd]
    change (initialChoice _).1 = _
    unfold initialChoice
    rw [if_neg, if_neg, if_neg]
    · exact fun hc => Bool.false_ne_true (hcm.symm.trans hc.2)
    · exact fun hc => Bool.false_ne_true (hwh.symm.trans hc.2)
    · exact fun hc => Bool.false_ne_true (hwh.symm.trans hc.2)

theorem admittedEntry_ok (m : Manager) (pkt : Packet) (w : Bool) (arr : Option Nat)
    (now : Nat) : EntryOk (m.nextRequestId + 1) pkt.address (m.admittedEntry pkt w arr now) where
  addr := rfl
  valid := rfl
  index := rfl
  tag := rfl
  rid := Nat.lt_succ_self _
  farRead h := by
    rcases h with h | h
    · exact initialChoice_farMemRead h
    · have := (initialChoice_ne_waiting (classify
        (m.tagMetadataStore (returnIndexDC pkt.address)) (m.newEntry pkt w arr now))).1
      change (initialChoice _).1 = _ at h
      rw [h] at this
      cases this
  nearWrite h := by
    rcases h with h | h
    · exact initialChoice_locMemWrite h
    · exact absurd h (initialChoice_ne_waiting _).2

end Manager

/-! ### Entries change, leave and arrive -/

section Moves

variable {ctl ctl' : Ctl} {m m' : Manager}

/-- An entry changes in place: its neighbours wait before and after. -/
theorem OrbInv.change {a : Nat} {e : OrbEntry} (h : OrbInv ctl m)
    (he : m.orb.lookup a = some e) (e' : OrbEntry) (horb : m'.orb = m.orb.insert a e')
    (hcrb : m'.crb = m.crb) (hnext : m'.nextRequestId = m.nextRequestId)
    (hctl : ctl.focus = some a ∨ ctl = .calm) (hctl' : ctl'.focus = some a ∨ ctl' = .calm)
    (hok : EntryOk m.nextRequestId a e')
    (hfit : if ctl' = .calm then e'.state.waiting = true else ctl'.Fits e'.state) :
    OrbInv ctl' m' := by
  have hlook : ∀ b, m'.orb.lookup b = if b = a then some e' else m.orb.lookup b := by
    intro b
    rw [horb, Keyed.lookup_insert]
  have hidx : e'.indexDC = e.indexDC := hok.index.trans (h.entry he).index.symm
  have hback : ∀ {b f}, m'.orb.lookup b = some f →
      ∃ f', m.orb.lookup b = some f' ∧ f.indexDC = f'.indexDC := by
    intro b f hf
    rw [hlook] at hf
    split at hf
    · rename_i hb
      cases hf
      exact ⟨e, hb ▸ he, hidx⟩
    · exact ⟨f, hf, rfl⟩
  refine ⟨?_, ?_, ?_, ?_, ?_, ?_, ?_, ?_⟩
  · intro b f hf
    rw [hlook] at hf
    rw [hnext]
    split at hf
    · rename_i hb
      cases hf
      exact hb ▸ hok
    · exact h.entry hf
  · intro b c f g hf hg hfg
    obtain ⟨f', hf', hif⟩ := hback hf
    obtain ⟨g', hg', hig⟩ := hback hg
    exact h.index hf' hg' (hif.symm.trans (hfg.trans hig))
  · intro b f hf hne
    rw [hlook] at hf
    split at hf
    · rename_i hb
      cases hf
      rcases hctl' with hc | hc
      · exact absurd (hb ▸ hc) hne
      · simpa [hc] using hfit
    · rename_i hb
      refine h.rest hf fun hfoc => hb ?_
      rcases hctl with hc | hc
      · rw [hc] at hfoc
        exact (Option.some.inj hfoc).symm
      · rw [hc] at hfoc
        cases hfoc
  · intro b hb
    rcases hctl' with hc | hc
    · rw [hc] at hb
      obtain rfl := Option.some.inj hb
      refine ⟨e', by rw [hlook, if_pos rfl], ?_⟩
      rwa [if_neg] at hfit
      rintro rfl
      cases hc
    · rw [hc] at hb
      cases hb
  · intro i b f hi
    rcases hctl' with hc | hc <;> rw [hi] at hc <;> cases hc
  · intro c hc
    rw [hcrb] at hc
    rcases h.waits c hc with ⟨b, f, hf, hif⟩ | hhole
    · by_cases hb : b = a
      · subst hb
        obtain rfl : f = e := by simpa [he] using hf.symm
        exact .inl ⟨b, e', by rw [hlook, if_pos rfl], hidx.trans hif⟩
      · exact .inl ⟨b, f, by rw [hlook, if_neg hb]; exact hf, hif⟩
    · rcases hctl with hc' | hc' <;> rw [hhole] at hc' <;> cases hc'
  · have hsize : m'.orbSize = m.orbSize := by
      simp only [Manager.orbSize, ← Keyed.card_values, horb]
      rw [Keyed.values_insert, Keyed.values_erase he]
      simp
    have := h.orbSize
    rw [hsize, if_neg]
    · omega
    · rintro ⟨h1, h2⟩
      rcases hctl' with hc | hc
      · rw [hc] at h1
        cases h1
      · exact h2 hc
  · rw [hcrb]
    exact h.crbSize

/-- Nothing the invariant speaks of changes. -/
theorem OrbInv.congr (h : OrbInv ctl m) (horb : m'.orb = m.orb) (hcrb : m'.crb = m.crb)
    (hnext : m'.nextRequestId = m.nextRequestId) : OrbInv ctl m' where
  entry := by
    rw [horb, hnext]
    exact h.entry
  index := by
    rw [horb]
    exact h.index
  rest := by
    rw [horb]
    exact h.rest
  focus := by
    rw [horb]
    exact h.focus
  hole := by
    rw [horb]
    exact h.hole
  waits := by
    rw [horb, hcrb]
    exact h.waits
  orbSize := by
    rw [Manager.orbSize, horb]
    exact h.orbSize
  crbSize := by
    rw [hcrb]
    exact h.crbSize

/-- An entry leaves; its index is a hole. -/
theorem OrbInv.leave {a : Nat} {e : OrbEntry} (h : OrbInv ctl m)
    (he : m.orb.lookup a = some e) (horb : m'.orb = m.orb.erase a)
    (hcrb : m'.crb = m.crb) (hnext : m'.nextRequestId = m.nextRequestId)
    (hctl : ctl.focus = some a ∨ ctl = .calm) : OrbInv (.hole e.indexDC) m' := by
  have hlook : ∀ b, m'.orb.lookup b = if b = a then none else m.orb.lookup b := by
    intro b
    rw [horb, Keyed.lookup_erase]
  have hback : ∀ {b f}, m'.orb.lookup b = some f → b ≠ a ∧ m.orb.lookup b = some f := by
    intro b f hf
    rw [hlook] at hf
    split at hf
    · cases hf
    · rename_i hb
      exact ⟨hb, hf⟩
  refine ⟨?_, ?_, ?_, ?_, ?_, ?_, ?_, ?_⟩
  · intro b f hf
    rw [hnext]
    exact h.entry (hback hf).2
  · intro b c f g hf hg hfg
    exact h.index (hback hf).2 (hback hg).2 hfg
  · intro b f hf _
    refine h.rest (hback hf).2 fun hfoc => (hback hf).1 ?_
    rcases hctl with hc | hc
    · rw [hc] at hfoc
      exact (Option.some.inj hfoc).symm
    · rw [hc] at hfoc
      cases hfoc
  · intro b hb
    cases hb
  · intro i b f hi hf hif
    obtain rfl : e.indexDC = i := by simpa using hi
    exact (hback hf).1 (h.index (hback hf).2 he hif)
  · intro c hc
    rw [hcrb] at hc
    rcases h.waits c hc with ⟨b, f, hf, hif⟩ | hhole
    · by_cases hb : b = a
      · subst hb
        obtain rfl : f = e := by simpa [he] using hf.symm
        exact .inr (by rw [hif])
      · exact .inl ⟨b, f, by rw [hlook, if_neg hb]; exact hf, hif⟩
    · rcases hctl with hc' | hc' <;> rw [hhole] at hc' <;> cases hc'
  · have hsize : m.orbSize = m'.orbSize + 1 := by
      simp only [Manager.orbSize, ← Keyed.card_values, horb]
      rw [Keyed.values_erase he]
      simp
    have := h.orbSize
    rw [if_pos ⟨rfl, by simp⟩]
    omega
  · rw [hcrb]
    exact h.crbSize

/-- A request arrives at a free index: directly, or as the waiter of the
hole. -/
theorem OrbInv.arrive {a : Nat} {e : OrbEntry} (h : OrbInv ctl m)
    (hfree : ∀ {b f}, m.orb.lookup b = some f → f.indexDC ≠ returnIndexDC a)
    (horb : m'.orb = m.orb.insert a e) (hnext : m'.nextRequestId = m.nextRequestId + 1)
    (hok : EntryOk (m.nextRequestId + 1) a e) (hdrive : e.state.drivable = true)
    (hctl : ctl = .calm ∧ m.orbSize < dcmOrbMaxSize ∨ ctl = .hole (returnIndexDC a))
    (hcrb : m'.crb ⊆ m.crb) (hlen : m'.crb.length ≤ m.crb.length) :
    OrbInv (.drive a) m' := by
  have hlook : ∀ b, m'.orb.lookup b = if b = a then some e else m.orb.lookup b := by
    intro b
    rw [horb, Keyed.lookup_insert]
  have hnone : m.orb.lookup a = none := by
    refine Option.eq_none_iff_forall_ne_some.mpr fun f hf => ?_
    exact hfree hf (h.entry hf).index
  have hfoc : ctl.focus = none := by
    rcases hctl with ⟨hc, -⟩ | hc <;> rw [hc] <;> rfl
  refine ⟨?_, ?_, ?_, ?_, ?_, ?_, ?_, ?_⟩
  · intro b f hf
    rw [hlook] at hf
    rw [hnext]
    split at hf
    · rename_i hb
      cases hf
      exact hb ▸ hok
    · have := h.entry hf
      exact { this with rid := Nat.lt_succ_of_lt this.rid }
  · intro b c f g hf hg hfg
    rw [hlook] at hf hg
    split at hf <;> split at hg
    · rename_i hb hc
      rw [hb, hc]
    · cases hf
      exact absurd (hfg.symm.trans hok.index) (hfree hg)
    · cases hg
      exact absurd (hfg.trans hok.index) (hfree hf)
    · exact h.index hf hg hfg
  · intro b f hf hne
    rw [hlook] at hf
    split at hf
    · rename_i hb
      exact absurd (congrArg some hb.symm) hne
    · exact h.rest hf (by rw [hfoc]; simp)
  · intro b hb
    obtain rfl : a = b := by simpa [Ctl.focus] using hb
    exact ⟨e, by rw [hlook, if_pos rfl], hdrive⟩
  · intro i b f hi
    cases hi
  · intro c hc
    rcases h.waits c (hcrb hc) with ⟨b, f, hf, hif⟩ | hhole
    · refine .inl ⟨b, f, ?_, hif⟩
      rw [hlook, if_neg]
      · exact hf
      · rintro rfl
        rw [hnone] at hf
        cases hf
    · refine .inl ⟨a, e, by rw [hlook, if_pos rfl], ?_⟩
      rcases hctl with ⟨hc', -⟩ | hc'
      · rw [hhole] at hc'
        cases hc'
      · rw [hhole] at hc'
        exact hok.index.trans (by simpa using hc'.symm)
  · have hsize : m'.orbSize = m.orbSize + 1 := by
      simp only [Manager.orbSize, ← Keyed.card_values, horb]
      rw [Keyed.values_insert_new hnone]
      simp
    have := h.orbSize
    rw [if_neg (by simp [Ctl.focus]), hsize]
    rcases hctl with ⟨-, hlt⟩ | hc'
    · omega
    · rw [if_pos ⟨hfoc, by simp [hc']⟩] at this
      omega
  · exact hlen.trans h.crbSize

end Moves

/-! ### Steps keep the invariant -/

theorem checkConflict_iff {m : Manager} {i : Nat} : m.checkConflictInORB i = true ↔
    ∃ a e, m.orb.lookup a = some e ∧ e.validEntry = true ∧ e.indexDC = i := by
  have hmem : ∀ e, e ∈ m.entries ↔ ∃ a, m.orb.lookup a = some e := fun e =>
    Keyed.mem_values
  simp only [Manager.checkConflictInORB, List.any_eq_true, hmem, Bool.and_eq_true,
    decide_eq_true_eq]
  constructor
  · rintro ⟨e, ⟨a, ha⟩, hv, hi⟩
    exact ⟨a, e, ha, hv, hi⟩
  · rintro ⟨a, e, ha, hv, hi⟩
    exact ⟨e, ⟨a, ha⟩, hv, hi⟩

/-- An index without conflict is free. -/
theorem OrbInv.free {ctl : Ctl} {m : Manager} (h : OrbInv ctl m) {i : Nat}
    (hc : m.checkConflictInORB i = false) {b : Nat} {f : OrbEntry}
    (hf : m.orb.lookup b = some f) : f.indexDC ≠ i := by
  intro hi
  rw [checkConflict_iff.mpr ⟨b, f, hf, (h.entry hf).valid, hi⟩] at hc
  cases hc

/-- A line whose index is free has no entry. -/
theorem OrbInv.lookup_none {ctl : Ctl} {m : Manager} (h : OrbInv ctl m) {a : Nat}
    (hc : m.checkConflictInORB (returnIndexDC a) = false) : m.orb.lookup a = none :=
  Option.eq_none_iff_forall_ne_some.mpr fun _ hf => h.free hc hf (h.entry hf).index

theorem waiter?_spec {m : Manager} {i : Nat} {c : CrbEntry} (h : m.waiter? i = some c) :
    c ∈ m.crb ∧ returnIndexDC c.pkt.address = i :=
  ⟨List.mem_of_find?_eq_some h, by simpa using List.find?_some h⟩

/-- The waiter of a hole has no entry. -/
theorem OrbInv.waiter_none {m : Manager} {i : Nat} (h : OrbInv (.hole i) m) {c : CrbEntry}
    (hw : m.waiter? i = some c) : m.orb.lookup c.pkt.address = none :=
  Option.eq_none_iff_forall_ne_some.mpr fun _ hf =>
    h.hole rfl hf ((h.entry hf).index.trans (waiter?_spec hw).2)

/-- With no waiter the hole is harmless. -/
theorem OrbInv.close {m : Manager} {i : Nat} (h : OrbInv (.hole i) m)
    (hw : m.waiter? i = none) : OrbInv .calm m where
  entry := h.entry
  index := h.index
  rest hl _ := h.rest hl (by simp [Ctl.focus])
  focus ha := by cases ha
  hole hi := by cases hi
  waits c hc := by
    rcases h.waits c hc with hw' | hi
    · exact .inl hw'
    · have := List.find?_eq_none.mp hw c hc
      simp only [decide_eq_true_eq] at this
      exact absurd (by simpa using hi.symm) this
  orbSize := by
    have := h.orbSize
    simp only [Ctl.focus]
    simp only [Ctl.focus] at this
    simp
    omega
  crbSize := h.crbSize

/-- The fields a step of the state machine sets. -/
theorem EntryOk.set {n a : Nat} {e : OrbEntry} (h : EntryOk n a e) (st : ReqState)
    (issued conflict : Bool)
    (hfar : st = .farMemRead ∨ st = .waitingFarMemReadResp →
      e.isWriteReq = false ∧ e.isHit = false)
    (hwrite : st = .locMemWrite ∨ st = .waitingLocMemWriteResp → e.isWriteReq = true) :
    EntryOk n a { e with state := st, issued := issued, conflict := conflict } where
  addr := h.addr
  valid := h.valid
  index := h.index
  tag := h.tag
  rid := h.rid
  farRead := hfar
  nearWrite := hwrite

section Cases

variable {m m' : Manager} {K : List Call}

/-- The response to a tag check sends the entry on. -/
theorem OrbInv.nearEnter {side : Side} {pkt : Packet} {e : OrbEntry} {st : ReqState} (now : Nat)
    (h : OrbInv .calm m) (hl : m.orb.lookup pkt.address = some e)
    (hst : st = .locMemWrite ∧ e.isWriteReq = true
      ∨ st = .farMemRead ∧ e.isWriteReq = false ∧ e.isHit = false) :
    OrbInv (.drive e.pkt.address)
      (((m.emit (.answered side e)).nearAnswered e now).enterState e st) := by
  have he := h.entry hl
  have hdrive : st.drivable = true := by
    rcases hst with ⟨rfl, -⟩ | ⟨rfl, -⟩ <;> rfl
  rw [← he.addr] at hl
  refine h.change hl { e with state := st } ?_ ?_ ?_ (.inr rfl) (.inl rfl) ?_ ?_
  · simp [Manager.enterState, Manager.emit]
  · simp [Manager.enterState, Manager.emit]
  · simp [Manager.enterState, Manager.emit]
  · rw [he.addr]
    refine he.set st e.issued e.conflict ?_ ?_
    · rintro (rfl | rfl)
      · simpa using hst
      · cases hdrive
    · rintro (rfl | rfl)
      · simpa using hst
      · cases hdrive
  · rw [if_neg (by simp)]
    exact hdrive

/-- The waiter of a hole takes it. -/
theorem OrbInv.promote {i : Nat} {c : CrbEntry} (now : Nat) (h : OrbInv (.hole i) m)
    (hw : m.waiter? i = some c) : OrbInv (.drive c.pkt.address)
      ((m.takeWaiter i).admitEntry c.pkt c.isWriteReq (some c.arrivalCycle) now) := by
  obtain ⟨hc, hi⟩ := waiter?_spec hw
  refine h.arrive (e := (m.takeWaiter i).admittedEntry c.pkt c.isWriteReq
    (some c.arrivalCycle) now) ?_ rfl rfl ?_ ?_ (.inr ?_) ?_ ?_
  · intro b f hf
    rw [hi]
    exact h.hole rfl hf
  · exact Manager.admittedEntry_ok (m.takeWaiter i) ..
  · exact Manager.initialChoice_drivable _
  · rw [hi]
  · exact List.eraseP_sublist.subset
  · exact List.eraseP_sublist.length_le

end Cases

theorem OrbInv.step {m m' : Manager} {c : Call} {ks K : List Call}
    (hstep : FrontStep m c m' ks) (hK : CalmTail (c :: K)) (h : OrbInv (Ctl.of (c :: K)) m) :
    OrbInv (Ctl.of (ks ++ K)) m' := by
  have hby : ∀ {ks : List Call}, (∀ k ∈ ks, k.bystander) → Ctl.of (ks ++ K) = .calm :=
    fun hks => Ctl.of_append_calm (fun k hk => Ctl.ofCall_bystander (hks k hk)) hK
  have hnil : Ctl.of ([] ++ K) = .calm := hby (by simp)
  cases hstep with
  | quiet hc hks =>
      rw [hby hks, ← Ctl.ofCall_bystander hc]
      exact h
  | bypassed now hm =>
      rw [hnil]
      exact h.congr rfl rfl rfl
  | untracked hl =>
      rw [hnil]
      exact h.congr rfl rfl rfl
  | stray hl hs =>
      rw [hnil]
      exact h.congr rfl rfl rfl
  | nearEnter now hl hs hst => exact h.nearEnter now hl hst
  | nearHit lat now hl hs hw hh =>
      have he := h.entry hl
      rw [← he.addr] at hl
      refine h.leave hl ?_ ?_ ?_ (.inr rfl) <;> simp [Manager.emit]
  | farDone lat now hl hs =>
      have he := h.entry hl
      rw [← he.addr] at hl
      refine h.leave hl ?_ ?_ ?_ (.inr rfl) <;>
        simp [Manager.emit, Manager.farAnswered, Manager.count]
  | @driveIdle a hd =>
      obtain ⟨e, he, hfit⟩ := h.focus (a := a) rfl
      exact absurd hfit (by simp [Ctl.Fits, Ctl.of, Ctl.ofCall, hd e he])
  | @readNear a e ks now hl hs hks =>
      have he := h.entry hl
      rw [hby hks]
      refine h.change hl { e with state := .waitingLocMemReadResp, issued := true }
        ?_ rfl rfl (.inl rfl) (.inr rfl) ?_ rfl
      · rw [← he.addr]
        rfl
      · exact he.set .waitingLocMemReadResp true e.conflict (by simp) (by simp)
  | @readFar a e ks now hl hs hks =>
      have he := h.entry hl
      rw [hby hks]
      refine h.change hl { e with state := .waitingFarMemReadResp, issued := true }
        ?_ rfl rfl (.inl rfl) (.inr rfl) ?_ rfl
      · rw [← he.addr]
        rfl
      · exact he.set .waitingFarMemReadResp true e.conflict
          (fun _ => he.farRead (.inl hs)) (by simp)
  | @writeNear a e now hl hs =>
      have he := h.entry hl
      refine h.change hl { e with state := .waitingLocMemWriteResp, issued := true }
        ?_ rfl rfl (.inl rfl) (.inl rfl) ?_ rfl
      · rw [← he.addr]
        rfl
      · exact he.set .waitingLocMemWriteResp true e.conflict (by simp)
          (fun _ => he.nearWrite (.inl hs))
  | @completeNone a lat hl =>
      obtain ⟨e, he, -⟩ := h.focus (a := a) rfl
      rw [hl] at he
      cases he
  | @complete a lat e now hl =>
      have he := h.entry hl
      refine h.leave hl ?_ ?_ ?_ (.inl rfl) <;> simp [he.addr]
  | promoteNone hw =>
      rw [hnil]
      exact h.close hw
  | promote now hw => exact h.promote now hw
  | @flag a i =>
      rw [hnil]
      rcases m.flagConflict_eq a i with hf | ⟨e, hl, hf⟩
      · rw [hf]
        exact h
      · have he := h.entry hl
        rw [hf]
        refine h.change hl { e with conflict := true } rfl rfl rfl (.inr rfl) (.inr rfl) ?_ ?_
        · exact he.set e.state e.issued true he.farRead he.nearWrite
        · have hrest := h.rest hl (by simp [Ctl.of, Ctl.ofCall, Ctl.focus])
          exact hrest
  | fill hks =>
      rw [hby hks]
      exact h.congr rfl rfl rfl
  | drained hwb =>
      rw [hnil]
      exact h.congr rfl rfl rfl
  | responses clk =>
      obtain ⟨due, rest, -, hr⟩ := Manager.releaseResponses_eq clk m.pendingResponses m
      rw [hnil, Manager.processPendingResponses, hr]
      exact h.congr rfl rfl rfl
  | samples =>
      rw [hnil]
      exact h.congr rfl rfl rfl

theorem OrbInv.enter {m m' : Manager} {op : Op} {ks : List Call}
    (hstep : FrontEnter m op m' ks) (h : OrbInv .calm m) : OrbInv (Ctl.of ks) m' := by
  cases hstep with
  | @queued _ w pkt now hop hc hroom =>
      obtain ⟨a, e, hl, -, hi⟩ := checkConflict_iff.mp hc
      refine { entry := h.entry, index := h.index, rest := h.rest, focus := h.focus,
               hole := h.hole, waits := ?_, orbSize := h.orbSize, crbSize := ?_ }
      · intro c hmem
        rcases List.mem_append.mp hmem with hmem | hmem
        · exact h.waits c hmem
        · obtain rfl := List.mem_singleton.mp hmem
          exact .inl ⟨a, e, hl, hi⟩
      · simp only [Manager.waitInCRB, Manager.emit, List.length_append, List.length_singleton]
        exact hroom
  | @admitted _ w pkt now hop hc hwb horb =>
      refine h.arrive (e := (m.emit (.accepted w pkt)).admittedEntry pkt w none now)
        (fun hf => h.free hc hf) rfl rfl ?_ ?_ (.inl ⟨rfl, horb⟩) ?_ ?_
      · exact Manager.admittedEntry_ok (m.emit (.accepted w pkt)) ..
      · exact Manager.initialChoice_drivable _
      · exact fun _ hx => hx
      · exact le_refl _
  | operate => exact h
  | _ => exact h.congr rfl rfl rfl

theorem OrbInv.empty {m : Manager} (horb : m.orb = ∅) (hcrb : m.crb = []) : OrbInv .calm m := by
  have hl : ∀ a, m.orb.lookup a = none := fun a => by rw [horb, AList.lookup_empty]
  have hs : m.orbSize = 0 := by
    unfold Manager.orbSize
    rw [horb]
    rfl
  refine ⟨?_, ?_, ?_, ?_, ?_, ?_, ?_, ?_⟩ <;> simp [hl, hs, hcrb, Ctl.focus]

theorem OrbInv.fresh {s : Sys} (h : s.Fresh) : OrbInv .calm s.dcm.core := .empty h.orb h.crb

open Worklist (ReachesIf)

variable {allow : Op → Prop} {ok : Worklist.Config Sys Call → Prop} {s₀ : Sys}
  {x : Worklist.Config Sys Call}

/-- The discipline holds throughout every run. -/
theorem orbInv_of_reaches (hroi : ∀ op, allow op → op.Roi) (h₀ : s₀.Fresh)
    (h : ReachesIf machine allow ok s₀ x) : CalmTail x.1 ∧ OrbInv (Ctl.of x.1) x.2.dcm.core := by
  refine front_invariant (I := fun _ _ => True)
    (P := fun K m => CalmTail K ∧ OrbInv (Ctl.of K) m) hroi h₀.live (fun _ _ => trivial)
    ⟨by simp [CalmTail], OrbInv.fresh h₀⟩ ?_ ?_ h
  · intro op m m' ks _ hstep _ hp
    exact ⟨hstep.calmTail, hp.2.enter hstep⟩
  · intro c K m m' ks hstep _ hp
    exact ⟨hstep.calmTail hp.1, hp.2.step hstep hp.1⟩

end DramCache
