import DramCache.DispatchOrder
import DramCache.TableTwo

/-!
# Near packets of one index

Requests of one index are admitted in turn, and each hands its near packets
over before the next is admitted, but for the fill of a read miss:
`return_data` completes the request first, and `completeRequest` promotes
the request that waits for the index before the fill is handed over.
`near_overtakes_fill` is such a run. The near packets of an index are
grouped by request, in the order of admission, in the runs where a fill is
never overtaken so (`near_grouped`): no request waits, or the one that does
asks far memory first and is not answered at once.

A *claim* is a request that may still hand near packets over: one in the
ORB, or one whose fill is pending.
-/

namespace DramCache

open Worklist (ReachesIf Reaches)

/-! ## Near packets in the log -/

/-- The request a near packet of an index is handed over for. -/
def Event.handedFor? (i : Nat) : Event → Option Nat
  | .handNear r j _ _ => if j = i then some r else none
  | _ => none

/-- The requests the near packets of an index were handed over for, in
order. -/
def handedFor (i : Nat) (log : List Event) : List Nat := log.filterMap (Event.handedFor? i)

@[simp] theorem handedFor_append (i : Nat) (l₁ l₂ : List Event) :
    handedFor i (l₁ ++ l₂) = handedFor i l₁ ++ handedFor i l₂ := List.filterMap_append ..

/-- The calls that hand near packets over. -/
def Call.handsNear : Call → Bool
  | .driveState _ | .backgroundFill .. => true
  | _ => false

theorem handedFor_emits {c : Call} {evs : List Event} (hc : c.handsNear = false)
    (h : ∀ ev ∈ evs, c.emits ev = true) (i : Nat) : handedFor i evs = [] := by
  refine List.filterMap_eq_nil_iff.mpr fun ev hev => ?_
  have hemits := h ev hev
  cases ev with
  | handNear => cases c <;> first | (cases hemits; done) | cases hc
  | _ => rfl

theorem handedFor_isAdmission {evs : List Event} (h : ∀ ev ∈ evs, ev.isAdmission = true)
    (i : Nat) : handedFor i evs = [] := by
  refine List.filterMap_eq_nil_iff.mpr fun ev hev => ?_
  have hadm := h ev hev
  cases ev with
  | handNear => cases hadm
  | _ => rfl

/-! ## Claims -/

/-- A request that may still hand near packets of an index over. -/
def Claim (K : List Call) (m : Manager) (r i : Nat) : Prop :=
  (∃ a e, m.orb.lookup a = some e ∧ e.requestId = r ∧ e.indexDC = i) ∨
    ∃ pkt, Call.backgroundFill r i pkt ∈ K

/-- The fill of a request is pending. -/
def Call.isFill : Call → Bool
  | .backgroundFill .. => true
  | _ => false

section Claims

variable {m m' : Manager} {op : Op} {c : Call} {K ks : List Call} {r i : Nat}

/-- An entry is an old one or newly admitted. -/
def Stems (m m' : Manager) (e' : OrbEntry) : Prop :=
  (∃ b e, m.orb.lookup b = some e ∧ e'.requestId = e.requestId ∧ e'.indexDC = e.indexDC) ∨
    e'.requestId = m.nextRequestId ∧ m'.nextRequestId = m.nextRequestId + 1

theorem FrontStep.stems (h : FrontStep m c m' ks) {a : Nat} {e' : OrbEntry}
    (he' : m'.orb.lookup a = some e') : Stems m m' e' := by
  have hsame : m'.orb = m.orb → Stems m m' e' := fun horb => .inl ⟨a, e', horb ▸ he', rfl, rfl⟩
  have hchange : ∀ {b k e f}, m.orb.lookup b = some e → f.requestId = e.requestId →
      f.indexDC = e.indexDC → m'.orb = m.orb.insert k f → Stems m m' e' := by
    intro b k e f hl hr hi horb
    rw [horb, Keyed.lookup_insert] at he'
    split at he'
    · cases he'
      exact .inl ⟨b, e, hl, hr, hi⟩
    · exact .inl ⟨a, e', he', rfl, rfl⟩
  have herase : ∀ {k}, m'.orb = m.orb.erase k → Stems m m' e' := by
    intro k horb
    rw [horb, Keyed.lookup_erase] at he'
    split at he'
    · cases he'
    · exact .inl ⟨a, e', he', rfl, rfl⟩
  cases h with
  | @nearEnter _ _ e st now hl =>
      refine hchange (k := e.pkt.address) (f := { e with state := st }) hl rfl rfl ?_
      simp [Manager.enterState, Manager.emit]
  | nearHit lat now => exact herase (by rw [Manager.retire_orb, Manager.nearAnswered_orb]; rfl)
  | farDone lat now => exact herase (by rw [Manager.retire_orb]; rfl)
  | complete now => exact herase (by rw [Manager.retire_orb])
  | @readNear _ e _ now hl =>
      exact hchange (f := { e with state := .waitingLocMemReadResp, issued := true }) hl rfl rfl rfl
  | @readFar _ e _ now hl =>
      exact hchange (f := { e with state := .waitingFarMemReadResp, issued := true }) hl rfl rfl rfl
  | @writeNear _ e now hl =>
      exact hchange (f := { e with state := .waitingLocMemWriteResp, issued := true }) hl rfl rfl rfl
  | promote now =>
      rw [Manager.admitEntry_orb, Keyed.lookup_insert] at he'
      split at he'
      · cases he'
        exact .inr ⟨rfl, Manager.admitEntry_nextRequestId ..⟩
      · exact .inl ⟨a, e', he', rfl, rfl⟩
  | @flag b i =>
      rcases m.flagConflict_eq b i with hf | ⟨e, hl, hf⟩
      · exact hsame (by rw [hf])
      · exact hchange (k := b) (f := { e with conflict := true }) hl rfl rfl (by rw [hf])
  | responses clk =>
      obtain ⟨due, rest, -, hr⟩ := Manager.releaseResponses_eq clk m.pendingResponses m
      exact hsame (by rw [Manager.processPendingResponses, hr])
  | _ => exact hsame rfl

theorem FrontEnter.stems (h : FrontEnter m op m' ks) {a : Nat} {e' : OrbEntry}
    (he' : m'.orb.lookup a = some e') : Stems m m' e' := by
  cases h with
  | admitted now =>
      rw [Manager.admitEntry_orb, Keyed.lookup_insert] at he'
      split at he'
      · cases he'
        exact .inr ⟨rfl, Manager.admitEntry_nextRequestId ..⟩
      · exact .inl ⟨a, e', he', rfl, rfl⟩
  | _ => exact .inl ⟨a, e', he', rfl, rfl⟩

/-- The fill a call leaves pending is the one of the entry it completes. -/
theorem FrontStep.fill_of (h : FrontStep m c m' ks) {pkt : Packet}
    (hmem : .backgroundFill r i pkt ∈ ks) : ∃ a e side p, c = .returnData side p ∧
      a = p.address ∧ m.orb.lookup a = some e ∧ e.state = .waitingFarMemReadResp ∧
      e.requestId = r ∧ e.indexDC = i ∧ m'.orb = m.orb.erase e.pkt.address ∧
      ks = [.promoteFromCRB i, .backgroundFill r i pkt] := by
  have hby : (∀ k ∈ ks, k.bystander) → False := fun hks => by cases hks _ hmem
  cases h with
  | @farDone side p e lat now hl hs =>
      have hfill : Call.backgroundFill r i pkt
          = .backgroundFill e.requestId e.indexDC (Manager.subRequest e .writeback now) := by
        simpa using hmem
      cases hfill
      exact ⟨p.address, e, side, p, rfl, rfl, hl, hs, rfl, rfl,
        by rw [Manager.retire_orb]; rfl, rfl⟩
  | quiet _ hks => exact (hby hks).elim
  | readNear _ _ _ hks => exact (hby hks).elim
  | readFar _ _ _ hks => exact (hby hks).elim
  | fill hks => exact (hby hks).elim
  | _ => simp at hmem

/-- A claim is an old one or newly admitted. -/
theorem FrontStep.claim (h : FrontStep m c m' ks) (hc : Claim (ks ++ K) m' r i) :
    Claim (c :: K) m r i ∨ r = m.nextRequestId ∧ m'.nextRequestId = m.nextRequestId + 1 := by
  rcases hc with ⟨a, e', he', rfl, rfl⟩ | ⟨pkt, hmem⟩
  · rcases h.stems he' with ⟨b, e, he, hr, hi⟩ | hnew
    · exact .inl (.inl ⟨b, e, he, hr.symm, hi.symm⟩)
    · exact .inr hnew
  · rcases List.mem_append.mp hmem with hmem | hmem
    · obtain ⟨a, e, -, -, -, -, he, -, hr, hi, -⟩ := h.fill_of hmem
      exact .inl (.inl ⟨a, e, he, hr, hi⟩)
    · exact .inl (.inr ⟨pkt, List.mem_cons_of_mem _ hmem⟩)

theorem FrontEnter.claim (h : FrontEnter m op m' ks) (hc : Claim ks m' r i) :
    Claim [] m r i ∨ r = m.nextRequestId ∧ m'.nextRequestId = m.nextRequestId + 1 := by
  rcases hc with ⟨a, e', he', rfl, rfl⟩ | ⟨pkt, hmem⟩
  · rcases h.stems he' with ⟨b, e, he, hr, hi⟩ | hnew
    · exact .inl (.inl ⟨b, e, he, hr.symm, hi.symm⟩)
    · exact .inr hnew
  · cases h <;> simp [Sys.operateCalls] at hmem

/-- What a call hands over for near memory: nothing, the packet of the entry
it drives, or a fill. -/
inductive HandsNear (m : Manager) : Call → Nat → Nat → Prop
  | drive {a : Nat} {e : OrbEntry} (hl : m.orb.lookup a = some e)
      (hs : e.state = .locMemRead ∨ e.state = .locMemWrite) :
      HandsNear m (.driveState a) e.requestId e.indexDC
  | fill (r i : Nat) (pkt : Packet) : HandsNear m (.backgroundFill r i pkt) r i

theorem FrontStep.handsNear (h : FrontStep m c m' ks) :
    (∀ i, handedFor i m'.log = handedFor i m.log) ∨
      ∃ r j, HandsNear m c r j ∧
        ∀ i, handedFor i m'.log = handedFor i m.log ++ if j = i then [r] else [] := by
  have hone : ∀ {r j pkt w}, m'.log = m.log ++ [.handNear r j pkt w] →
      ∀ i, handedFor i m'.log = handedFor i m.log ++ if j = i then [r] else [] := by
    intro r j pkt w hlog i
    rw [hlog, handedFor_append]
    congr 1
    unfold handedFor
    split
    · rename_i hj
      exact List.filterMap_cons_some (if_pos hj)
    · rename_i hj
      exact List.filterMap_cons_none (if_neg hj)
  cases hc : c.handsNear with
  | false =>
      obtain ⟨evs, hlog, hemits⟩ := h.emits
      refine .inl fun i => ?_
      rw [hlog, handedFor_append, handedFor_emits hc hemits, List.append_nil]
  | true =>
      cases h with
      | driveIdle => exact .inl fun _ => rfl
      | readNear now hl hs => exact .inr ⟨_, _, .drive hl (.inl hs), hone rfl⟩
      | writeNear now hl hs => exact .inr ⟨_, _, .drive hl (.inr hs), hone rfl⟩
      | readFar now hl hs =>
          refine .inl fun i => ?_
          rw [show ∀ e, (m.readFar e now).log = m.log ++ [_] from fun _ => rfl, handedFor_append]
          exact List.append_nil _
      | fill => exact .inr ⟨_, _, .fill .., hone rfl⟩
      | quiet hb => cases c <;> first | (cases hc; done) | cases hb
      | _ => cases hc

/-! ## Grouped by request -/

/-- The near packets of every index are grouped by request so far, no claim
is behind them, and a pending fill is the oldest claim of its index. -/
structure Grouped (K : List Call) (m : Manager) : Prop where
  sorted : ∀ i, (handedFor i m.log).Pairwise (· ≤ ·)
  below : ∀ i, ∀ r ∈ handedFor i m.log, r < m.nextRequestId
  ahead : ∀ {r i}, Claim K m r i → r < m.nextRequestId ∧ ∀ r' ∈ handedFor i m.log, r' ≤ r
  oldest : ∀ {r i pkt}, Call.backgroundFill r i pkt ∈ K → ∀ {r'}, Claim K m r' i → r ≤ r'

/-- Nothing is handed over, and every claim is an old one or new. -/
theorem Grouped.silent {K' : List Call} (h : Grouped K m)
    (hlog : ∀ i, handedFor i m'.log = handedFor i m.log) (hnext : m.nextRequestId ≤ m'.nextRequestId)
    (hclaim : ∀ {r i}, Claim K' m' r i →
      Claim K m r i ∨ r = m.nextRequestId ∧ m'.nextRequestId = m.nextRequestId + 1)
    (holdest : ∀ {r i pkt}, Call.backgroundFill r i pkt ∈ K' → ∀ {r'}, Claim K' m' r' i → r ≤ r') :
    Grouped K' m' where
  sorted i := by
    rw [hlog]
    exact h.sorted i
  below i r hr := by
    rw [hlog] at hr
    exact (h.below i r hr).trans_le hnext
  ahead {r i} hc := by
    rw [hlog]
    rcases hclaim hc with hold | ⟨rfl, hn⟩
    · exact ⟨(h.ahead hold).1.trans_le hnext, (h.ahead hold).2⟩
    · exact ⟨by omega, fun r' hr' => (h.below i r' hr').le⟩
  oldest := holdest

/-- A claim hands a packet over that no other claim of its index precedes. -/
theorem Grouped.hand {K' : List Call} {j : Nat} (h : Grouped K m) (hrj : Claim K m r j)
    (hlog : ∀ i, handedFor i m'.log = handedFor i m.log ++ if j = i then [r] else [])
    (hnext : m.nextRequestId ≤ m'.nextRequestId)
    (hclaim : ∀ {r i}, Claim K' m' r i →
      Claim K m r i ∨ r = m.nextRequestId ∧ m'.nextRequestId = m.nextRequestId + 1)
    (hfirst : ∀ {r'}, Claim K' m' r' j → r ≤ r')
    (holdest : ∀ {r i pkt}, Call.backgroundFill r i pkt ∈ K' → ∀ {r'}, Claim K' m' r' i → r ≤ r') :
    Grouped K' m' := by
  have hmem : ∀ {i r'}, r' ∈ handedFor i m'.log → r' ∈ handedFor i m.log ∨ j = i ∧ r' = r := by
    intro i r' hr'
    rw [hlog] at hr'
    split at hr'
    · rename_i hj
      exact (List.mem_append.mp hr').imp_right fun hr' => ⟨hj, List.mem_singleton.mp hr'⟩
    · exact .inl (by simpa using hr')
  refine ⟨fun i => ?_, fun i r' hr' => ?_, fun {r' i} hc => ?_, holdest⟩
  · rw [hlog]
    refine List.pairwise_append.mpr ⟨h.sorted i, by split <;> simp, fun r' hr' r'' hr'' => ?_⟩
    split at hr''
    · rename_i hj
      rw [List.mem_singleton.mp hr'']
      exact (h.ahead (hj ▸ hrj)).2 r' hr'
    · cases hr''
  · rcases hmem hr' with hr' | ⟨-, rfl⟩
    · exact (h.below i r' hr').trans_le hnext
    · exact (h.ahead hrj).1.trans_le hnext
  · have hold : r' < m'.nextRequestId ∧ ∀ r₀ ∈ handedFor i m.log, r₀ ≤ r' := by
      rcases hclaim hc with hold | ⟨rfl, hn⟩
      · exact ⟨(h.ahead hold).1.trans_le hnext, (h.ahead hold).2⟩
      · exact ⟨by omega, fun r₀ hr₀ => (h.below i r₀ hr₀).le⟩
    refine ⟨hold.1, fun r₀ hr₀ => ?_⟩
    rcases hmem hr₀ with hr₀ | ⟨rfl, rfl⟩
    · exact hold.2 r₀ hr₀
    · exact hfirst hc

/-- No fill of the index an entry hands a near packet over for is pending,
and no other fill when one is handed over. -/
def Unblocked (m : Manager) (c : Call) (K : List Call) : Prop :=
  ∀ r i, HandsNear m c r i → ∀ r' pkt, Call.backgroundFill r' i pkt ∉ K

/-- No fill is pending where an entry completes with one to come. -/
def Alone (c : Call) (ks K : List Call) : Prop :=
  (∃ k ∈ ks, k.isFill = true) → ∀ k ∈ c :: K, k.isFill = false

theorem Grouped.step (h : Grouped (c :: K) m) (hstep : FrontStep m c m' ks)
    (hinv : OrbInv (Ctl.of (c :: K)) m) (hfree : Unblocked m c K) (halone : Alone c ks K) :
    Grouped (ks ++ K) m' := by
  have hnext : m.nextRequestId ≤ m'.nextRequestId := by
    rcases hstep.numbers with ⟨-, hn⟩ | ⟨e, -, -, hn⟩ <;> omega
  have hclaim : ∀ {r i}, Claim (ks ++ K) m' r i →
      Claim (c :: K) m r i ∨ r = m.nextRequestId ∧ m'.nextRequestId = m.nextRequestId + 1 :=
    hstep.claim
  have holdest : ∀ {r i pkt}, Call.backgroundFill r i pkt ∈ ks ++ K →
      ∀ {r'}, Claim (ks ++ K) m' r' i → r ≤ r' := by
    intro r i pkt hmem r' hc
    rcases List.mem_append.mp hmem with hmem | hmem
    · obtain ⟨a, e, side, p, rfl, -, he, -, rfl, rfl, horb, hks⟩ := hstep.fill_of hmem
      have hnone := halone ⟨_, hmem, rfl⟩
      rcases hc with ⟨b, f, hf, hr, hi⟩ | ⟨pkt', hmem'⟩
      · -- the entry is gone, and it was the only one of its index
        rw [horb, Keyed.lookup_erase] at hf
        split at hf
        · cases hf
        · rename_i hb
          exact absurd ((hinv.index hf he hi).trans (hinv.entry he).addr.symm) hb
      · rcases List.mem_append.mp hmem' with hmem' | hmem'
        · rw [hks] at hmem'
          simp only [List.mem_cons, reduceCtorEq, Call.backgroundFill.injEq, false_or,
            List.not_mem_nil, or_false] at hmem'
          exact hmem'.1.ge
        · cases hnone _ (List.mem_cons_of_mem _ hmem')
    · have hmem := List.mem_cons_of_mem c hmem
      rcases hclaim hc with hold | ⟨rfl, -⟩
      · exact h.oldest hmem hold
      · exact (h.ahead (.inr ⟨pkt, hmem⟩)).1.le
  rcases hstep.handsNear with hlog | ⟨r, j, hhands, hlog⟩
  · exact h.silent hlog hnext hclaim holdest
  · have hrj : Claim (c :: K) m r j := by
      cases hhands with
      | drive hl => exact .inl ⟨_, _, hl, rfl, rfl⟩
      | fill r j pkt => exact .inr ⟨pkt, List.mem_cons_self ..⟩
    refine h.hand hrj hlog hnext hclaim (fun {r'} hc => ?_) holdest
    rcases hclaim hc with hold | ⟨rfl, -⟩
    · have hfree := hfree _ _ hhands
      cases hhands with
      | @drive a e hl =>
          rcases hold with ⟨b, f, hf, rfl, hi⟩ | ⟨pkt, hmem⟩
          · obtain rfl := hinv.index hf hl hi
            obtain rfl : f = e := Option.some.inj (hf.symm.trans hl)
            exact le_refl _
          · rcases List.mem_cons.mp hmem with hmem | hmem
            · cases hmem
            · exact absurd hmem (hfree _ _)
      | fill r j pkt => exact h.oldest (List.mem_cons_self ..) hold
    · exact (h.ahead hrj).1.le

theorem FrontEnter.no_fill (h : FrontEnter m op m' ks) : ∀ k ∈ ks, k.isFill = false := by
  cases h <;> simp [Sys.operateCalls, Call.isFill]

theorem Grouped.enter (h : Grouped [] m) (hstep : FrontEnter m op m' ks) : Grouped ks m' := by
  have hnext : m.nextRequestId ≤ m'.nextRequestId := by
    rcases hstep.numbers with ⟨-, hn⟩ | ⟨e, -, -, hn⟩ <;> omega
  refine h.silent (fun i => ?_) hnext hstep.claim fun {r i pkt} hmem => ?_
  · obtain ⟨evs, hlog, hevs⟩ := hstep.log_append
    rw [hlog, handedFor_append, handedFor_isAdmission hevs, List.append_nil]
  · cases hstep <;> simp [Sys.operateCalls] at hmem

end Claims

/-! ## The condition -/

namespace Sys

/-- Far memory would answer a read that is handed over now at once, from its
write queue. -/
def answersAtOnce (s : Sys) (pkt : Packet) : Bool :=
  decide (s.dcm.linkLatencyCycles = 0) && !s.noRoom .far false
    && (s.farMC.wq.checkDramQueue pkt).isSome

/-- No request waits for an index, or the first that does asks far memory
first and is not answered at once. -/
def promotesQuietly (s : Sys) (indexDC : Nat) : Bool :=
  match s.dcm.waiter? indexDC with
  | none => true
  | some c =>
      decide ((s.dcm.admittedEntry c.pkt c.isWriteReq (some c.arrivalCycle) 0).state = .farMemRead)
        && !s.answersAtOnce c.pkt

/-- The condition on a call: where the far response of a read miss completes
it, what `completeRequest` promotes hands nothing near over before the fill. -/
def fillsFirst (x : Worklist.Config Sys Call) : Bool :=
  match x.1 with
  | .returnData _ pkt :: _ =>
      match x.2.dcm.orb.lookup pkt.address with
      | some e => decide (e.state ≠ .waitingFarMemReadResp) || x.2.promotesQuietly e.indexDC
      | none => true
  | _ => true

variable {s s' : Sys} {c : Call} {K ks : List Call} {a i : Nat} {e : OrbEntry}

/-- A request is classified the same when it is taken out of the CRB. -/
theorem Manager.admittedEntry_takeWaiter (m : Manager) (i : Nat) (pkt : Packet) (w : Bool)
    (arr now : Nat) : (m.takeWaiter i).admittedEntry pkt w (some arr) now
      = m.admittedEntry pkt w (some arr) 0 := rfl

theorem onDcm_answersAtOnce {f : Manager → Manager} {pkt : Packet}
    (hlink : (f s.dcm).linkLatencyCycles = s.dcm.linkLatencyCycles) :
    (s.onDcm f).answersAtOnce pkt = s.answersAtOnce pkt := by
  unfold answersAtOnce
  rw [onDcm_dcm, hlink]
  rfl

theorem promotesQuietly_congr (hcrb : s'.dcm.crb = s.dcm.crb)
    (htags : s'.dcm.tagMetadataStore = s.dcm.tagMetadataStore)
    (hpolicy : s'.dcm.policy = s.dcm.policy)
    (hnext : s'.dcm.nextRequestId = s.dcm.nextRequestId)
    (hlink : s'.dcm.linkLatencyCycles = s.dcm.linkLatencyCycles) (hfar : s'.farMC = s.farMC)
    (i : Nat) : s'.promotesQuietly i = s.promotesQuietly i := by
  unfold promotesQuietly answersAtOnce noRoom Manager.waiter? Manager.admittedEntry
    Manager.newEntry mc
  rw [hcrb, htags, hpolicy, hnext, hlink, hfar]

/-- The far response of an entry leaves its index as quiet as it was. -/
theorem farDone_promotesQuietly (side : Side) {pkt : Packet}
    (hbyp : s.dcm.bypassOutstandingReads = 0) (hl : s.dcm.orb.lookup pkt.address = some e)
    (hs : e.state = .waitingFarMemReadResp) (i : Nat) :
    (s.returnData side pkt).1.promotesQuietly i = s.promotesQuietly i := by
  have hnone : pkt.address ∉ s.dcm.bypassOutstandingReads := by simp [hbyp]
  simp only [returnData, if_neg hnone, hl, hs, farResponse, completeEntry]
  refine promotesQuietly_congr (s := s) ?_ ?_ ?_ ?_ ?_ ?_ i <;>
    simp only [onDcm_dcm, Manager.retire_eq] <;> rfl

/-- A read that a controller does not answer at once calls nobody back. -/
theorem trySend_read_calls {side : Side} {pkt : Packet} (hwarm : numCpus ≤ s.allWarmupComplete)
    (h : s.noRoom side false = false → (s.mc side).wq.checkDramQueue pkt = none) :
    (s.trySend side pkt false).2.2 = [] := by
  have hpre : ¬ s.allWarmupComplete < numCpus := not_lt.mpr hwarm
  unfold trySend
  split
  · rfl
  · rename_i hroom
    have hwq : (s.mc side).wq.checkDramQueue (s.stamp pkt) = none :=
      h (Bool.eq_false_iff.mpr hroom)
    change (s.sendRead side (s.stamp pkt)).2.2 = []
    unfold sendRead controllerAddRq MemoryController.addRq
    rw [if_neg hpre, hwq]
    cases (s.mc side).rq.checkDramQueue (s.stamp pkt) with
    | some i =>
        dsimp only
        split <;> rfl
    | none =>
        dsimp only
        split
        · rename_i hins
          split at hins <;> cases hins
        · split <;> rfl

theorem driveState_calls (hwarm : numCpus ≤ s.allWarmupComplete)
    (hl : s.dcm.orb.lookup a = some e) (hs : e.state = .farMemRead)
    (hq : s.answersAtOnce e.pkt = false) : (s.driveState a).2 = [] := by
  unfold driveState
  simp only [hl, hs]
  generalize hs₁ : s.onDcm (·.readFar e (s.now e.pkt.cpu)) = s₁
  have hsend : s₁.dcm.linkLatencyCycles = 0 →
      (s₁.trySend .far (Manager.subRequest e .load (s.now e.pkt.cpu)) false).2.2 = [] := by
    subst hs₁
    intro hlink
    refine trySend_read_calls hwarm fun hroom => ?_
    have hlink : s.dcm.linkLatencyCycles = 0 := hlink
    have hroom : s.noRoom .far false = false := hroom
    simp only [answersAtOnce, hlink, hroom, decide_true, Bool.not_false, Bool.true_and,
      Option.isSome_eq_false_iff, Option.isNone_iff_eq_none] at hq
    exact hq
  unfold dispatchToFarGuaranteed dispatchToFar
  split
  · rename_i heq
    split at heq
    · rename_i hlink
      have hnil := hsend hlink
      rw [heq] at hnil
      exact hnil
    · cases heq
      rfl
  · rfl

/-- Of the calls that are pending at most one is a fill, and those in front of
it hand nothing near over. -/
inductive FillNext (s : Sys) : List Call → Prop
  | none {K : List Call} (hK : ∀ k ∈ K, k.isFill = false) : FillNext s K
  | fill {c : Call} {K : List Call} (hc : c.isFill = true) (hK : ∀ k ∈ K, k.isFill = false) :
      FillNext s (c :: K)
  | flag {c : Call} {K : List Call} {a i : Nat} (hc : c.isFill = true)
      (hK : ∀ k ∈ K, k.isFill = false) : FillNext s (.flagConflict a i :: c :: K)
  | drive {c : Call} {K : List Call} {a b i : Nat} {e : OrbEntry}
      (hl : s.dcm.orb.lookup a = some e) (hs : e.state = .farMemRead)
      (hq : s.answersAtOnce e.pkt = false) (hc : c.isFill = true)
      (hK : ∀ k ∈ K, k.isFill = false) :
      FillNext s (.driveState a :: .flagConflict b i :: c :: K)
  | promote {c : Call} {K : List Call} {i : Nat} (hq : s.promotesQuietly i = true)
      (hc : c.isFill = true) (hK : ∀ k ∈ K, k.isFill = false) :
      FillNext s (.promoteFromCRB i :: c :: K)

theorem FillNext.unblocked (h : FillNext s (c :: K)) : Unblocked s.dcm.core c K := by
  intro r i hhands r' pkt hmem
  have hnone : (∀ k ∈ K, k.isFill = false) → False := fun hK => by cases hK _ hmem
  cases h with
  | none hK => exact hnone fun k hk => hK k (List.mem_cons_of_mem _ hk)
  | fill _ hK => exact hnone hK
  | flag => cases hhands
  | drive hl hs =>
      generalize hm : s.dcm.core = m at hhands
      cases hhands with
      | drive hl' hs' =>
          subst hm
          obtain rfl := Option.some.inj (hl.symm.trans hl')
          rw [hs] at hs'
          rcases hs' with hs' | hs' <;> cases hs'
  | promote => cases hhands

theorem FillNext.alone (h : FillNext s (c :: K)) (hstep : FrontStep s.dcm.core c s'.dcm.core ks) :
    Alone c ks K := by
  rintro ⟨k, hk, hfill⟩
  cases k with
  | backgroundFill r i pkt =>
      obtain ⟨a, e, side, p, rfl, -⟩ := hstep.fill_of hk
      cases h with
      | none hK => exact hK
      | fill hc => cases hc
  | _ => cases hfill

theorem FillNext.step (h : FillNext s (c :: K)) (hfirst : fillsFirst (c :: K, s) = true)
    (hlive : s.Live) (he : s.exec c = .ok (s', ks)) : FillNext s' (ks ++ K) := by
  have hstep := exec_frontStep he
  cases h with
  | none hK =>
      have hK' : ∀ k ∈ K, k.isFill = false := fun k hk => hK k (List.mem_cons_of_mem _ hk)
      by_cases hks : ∃ k ∈ ks, k.isFill = true
      · obtain ⟨k, hk, hfill⟩ := hks
        cases k with
        | backgroundFill r i pkt =>
            obtain ⟨a, e, side, p, rfl, rfl, hl, hs, -, rfl, -, rfl⟩ := hstep.fill_of hk
            have hl : s.dcm.orb.lookup p.address = some e := hl
            have hq : s.promotesQuietly e.indexDC = true := by
              simpa [fillsFirst, hl, hs] using hfirst
            obtain ⟨rfl, -⟩ := ok_pair he
            refine .promote ?_ rfl hK'
            rw [farDone_promotesQuietly side hlive.noBypassReads hl hs]
            exact hq
        | _ => cases hfill
      · refine .none fun k hk => ?_
        rcases List.mem_append.mp hk with hk | hk
        · exact Bool.eq_false_iff.mpr fun hfill => hks ⟨k, hk, hfill⟩
        · exact hK' k hk
  | fill hc hK =>
      cases c with
      | backgroundFill r i pkt =>
          obtain ⟨rfl, rfl⟩ := ok_pair he
          refine .none ?_
          rw [show (s.backgroundFill r i pkt).2 = [] from dispatchToNear_write_calls ..]
          exact hK
      | _ => cases hc
  | flag hc hK =>
      obtain ⟨rfl, rfl⟩ := ok_pair he
      exact .fill hc hK
  | drive hl hs hq hc hK =>
      obtain ⟨rfl, rfl⟩ := ok_pair he
      rw [driveState_calls hlive.warm hl hs hq]
      exact .flag hc hK
  | @promote f K i hq hc hK =>
      obtain ⟨rfl, rfl⟩ := ok_pair he
      unfold promotesQuietly at hq
      unfold promoteFromCRB
      cases hw : s.dcm.waiter? i with
      | none =>
          exact .fill hc hK
      | some w =>
          rw [hw] at hq
          simp only [Bool.and_eq_true, decide_eq_true_eq, Bool.not_eq_true'] at hq
          refine .drive (e := (s.dcm.takeWaiter i).admittedEntry w.pkt w.isWriteReq
            (some w.arrivalCycle) (s.now w.pkt.cpu)) ?_ ?_ ?_ hc hK
          · exact AList.lookup_insert _
          · rw [Manager.admittedEntry_takeWaiter]
            exact hq.1
          · change ((s.onDcm (·.takeWaiter i)).onDcm (·.admitEntry w.pkt w.isWriteReq
              (some w.arrivalCycle) (s.now w.pkt.cpu))).answersAtOnce w.pkt = false
            rw [onDcm_answersAtOnce (Manager.admitEntry_linkLatencyCycles ..),
              onDcm_answersAtOnce rfl]
            exact hq.2

end Sys

/-! ## Runs -/

section Runs

variable {allow : Op → Prop} {s₀ : Sys} {x : Worklist.Config Sys Call}

/-- The near packets of an index are grouped by request, and no fill that is
pending has been overtaken. -/
theorem grouped_of_reaches (hroi : ∀ op, allow op → op.Roi) (h₀ : s₀.Fresh)
    (h : ReachesIf machine allow (fun x => Sys.fillsFirst x = true) s₀ x) :
    Grouped x.1 x.2.dcm.core ∧ Sys.FillNext x.2 x.1 := by
  have hempty : ∀ i, handedFor i s₀.dcm.log = [] := fun i =>
    List.filterMap_eq_nil_iff.mpr fun ev hev => by
      have hwarm := h₀.log ev hev
      cases ev <;> first | rfl | cases hwarm
  have hno : ∀ r i, ¬ Claim [] s₀.dcm.core r i := by
    rintro r i (⟨a, e, hl, -⟩ | ⟨pkt, hmem⟩)
    · have hl : s₀.dcm.orb.lookup a = some e := hl
      rw [h₀.orb, AList.lookup_empty] at hl
      cases hl
    · cases hmem
  refine ReachesIf.invariant
    (P := fun x => Grouped x.1 x.2.dcm.core ∧ Sys.FillNext x.2 x.1) ⟨⟨?_, ?_, ?_, ?_⟩, ?_⟩ ?_ ?_ h
  · intro i
    rw [show handedFor i s₀.dcm.core.log = [] from hempty i]
    exact List.Pairwise.nil
  · intro i r hr
    rw [show handedFor i s₀.dcm.core.log = [] from hempty i] at hr
    cases hr
  · exact fun hc => absurd hc (hno _ _)
  · intro r i pkt hmem
    cases hmem
  · exact .none (by simp)
  · intro op s ha _ hr hp
    have hstep := Sys.enter_frontEnter (live_of_reaches hroi h₀.live hr) (hroi op ha)
    exact ⟨hp.1.enter hstep, .none hstep.no_fill⟩
  · intro c K s s' ks hok hr hp he
    have hstep := Sys.exec_frontStep he
    have hinv := (orbInv_of_reaches hroi h₀ hr).2
    exact ⟨hp.1.step hstep hinv hp.2.unblocked (hp.2.alone hstep),
      hp.2.step hok (live_of_reaches hroi h₀.live hr) he⟩

/-- Requests are numbered in the order they are admitted. -/
theorem admitted_in_order (hroi : ∀ op, allow op → op.Roi) (h₀ : s₀.Fresh)
    {ok : Worklist.Config Sys Call → Prop} (h : ReachesIf machine allow ok s₀ x) :
    ((admitted x.2.dcm.log).map OrbEntry.requestId).Pairwise (· < ·) := by
  have hstep : ∀ {m m' : Manager}, m.Numbers m' →
      (∀ e ∈ admitted m.log, e.requestId < m.nextRequestId) ∧
        ((admitted m.log).map OrbEntry.requestId).Pairwise (· < ·) →
      (∀ e ∈ admitted m'.log, e.requestId < m'.nextRequestId) ∧
        ((admitted m'.log).map OrbEntry.requestId).Pairwise (· < ·) := by
    rintro m m' (⟨hadm, hnext⟩ | ⟨e, hadm, hid, hnext⟩) ⟨hbelow, hsorted⟩
    · rw [hadm, hnext]
      exact ⟨hbelow, hsorted⟩
    · rw [hadm, hnext, List.map_append, List.pairwise_append]
      refine ⟨fun f hf => ?_, hsorted, List.pairwise_singleton .., fun r hr r' hr' => ?_⟩
      · rcases List.mem_append.mp hf with hf | hf
        · exact Nat.lt_succ_of_lt (hbelow f hf)
        · rw [List.mem_singleton.mp hf, hid]
          exact Nat.lt_succ_self _
      · obtain ⟨f, hf, rfl⟩ := List.mem_map.mp hr
        rw [List.map_singleton, List.mem_singleton, hid] at hr'
        rw [hr']
        exact hbelow f hf
  have hnone : admitted s₀.dcm.log = [] := (warmup_silent h₀.log).2
  have hstart : (∀ e ∈ admitted s₀.dcm.core.log, e.requestId < s₀.dcm.core.nextRequestId) ∧
      ((admitted s₀.dcm.core.log).map OrbEntry.requestId).Pairwise (· < ·) := by
    rw [show admitted s₀.dcm.core.log = [] from hnone]
    exact ⟨by simp, List.Pairwise.nil⟩
  exact (front_invariant (I := fun _ _ => True)
    (P := fun _ m => (∀ e ∈ admitted m.log, e.requestId < m.nextRequestId) ∧
      ((admitted m.log).map OrbEntry.requestId).Pairwise (· < ·)) hroi h₀.live
    (fun _ _ => trivial) hstart (fun _ _ _ _ _ hs _ hp => hstep hs.numbers hp)
    (fun _ _ _ _ _ hs _ hp => hstep hs.numbers hp) h).2

/-- **The near packets of an index are handed over request by request.**
Requests are numbered in the order they are admitted, the near packets of
an index come in the order of their requests, and while a fill is pending
no younger request of its index has handed one over: in every run where the
far response of a read miss promotes no request that asks near memory, or is
answered, before the fill. -/
theorem near_grouped (hroi : ∀ op, allow op → op.Roi) (h₀ : s₀.Fresh)
    (h : ReachesIf machine allow (fun x => Sys.fillsFirst x = true) s₀ x) :
    ((admitted x.2.dcm.log).map OrbEntry.requestId).Pairwise (· < ·) ∧
      (∀ i, (handedFor i x.2.dcm.log).Pairwise (· ≤ ·)) ∧
      ∀ r i pkt, Call.backgroundFill r i pkt ∈ x.1 → ∀ r' ∈ handedFor i x.2.dcm.log, r' ≤ r := by
  have hg := (grouped_of_reaches hroi h₀ h).1
  exact ⟨admitted_in_order hroi h₀ h, hg.sorted,
    fun r i pkt hmem => (hg.ahead (.inr ⟨pkt, hmem⟩)).2⟩

end Runs

/-! ## Computed runs -/

/-- A clean read miss and another of the same index behind it: with `oracle`
both ask far memory first. -/
theorem near_grouped_oracle :
    ∃ s, ReachesIf machine Op.Roi (fun x => Sys.fillsFirst x = true) (.cold .oracle 0) ([], s) ∧
      handedFor 7 s.dcm.log = [1, 2] ∧
      ((admitted s.dcm.log).map OrbEntry.requestId).Pairwise (· < ·) ∧
      ∀ i, (handedFor i s.dcm.log).Pairwise (· ≤ ·) := by
  obtain ⟨s, hs, hlog⟩ := Option.map_eq_some_iff.mp (show (Worklist.driveIf machine
    (fun x => Sys.fillsFirst x = true) 60 [.addRq (.readOf 7), .addRq (.readOf (7 + dcmNumLines)),
      .operate, .operate] (.cold .oracle 0)).map (fun s => handedFor 7 s.dcm.log) = some [1, 2]
    by decide +kernel)
  have hr : ReachesIf machine Op.Roi (fun x => Sys.fillsFirst x = true) (.cold .oracle 0) ([], s) :=
    Worklist.driveIf_reaches (by simp [Op.Roi]) .refl hs
  obtain ⟨hadm, hsorted, -⟩ := near_grouped (fun _ h => h) (Sys.cold_fresh ..) hr
  exact ⟨s, hr, hlog, hadm, hsorted⟩

/-- A line is read, and written while it is fetched: the write reaches near
memory first, and then the fill with what was fetched. -/
theorem near_overtakes_fill :
    ∃ s, Reaches machine (fun op => op.Roi ∧ op.Nonzero ∧ op.SingleFlag) (.cold .oracle 0)
        ([], s) ∧
      admittedRequests s.dcm.log = [(false, .readOf 7), (true, .readOf 7)] ∧
      handed .near s.dcm.log = [(7, true), (7, true)] ∧
      ¬ (handedFor 7 s.dcm.log).Pairwise (· ≤ ·) := by
  obtain ⟨s, hs, hlog⟩ := Option.map_eq_some_iff.mp (show (Worklist.drive machine 60
    [.addRq (.readOf 7), .addWq (.readOf 7), .operate] (.cold .oracle 0)).map
      (fun s => (admittedRequests s.dcm.log, handed .near s.dcm.log, handedFor 7 s.dcm.log))
    = some ([(false, .readOf 7), (true, .readOf 7)], [(7, true), (7, true)], [2, 1])
    by decide +kernel)
  simp only [Prod.mk.injEq] at hlog
  refine ⟨s, Worklist.drive_reaches ?_ .refl hs, hlog.1, hlog.2.1, ?_⟩
  · simp [Op.Roi, Op.Nonzero, Op.SingleFlag, Op.request?, Packet.readOf, Packet.SingleFlag]
  · rw [hlog.2.2]
    decide

end DramCache
