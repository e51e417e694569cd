import Mathlib.Algebra.Ring.Int.Defs
import Mathlib.Algebra.BigOperators.Group.List.Basic
import DramCache.Modes

/-!
# Ledgers

An account of the front end. The manager's books (its counters, its log,
the lengths of the CRB and of WB) say how much of something is still to
come; the entries of the ORB owe it, each according to its state, and so
do the background fills under way. A ledger is fair when every piece of
the manager's code books what the entry it works for pays; then every run
keeps it. `Ledger.Fair.step` does the case analysis once for all ledgers.
-/

namespace DramCache

/-- What is still to come, and who owes it. -/
structure Ledger where
  balance : Manager → ℤ
  owes : OrbEntry → ℤ
  /-- What the background fill of a request still owes. -/
  fill : Nat → Packet → ℤ

namespace Ledger

variable (L : Ledger)

def due : Call → ℤ
  | .backgroundFill rid _ pkt => L.fill rid pkt
  | _ => 0

/-- The books agree with what is owed. -/
def Kept (K : List Call) (m : Manager) : Prop :=
  L.balance m = Keyed.total L.owes m.orb + (K.map L.due).sum

theorem due_of_bystander {c : Call} (h : c.bystander) : L.due c = 0 := by
  cases c <;> first | (cases h; done) | rfl

theorem dues_of_bystanders : ∀ {ks : List Call}, (∀ k ∈ ks, k.bystander) →
    (ks.map L.due).sum = 0
  | [], _ => rfl
  | k :: ks, h => by
      rw [List.map_cons, List.sum_cons, L.due_of_bystander (h k (List.mem_cons_self ..)),
        dues_of_bystanders fun k' hk' => h k' (List.mem_cons_of_mem _ hk')]
      rfl

/-- Each piece of the manager books what the entry it works for pays. -/
structure Fair : Prop where
  still : ∀ {m m' : Manager}, m'.stats = m.stats → m'.log = m.log → m'.crb = m.crb →
    m'.wb = m.wb → L.balance m' = L.balance m
  aside : ∀ {m m' : Manager}, Aside m m' → L.balance m' = L.balance m
  untracked : ∀ m side a, L.balance (m.emit (.untracked side a)) = L.balance m
  stray : ∀ m side e, L.balance (m.emit (.answered side e)) = L.balance m
  bypassed : ∀ m pkt now, L.balance (m.bypassAnswered pkt now) = L.balance m
  nearEnter : ∀ m side now {e : OrbEntry} {st : ReqState}, e.state = .waitingLocMemReadResp →
    (st = .locMemWrite ∧ e.isWriteReq = true
      ∨ st = .farMemRead ∧ e.isWriteReq = false ∧ e.isHit = false) →
    L.balance (((m.emit (.answered side e)).nearAnswered e now).enterState e st) + L.owes e
      = L.balance m + L.owes { e with state := st }
  nearHit : ∀ m side lat now {e : OrbEntry}, e.state = .waitingLocMemReadResp →
    e.isWriteReq = false → e.isHit = true →
    L.balance (((m.emit (.answered side e)).nearAnswered e now).retire e lat now) + L.owes e
      = L.balance m
  farDone : ∀ m side lat now {e : OrbEntry}, e.state = .waitingFarMemReadResp →
    e.isWriteReq = false → e.isHit = false →
    L.balance (((m.emit (.answered side e)).farAnswered).retire e lat now) + L.owes e
      = L.balance m + L.fill e.requestId (Manager.subRequest e .writeback now)
  readNear : ∀ m now {e : OrbEntry}, e.state = .locMemRead →
    L.balance (m.readNear e now) + L.owes e
      = L.balance m + L.owes { e with state := .waitingLocMemReadResp, issued := true }
  readFar : ∀ m now {e : OrbEntry}, e.state = .farMemRead → e.isWriteReq = false →
    e.isHit = false → L.balance (m.readFar e now) + L.owes e
      = L.balance m + L.owes { e with state := .waitingFarMemReadResp, issued := true }
  writeNear : ∀ m now {e : OrbEntry}, e.state = .locMemWrite → e.isWriteReq = true →
    L.balance (m.writeNear e now) + L.owes e
      = L.balance m + L.owes { e with state := .waitingLocMemWriteResp, issued := true }
  complete : ∀ m lat now {e : OrbEntry}, e.state = .waitingLocMemWriteResp →
    e.isWriteReq = true → L.balance (m.retire e lat now) + L.owes e = L.balance m
  promote : ∀ m i now {c : CrbEntry}, m.waiter? i = some c →
    L.balance ((m.takeWaiter i).admitEntry c.pkt c.isWriteReq (some c.arrivalCycle) now)
      = L.balance m
        + L.owes ((m.takeWaiter i).admittedEntry c.pkt c.isWriteReq (some c.arrivalCycle) now)
  flag : ∀ e : OrbEntry, L.owes { e with conflict := true } = L.owes e
  fillNear : ∀ m rid i pkt, L.balance (m.fillNear rid i pkt) + L.fill rid pkt = L.balance m
  drained : ∀ {m front rest}, m.wb = front :: rest → L.balance (m.drained front) = L.balance m
  responses : ∀ m clk, L.balance (m.processPendingResponses clk) = L.balance m
  samples : ∀ m, L.balance m.recordOccupancySamples = L.balance m
  refused : ∀ (m : Manager) crbFull wbFull orbFull, L.balance (m.count fun st =>
    { st with crbFullRejects := crbFull, wbFullRejects := wbFull, orbFullRejects := orbFull })
      = L.balance m
  queued : ∀ m pkt w now, L.balance (m.waitInCRB pkt w now) = L.balance m
  admitted : ∀ m pkt w now,
    L.balance ((m.emit (.accepted w pkt)).admitEntry pkt w none now)
      = L.balance m + L.owes ((m.emit (.accepted w pkt)).admittedEntry pkt w none now)

namespace Kept

variable {L} {K ks : List Call} {c : Call} {m m' : Manager} {a : Nat} {e f : OrbEntry}

/-- The ORB stands still. -/
theorem still (h : L.Kept (c :: K) m) (horb : m'.orb = m.orb)
    (hpay : L.balance m' + L.due c = L.balance m + (ks.map L.due).sum) :
    L.Kept (ks ++ K) m' := by
  unfold Kept at *
  rw [List.map_cons, List.sum_cons] at h
  rw [horb, List.map_append, List.sum_append]
  omega

/-- An entry changes in place. -/
theorem change (h : L.Kept (c :: K) m) (he : m.orb.lookup a = some e)
    (horb : m'.orb = m.orb.insert a f)
    (hpay : L.balance m' + L.owes e + L.due c
      = L.balance m + L.owes f + (ks.map L.due).sum) : L.Kept (ks ++ K) m' := by
  have htotal := Keyed.total_insert L.owes he f
  unfold Kept at *
  rw [List.map_cons, List.sum_cons] at h
  rw [horb, List.map_append, List.sum_append]
  omega

/-- An entry leaves. -/
theorem leave (h : L.Kept (c :: K) m) (he : m.orb.lookup a = some e)
    (horb : m'.orb = m.orb.erase a)
    (hpay : L.balance m' + L.owes e + L.due c = L.balance m + (ks.map L.due).sum) :
    L.Kept (ks ++ K) m' := by
  have htotal := Keyed.total_erase L.owes he
  unfold Kept at *
  rw [List.map_cons, List.sum_cons] at h
  rw [horb, List.map_append, List.sum_append]
  omega

/-- A request is admitted. -/
theorem arrive (h : L.Kept K m) (hl : m.orb.lookup a = none)
    (horb : m'.orb = m.orb.insert a e) (hpay : L.balance m' = L.balance m + L.owes e)
    (hks : (ks.map L.due).sum = (K.map L.due).sum) : L.Kept ks m' := by
  have htotal := Keyed.total_insert_new L.owes hl e
  unfold Kept at *
  rw [horb]
  omega

end Kept

variable {L} {K ks : List Call} {c : Call} {m m' : Manager} {op : Op}

/-- **Every call keeps a fair ledger.** -/
theorem Fair.step (hL : L.Fair) (hstep : FrontStep m c m' ks) (hinv : OrbInv (Ctl.of (c :: K)) m)
    (h : L.Kept (c :: K) m) : L.Kept (ks ++ K) m' := by
  cases hstep with
  | quiet hc hks =>
      refine h.still rfl ?_
      rw [L.due_of_bystander hc, L.dues_of_bystanders hks]
  | @bypassed side pkt now _ => exact h.still rfl (by simp [due, hL.bypassed])
  | untracked _ => exact h.still rfl (by simp [due, hL.untracked])
  | stray _ _ => exact h.still rfl (by simp [due, hL.stray])
  | @nearEnter side pkt e st now hl hs hst =>
      have he := hinv.entry hl
      refine h.change (f := { e with state := st }) hl ?_ ?_
      · simp [Manager.enterState, Manager.emit, he.addr]
      · simpa [due] using hL.nearEnter m side now hs hst
  | @nearHit side pkt e lat now hl hs hw hh =>
      have he := hinv.entry hl
      refine h.leave hl (by simp [Manager.emit, he.addr]) ?_
      simpa [due] using hL.nearHit m side lat now hs hw hh
  | @farDone side pkt e lat now hl hs =>
      have he := hinv.entry hl
      obtain ⟨hw, hh⟩ := he.farRead (.inr hs)
      refine h.leave hl ?_ ?_
      · simp [Manager.emit, Manager.farAnswered, Manager.count, he.addr]
      · simpa [due] using hL.farDone m side lat now hs hw hh
  | driveIdle _ => exact h.still rfl (by simp [due])
  | @readNear a e ks now hl hs hks =>
      have he := hinv.entry hl
      refine h.change (f := { e with state := .waitingLocMemReadResp, issued := true }) hl
        (by rw [← he.addr]; rfl) ?_
      rw [L.dues_of_bystanders hks]
      simpa [due] using hL.readNear m now hs
  | @readFar a e ks now hl hs hks =>
      have he := hinv.entry hl
      obtain ⟨hw, hh⟩ := he.farRead (.inl hs)
      refine h.change (f := { e with state := .waitingFarMemReadResp, issued := true }) hl
        (by rw [← he.addr]; rfl) ?_
      rw [L.dues_of_bystanders hks]
      simpa [due] using hL.readFar m now hs hw hh
  | @writeNear a e now hl hs =>
      have he := hinv.entry hl
      refine h.change (f := { e with state := .waitingLocMemWriteResp, issued := true }) hl
        (by rw [← he.addr]; rfl) ?_
      simpa [due] using hL.writeNear m now hs (he.nearWrite (.inl hs))
  | completeNone _ => exact h.still rfl (by simp [due])
  | @complete a lat e now hl =>
      have he := hinv.entry hl
      obtain ⟨e', hl', hs⟩ := hinv.focus (a := a) rfl
      obtain rfl : e = e' := by simpa [hl] using hl'
      refine h.leave hl (by simp [he.addr]) ?_
      simpa [due] using hL.complete m lat now hs (he.nearWrite (.inr hs))
  | promoteNone _ => exact h.still rfl (by simp [due])
  | @promote i w now hw =>
      refine h.arrive (hinv.waiter_none hw) rfl (hL.promote m i now hw) ?_
      simp [due]
  | @flag a i =>
      rcases m.flagConflict_eq a i with hf | ⟨e, hl, hf⟩ <;> rw [hf]
      · exact h.still rfl (by simp [due])
      · refine h.change (f := { e with conflict := true }) hl rfl ?_
        have hbal : L.balance { m with orb := m.orb.insert a { e with conflict := true } }
            = L.balance m := hL.still rfl rfl rfl rfl
        rw [hL.flag, hbal]
        simp [due]
  | @fill rid i pkt ks hks =>
      refine h.still rfl ?_
      rw [L.dues_of_bystanders hks]
      simpa [due] using hL.fillNear m rid i pkt
  | drained hwb => exact h.still rfl (by simp [due, hL.drained hwb])
  | responses clk =>
      refine h.still ?_ (by simp [due, hL.responses])
      obtain ⟨due, rest, -, hr⟩ := Manager.releaseResponses_eq clk m.pendingResponses m
      rw [Manager.processPendingResponses, hr]
  | samples => exact h.still rfl (by simp [due, hL.samples])

/-- Entering an operation keeps a fair ledger, unless it resets the
counters. -/
theorem Fair.enter (hL : L.Fair) (hstep : FrontEnter m op m' ks) (hop : op ≠ .resetROIStats)
    (hinv : OrbInv .calm m) (h : L.Kept [] m) : L.Kept ks m' := by
  have hstill : ∀ {m' : Manager}, m'.orb = m.orb → L.balance m' = L.balance m →
      L.Kept [] m' := by
    intro m' horb hbal
    unfold Kept at *
    rw [horb, hbal]
    exact h
  cases hstep with
  | refused hop crbFull wbFull orbFull => exact hstill rfl (hL.refused ..)
  | queued now hop hc hroom => exact hstill rfl (hL.queued ..)
  | admitted now hop hc hwb horb =>
      exact h.arrive (hinv.lookup_none hc) rfl (hL.admitted ..) (by simp [due])
  | operate => exact h
  | configured => exact hstill rfl (hL.still rfl rfl rfl rfl)
  | statsReset => exact absurd rfl hop

/-- An operation that stays aside keeps a fair ledger. -/
theorem Fair.aside_kept (hL : L.Fair) (ha : Aside m m') (hks : ∀ k ∈ ks, k.bystander)
    (h : L.Kept [] m) : L.Kept ks m' := by
  unfold Kept at *
  rw [L.dues_of_bystanders hks, hL.aside ha, ha.orb, h]
  simp

end Ledger

end DramCache
