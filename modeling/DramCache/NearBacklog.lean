import DramCache.Backlog
import DramCache.HeadOfLine
import DramCache.Pairing
import DramCache.TableTwo

/-!
# The near backlog

A request that has handed its near write to `dispatchToNear` is done,
whether or not nearMC took the write, so the ORB and the CRB do not count
what pends near. But tag checks and near writes pend in one queue, and a
request that makes its tag check first is still in the ORB while a write
before it keeps the check from nearMC. In the terms of `HeadOfLine` the
pending queue is tame, but for two things: a write that skips the tag
check, and an answer more than there were checks. A read for both ports
comes back twice from the write queue, and the second callback may find a
request whose own check still pends.
-/

namespace DramCache

open HeadOfLine (Account Tame asks followUps)
open Worklist (ReachesIf Reaches Runs)

/-! ## The account -/

/-- An entry that waits for the answer to its tag check. -/
def OrbEntry.checking (e : OrbEntry) : Nat := if e.state = .waitingLocMemReadResp then 1 else 0

/-- An entry past its tag check with its near write to come. -/
def OrbEntry.staged (e : OrbEntry) : Nat :=
  if e.state = .locMemWrite ∨ e.state = .farMemRead ∨ e.state = .waitingFarMemReadResp then 1
  else 0

theorem OrbEntry.checking_staged_le (e : OrbEntry) : e.checking + e.staged ≤ 1 := by
  unfold checking staged
  cases e.state <;> simp

/-- The background fills under way. -/
def Call.fills : Call → Nat
  | .backgroundFill .. => 1
  | _ => 0

def fills (K : List Call) : Nat := (K.map Call.fills).sum

/-- Far memory answers an entry that waits for near memory. -/
def Event.crossed : Event → Nat
  | .answered .far e => e.checking
  | _ => 0

/-- A near read that the write queue answers on both ports. -/
def Send.doubled (x : Send) : Nat :=
  match x.side, x.outcome with
  | .near, .forwarded _ => (!x.isWrite && x.pkt.instruction && x.pkt.isData).toNat
  | _, _ => 0

/-- How often far memory answered an entry that waited for near memory. -/
def crossed (log : List Event) : Nat := (log.map Event.crossed).sum

/-- The requests admitted without a tag check. -/
def skipped (log : List Event) : Nat := (admitted log).countP OrbEntry.skipsTagCheck

/-- The near reads called back twice. -/
def doubled (sends : List Send) : Nat := (sends.map Send.doubled).sum

/-- The callbacks that no read of an entry waiting for near memory
accounts for. -/
def Manager.surplus (m : Manager) : Nat := doubled m.sends + crossed m.log

@[simp] theorem fills_nil : fills [] = 0 := rfl

@[simp] theorem fills_cons (c : Call) (K : List Call) : fills (c :: K) = c.fills + fills K := by
  simp [fills]

@[simp] theorem fills_append (K L : List Call) : fills (K ++ L) = fills K + fills L := by
  simp [fills]

@[simp] theorem crossed_append (l₁ l₂ : List Event) :
    crossed (l₁ ++ l₂) = crossed l₁ + crossed l₂ := by simp [crossed]

@[simp] theorem skipped_append (l₁ l₂ : List Event) :
    skipped (l₁ ++ l₂) = skipped l₁ + skipped l₂ := by
  rw [skipped, admitted_append, List.countP_append, skipped, skipped]

theorem skipped_singleton (e : OrbEntry) : skipped [.admitted e] = e.skipsTagCheck.toNat := by
  cases h : e.skipsTagCheck <;> simp [skipped, admitted, Event.admitted?, h]

@[simp] theorem doubled_append (l₁ l₂ : List Send) :
    doubled (l₁ ++ l₂) = doubled l₁ + doubled l₂ := by simp [doubled]

theorem fills_of_bystanders {K : List Call} (h : ∀ k ∈ K, k.bystander) : fills K = 0 :=
  List.sum_eq_zero fun n hn => by
    obtain ⟨k, hk, rfl⟩ := List.mem_map.mp hn
    have := h k hk
    cases k <;> first | rfl | cases this

/-! ## What a call does to the ORB's side of the account -/

/-- An event that moves nothing in the account. -/
def Event.idle : Event → Bool
  | .handNear .. | .answered .. => false
  | _ => true

theorem idle_account {evs : List Event} (h : ∀ ev ∈ evs, ev.idle) :
    handed .near evs = [] ∧ crossed evs = 0 := by
  refine ⟨Sys.handed_silent fun ev hev => ?_, List.sum_eq_zero fun n hn => ?_⟩
  · have := h ev hev
    cases ev <;> first | rfl | cases this
  · obtain ⟨ev, hev, rfl⟩ := List.mem_map.mp hn
    have := h ev hev
    cases ev <;> first | rfl | cases this

theorem upcalls_idle {why : Upcall} {pkt : Packet} {now : Nat} :
    ∀ ev ∈ Manager.upcalls why pkt now, ev.idle := by
  intro ev hev
  obtain ⟨port, rfl⟩ := Manager.mem_upcalls hev
  rfl

theorem victimEvents_idle {e : OrbEntry} : ∀ ev ∈ Manager.victimEvents e, ev.idle := by
  intro ev hev
  rw [Manager.mem_victimEvents hev]
  rfl

theorem retired_idle {e : OrbEntry} {lat now : Nat} :
    ∀ ev ∈ Event.retired e now :: Manager.respondNow e lat now, ev.idle := by
  intro ev hev
  rcases List.mem_cons.mp hev with rfl | hev
  · rfl
  · obtain ⟨port, rfl⟩ := Manager.mem_respondNow hev
    rfl

namespace Manager

/-- The tag checks waited for. -/
def checking (m : Manager) : Nat := Keyed.total OrbEntry.checking m.orb

/-- The near writes to come. -/
def staged (m : Manager) : Nat := Keyed.total OrbEntry.staged m.orb

theorem checking_staged_le (m : Manager) : m.checking + m.staged ≤ m.orbSize := by
  have hcard : m.orbSize = Multiset.card (Keyed.values m.orb) := (Keyed.card_values m.orb).symm
  rw [hcard, checking, staged, Keyed.total, Keyed.total]
  induction Keyed.values m.orb using Multiset.induction_on with
  | empty => exact le_refl _
  | cons e V ih =>
      have := e.checking_staged_le
      simp only [Multiset.map_cons, Multiset.sum_cons, Multiset.card_cons]
      omega

end Manager

/-- What happens to the ORB's side of the account in a step that logs `evs`,
leaves `ks` and was called for `paid` fills and `replies` near answers. -/
structure Flow (paid replies : Nat) (m m' : Manager) (ks : List Call) (evs : List Event) :
    Prop where
  log : m'.log = m.log ++ evs
  size : m'.orbSize + m'.crb.length + fills ks
    ≤ m.orbSize + m.crb.length + paid + (accepted evs).length
  checking : m.checking + asks Prod.snd (handed .near evs)
    ≤ m'.checking + replies + crossed evs
  staged : m'.staged + fills ks + followUps Prod.snd (handed .near evs)
    ≤ m.staged + paid + replies + crossed evs + skipped evs

namespace Flow

open Keyed (values)

variable {paid replies : Nat} {m m' : Manager} {ks : List Call} {evs : List Event} {a : Nat}
  {e f : OrbEntry}

/-- Some entries are traded for others. -/
theorem trade {A B R : Multiset OrbEntry} (hlog : m'.log = m.log ++ evs)
    (hA : values m.orb = A + R) (hB : values m'.orb = B + R)
    (hsize : Multiset.card B + m'.crb.length + fills ks
      ≤ Multiset.card A + m.crb.length + paid + (accepted evs).length)
    (hchecking : (A.map OrbEntry.checking).sum + asks Prod.snd (handed .near evs)
      ≤ (B.map OrbEntry.checking).sum + replies + crossed evs)
    (hstaged : (B.map OrbEntry.staged).sum + fills ks + followUps Prod.snd (handed .near evs)
      ≤ (A.map OrbEntry.staged).sum + paid + replies + crossed evs + skipped evs) :
    Flow paid replies m m' ks evs := by
  have hcard : ∀ n : Manager, n.orbSize = Multiset.card (values n.orb) := fun n =>
    (Keyed.card_values n.orb).symm
  refine ⟨hlog, ?_, ?_, ?_⟩
  · rw [hcard, hcard, hA, hB, Multiset.card_add, Multiset.card_add]
    omega
  · rw [Manager.checking, Manager.checking, Keyed.total, Keyed.total, hA, hB, Multiset.map_add,
      Multiset.map_add, Multiset.sum_add, Multiset.sum_add]
    omega
  · rw [Manager.staged, Manager.staged, Keyed.total, Keyed.total, hA, hB, Multiset.map_add,
      Multiset.map_add, Multiset.sum_add, Multiset.sum_add]
    omega

/-- The ORB stands still. -/
theorem still (hlog : m'.log = m.log ++ evs) (horb : m'.orb = m.orb)
    (hcrb : m'.crb.length = m.crb.length) (hasks : asks Prod.snd (handed .near evs) = 0)
    (hfills : fills ks + followUps Prod.snd (handed .near evs) ≤ paid) :
    Flow paid replies m m' ks evs := by
  refine trade (A := 0) (B := 0) (R := values m.orb) hlog (zero_add _).symm
    (by rw [horb, zero_add]) ?_ ?_ ?_
  · omega
  · rw [hasks]
    exact Nat.le_add_right_of_le (Nat.le_add_right _ _)
  · omega

/-- Nothing that counts is logged. -/
theorem quiet (hlog : m'.log = m.log ++ evs) (hevs : ∀ ev ∈ evs, ev.idle) (horb : m'.orb = m.orb)
    (hcrb : m'.crb.length = m.crb.length) (hks : fills ks ≤ paid) :
    Flow paid replies m m' ks evs :=
  .still hlog horb hcrb (by rw [(idle_account hevs).1]; rfl) (by rwa [(idle_account hevs).1])

/-- An entry changes in place. -/
theorem change (hlog : m'.log = m.log ++ evs) (he : m.orb.lookup a = some e)
    (horb : m'.orb = m.orb.insert a f) (hcrb : m'.crb = m.crb) (hfills : fills ks = 0)
    (hchecking : e.checking + asks Prod.snd (handed .near evs)
      ≤ f.checking + replies + crossed evs)
    (hstaged : f.staged + followUps Prod.snd (handed .near evs)
      ≤ e.staged + paid + replies + crossed evs) : Flow paid replies m m' ks evs := by
  refine trade (A := {e}) (B := {f}) (R := values (m.orb.erase a)) hlog
    (by rw [Keyed.values_erase he, Multiset.singleton_add])
    (by rw [horb, Keyed.values_insert, Multiset.singleton_add]) ?_ ?_ ?_
  · rw [hcrb, hfills]
    simp
    omega
  · simpa using hchecking
  · rw [hfills]
    simp only [Multiset.map_singleton, Multiset.sum_singleton]
    omega

/-- An entry leaves. -/
theorem leave (hlog : m'.log = m.log ++ evs) (he : m.orb.lookup a = some e)
    (horb : m'.orb = m.orb.erase a) (hcrb : m'.crb = m.crb) (hasks : handed .near evs = [])
    (hchecking : e.checking ≤ replies + crossed evs) (hone : fills ks ≤ 1)
    (hfills : fills ks ≤ e.staged) : Flow paid replies m m' ks evs := by
  refine trade (A := {e}) (B := 0) (R := values (m.orb.erase a)) hlog
    (by rw [Keyed.values_erase he, Multiset.singleton_add])
    (by rw [horb, zero_add]) ?_ ?_ ?_
  · rw [hcrb]
    simp
    omega
  · rw [hasks]
    simpa using hchecking
  · rw [hasks]
    simp
    omega

/-- An entry arrives. -/
theorem arrive (hlog : m'.log = m.log ++ evs) (hl : m.orb.lookup a = none)
    (horb : m'.orb = m.orb.insert a e)
    (hroom : 1 + m'.crb.length ≤ m.crb.length + (accepted evs).length) (hfills : fills ks = 0)
    (hasks : handed .near evs = []) (hstaged : e.staged ≤ skipped evs) :
    Flow paid replies m m' ks evs := by
  refine trade (A := 0) (B := {e}) (R := values m.orb) hlog (zero_add _).symm
    (by rw [horb, Keyed.values_insert_new hl, Multiset.singleton_add]) ?_ ?_ ?_
  · rw [hfills]
    simp
    omega
  · rw [hasks]
    simp
  · rw [hasks, hfills]
    simp
    omega

end Flow

/-- A request is admitted past its tag check only where the policy skips
it. -/
theorem admittedEntry_staged (m : Manager) (pkt : Packet) (w : Bool) (arr : Option Nat)
    (now : Nat) : (m.admittedEntry pkt w arr now).staged
      ≤ skipped [.admitted (m.admittedEntry pkt w arr now)] := by
  have hstate : decide ((m.admittedEntry pkt w arr now).state = .locMemRead)
      = !(m.admittedEntry pkt w arr now).skipsTagCheck :=
    Manager.initialChoice_locMemRead (m.admittedEntry pkt w arr now)
  rw [skipped_singleton]
  have hle := (m.admittedEntry pkt w arr now).checking_staged_le
  cases hskip : (m.admittedEntry pkt w arr now).skipsTagCheck with
  | true => exact le_trans (Nat.le_add_left _ _) hle
  | false =>
      rw [hskip] at hstate
      have hread : (m.admittedEntry pkt w arr now).state = .locMemRead := by simpa using hstate
      simp [OrbEntry.staged, hread]

section Front

variable {m m' : Manager} {c : Call} {ks K : List Call}

theorem length_takeWaiter {i : Nat} {w : CrbEntry} (h : m.waiter? i = some w) :
    1 + (m.takeWaiter i).crb.length = m.crb.length := by
  obtain ⟨hmem, hi⟩ := waiter?_spec h
  have hpos := List.length_pos_of_mem hmem
  have hlen : (m.takeWaiter i).crb.length = m.crb.length - 1 :=
    List.length_eraseP_of_mem hmem (by simpa using hi)
  omega

/-- An answer, and nothing else that counts. -/
theorem answered_account (side : Side) (e : OrbEntry) {l : List Event}
    (hl : ∀ ev ∈ l, ev.idle) :
    handed .near (.answered side e :: l) = [] ∧
      crossed (.answered side e :: l) = (Event.answered side e).crossed := by
  obtain ⟨hhanded, hcrossed⟩ := idle_account hl
  refine ⟨hhanded, ?_⟩
  rw [← List.singleton_append, crossed_append, hcrossed]
  rfl

/-- The answer of an entry that waits for near memory comes from there, or
crosses. -/
theorem reply_or_crossed (side : Side) (pkt : Packet) {e : OrbEntry}
    (hs : e.state = .waitingLocMemReadResp) :
    Multiset.card ((Call.returnData side pkt).answers .near)
      + (Event.answered side e).crossed = 1 := by
  cases side <;> simp [Call.answers, Event.crossed, OrbEntry.checking, hs]

/-! ### The callbacks that meet an entry -/

section Answers

variable {side : Side} {pkt : Packet} {e : OrbEntry} (hl : m.orb.lookup pkt.address = some e)
  (haddr : e.pkt.address = pkt.address)

include hl haddr

theorem nearEnter_flow (st : ReqState) (now : Nat) (hs : e.state = .waitingLocMemReadResp) :
    Flow 0 (Multiset.card ((Call.returnData side pkt).answers .near)) m
      (((m.emit (.answered side e)).nearAnswered e now).enterState e st)
      [.driveState e.pkt.address] (.answered side e :: Manager.victimEvents e) := by
  obtain ⟨hhanded, hcrossed⟩ := answered_account side e victimEvents_idle
  have hreply := reply_or_crossed side pkt hs
  have hlog : (((m.emit (.answered side e)).nearAnswered e now).enterState e st).log
      = m.log ++ .answered side e :: Manager.victimEvents e := by
    simp [Manager.enterState, Manager.emit]
  refine .change (f := { e with state := st }) hlog hl ?_ ?_ rfl ?_ ?_
  · simp [Manager.enterState, Manager.emit, haddr]
  · simp [Manager.enterState, Manager.emit]
  · rw [hhanded, hcrossed, HeadOfLine.asks_nil]
    have hle := e.checking_staged_le
    omega
  · rw [hhanded, hcrossed, HeadOfLine.followUps_nil]
    have hle := OrbEntry.checking_staged_le { e with state := st }
    omega

theorem nearHit_flow (lat now : Nat) (hs : e.state = .waitingLocMemReadResp) :
    Flow 0 (Multiset.card ((Call.returnData side pkt).answers .near)) m
      (((m.emit (.answered side e)).nearAnswered e now).retire e lat now)
      [.promoteFromCRB e.indexDC] (.answered side e
        :: (Manager.victimEvents e ++ .retired e now :: Manager.respondNow e lat now)) := by
  obtain ⟨hhanded, hcrossed⟩ := answered_account side e
    (l := Manager.victimEvents e ++ .retired e now :: Manager.respondNow e lat now)
    fun ev hev => (List.mem_append.mp hev).elim (victimEvents_idle ev) (retired_idle ev)
  have hreply := reply_or_crossed side pkt hs
  refine .leave ?_ hl ?_ ?_ hhanded ?_ (Nat.zero_le _) (Nat.zero_le _)
  · simp [Manager.emit]
  · simp [Manager.emit, haddr]
  · simp [Manager.emit]
  · rw [hcrossed]
    have hle := e.checking_staged_le
    omega

/-- The fill it leaves is the near write the entry had to come. -/
theorem farDone_flow (lat now : Nat) (hs : e.state = .waitingFarMemReadResp) :
    Flow 0 (Multiset.card ((Call.returnData side pkt).answers .near)) m
      (((m.emit (.answered side e)).farAnswered).retire e lat now)
      [.promoteFromCRB e.indexDC,
        .backgroundFill e.requestId e.indexDC (Manager.subRequest e .writeback now)]
      (.answered side e :: .retired e now :: Manager.respondNow e lat now) := by
  obtain ⟨hhanded, -⟩ := answered_account side e
    (l := .retired e now :: Manager.respondNow e lat now) retired_idle
  refine .leave ?_ hl ?_ ?_ hhanded ?_ ?_ ?_
  · simp [Manager.emit, Manager.farAnswered, Manager.count]
  · simp [Manager.emit, Manager.farAnswered, Manager.count, haddr]
  · simp [Manager.emit, Manager.farAnswered, Manager.count]
  · simp [OrbEntry.checking, hs]
  · simp [Call.fills]
  · simp [Call.fills, OrbEntry.staged, hs]

end Answers

/-- `driveState` hands over a packet, and the entry goes where the packet
leaves it. -/
theorem issued_flow {a : Nat} {e : OrbEntry} {st : ReqState} {ev : Event} {replies : Nat}
    (hl : m.orb.lookup a = some e) (haddr : e.pkt.address = a) (hlog : m'.log = m.log ++ [ev])
    (horb : m'.orb = m.orb.insert e.pkt.address { e with state := st, issued := true })
    (hcrb : m'.crb = m.crb) (hks : fills ks = 0)
    (hchecking : e.checking + asks Prod.snd (handed .near [ev])
      ≤ ({ e with state := st, issued := true } : OrbEntry).checking)
    (hstaged : ({ e with state := st, issued := true } : OrbEntry).staged
      + followUps Prod.snd (handed .near [ev]) ≤ e.staged) : Flow 0 replies m m' ks [ev] :=
  .change hlog hl (by rw [← haddr]; exact horb) hcrb hks
    (Nat.le_add_right_of_le (Nat.le_add_right_of_le hchecking))
    (Nat.le_add_right_of_le (Nat.le_add_right_of_le hstaged))

/-- **What a call does to the ORB's side of the account.** -/
theorem FrontStep.flow (hstep : FrontStep m c m' ks) (hinv : OrbInv (Ctl.of (c :: K)) m) :
    ∃ evs, Flow c.fills (Multiset.card (c.answers .near)) m m' ks evs := by
  have hsame : m'.log = m.log → m'.orb = m.orb → m'.crb = m.crb → fills ks ≤ c.fills →
      ∃ evs, Flow c.fills (Multiset.card (c.answers .near)) m m' ks evs :=
    fun hlog horb hcrb hks =>
      ⟨[], .quiet (by rw [hlog, List.append_nil]) (by simp) horb (by rw [hcrb]) hks⟩
  cases hstep with
  | quiet hc hks => exact hsame rfl rfl rfl (by rw [fills_of_bystanders hks]; exact Nat.zero_le _)
  | bypassed now _ => exact ⟨_, .quiet rfl upcalls_idle rfl rfl (Nat.zero_le _)⟩
  | untracked _ => exact ⟨[_], .quiet rfl (by simp [Event.idle]) rfl rfl (Nat.zero_le _)⟩
  | @stray side _ e _ _ =>
      exact ⟨[.answered side e], .still rfl rfl rfl rfl (Nat.zero_le _)⟩
  | nearEnter now hl hs hst => exact ⟨_, nearEnter_flow hl (hinv.entry hl).addr _ now hs⟩
  | nearHit lat now hl hs hw hh => exact ⟨_, nearHit_flow hl (hinv.entry hl).addr lat now hs⟩
  | farDone lat now hl hs => exact ⟨_, farDone_flow hl (hinv.entry hl).addr lat now hs⟩
  | driveIdle _ => exact hsame rfl rfl rfl (Nat.zero_le _)
  | @readNear a e ks now hl hs hks =>
      refine ⟨[.handNear e.requestId e.indexDC (Manager.subRequest e .load now) false],
        issued_flow hl (hinv.entry hl).addr rfl rfl rfl (fills_of_bystanders hks) ?_ ?_⟩
      · simp only [OrbEntry.checking, hs]
        exact le_refl _
      · simp only [OrbEntry.staged, hs]
        exact le_refl _
  | readFar now hl hs hks =>
      refine ⟨[_], issued_flow hl (hinv.entry hl).addr rfl rfl rfl (fills_of_bystanders hks) ?_ ?_⟩
      · simp only [OrbEntry.checking, hs]
        exact le_refl _
      · simp only [OrbEntry.staged, hs]
        exact le_refl _
  | writeNear now hl hs =>
      refine ⟨[_], issued_flow hl (hinv.entry hl).addr rfl rfl rfl rfl ?_ ?_⟩
      · simp only [OrbEntry.checking, hs]
        exact le_refl _
      · simp only [OrbEntry.staged, hs]
        exact le_refl _
  | completeNone _ => exact hsame rfl rfl rfl (Nat.zero_le _)
  | @complete a lat e now hl =>
      obtain ⟨e', hl', hs⟩ := hinv.focus (a := a) rfl
      obtain rfl : e = e' := by simpa [hl] using hl'
      have hs : e.state = .waitingLocMemWriteResp := hs
      refine ⟨_, .leave (Manager.retire_log ..) hl ?_ (Manager.retire_crb ..)
        (idle_account retired_idle).1 ?_ (Nat.zero_le _) (Nat.zero_le _)⟩
      · rw [Manager.retire_orb, (hinv.entry hl).addr]
      · simp [OrbEntry.checking, hs]
  | promoteNone _ => exact hsame rfl rfl rfl (Nat.zero_le _)
  | @promote i w now hw =>
      refine ⟨_, .arrive (Manager.admitEntry_log ..) (hinv.waiter_none hw)
        (Manager.admitEntry_orb ..) ?_ rfl rfl ?_⟩
      · rw [Manager.admitEntry_crb, length_takeWaiter hw]
        exact Nat.le_add_right _ _
      · exact admittedEntry_staged ..
  | @flag a i =>
      rcases m.flagConflict_eq a i with hf | ⟨e, hl, hf⟩
      · exact hsame (by rw [hf]) (by rw [hf]) (by rw [hf]) (Nat.zero_le _)
      · rw [hf]
        exact ⟨[], .change (f := { e with conflict := true }) (List.append_nil _).symm hl rfl rfl
          rfl (Nat.le_add_right _ _) (Nat.le_add_right _ _)⟩
  | @fill rid i pkt ks hks =>
      refine ⟨[.handNear rid i pkt true], .still rfl rfl rfl rfl ?_⟩
      rw [fills_of_bystanders hks]
      exact le_refl _
  | drained _ => exact ⟨[_], .quiet rfl (by simp [Event.idle]) rfl rfl (Nat.zero_le _)⟩
  | responses clk =>
      obtain ⟨due, rest, -, hr⟩ := Manager.releaseResponses_eq clk m.pendingResponses m
      refine ⟨_, .quiet (by rw [Manager.processPendingResponses, hr]) (fun ev hev => ?_)
        (by rw [Manager.processPendingResponses, hr]) (by rw [Manager.processPendingResponses, hr])
        (Nat.zero_le _)⟩
      obtain ⟨r, -, hev⟩ := List.mem_flatMap.mp hev
      exact upcalls_idle ev hev
  | samples => exact hsame rfl rfl rfl (Nat.zero_le _)

/-- An operation moves nothing but what it admits. -/
theorem FrontEnter.flow {op : Op} (hstep : FrontEnter m op m' ks) (hinv : OrbInv .calm m) :
    ∃ evs, Flow 0 0 m m' ks evs ∧ handed .near evs = [] := by
  have hsame : ∀ {m'}, m'.log = m.log → m'.orb = m.orb → m'.crb = m.crb →
      Flow 0 0 m m' [] [] := fun hlog horb hcrb =>
    .still (by rw [hlog, List.append_nil]) horb (by rw [hcrb]) rfl (le_refl _)
  cases hstep with
  | refused => exact ⟨[], hsame rfl rfl rfl, rfl⟩
  | @queued _ w pkt now hop hc hroom =>
      refine ⟨[.accepted w pkt], .trade (A := 0) (B := 0) (R := Keyed.values m.orb) rfl
        (zero_add _).symm (zero_add _).symm ?_ (le_refl _) (le_refl _), rfl⟩
      show _ + (m.crb ++ [_]).length + 0 ≤ _ + 0 + 1
      rw [List.length_append]
      exact le_refl _
  | @admitted _ w pkt now hop hc hwb horb =>
      refine ⟨[.accepted w pkt,
        .admitted ((m.emit (.accepted w pkt)).admittedEntry pkt w none now)],
        .arrive ?_ (hinv.lookup_none hc) (Manager.admitEntry_orb ..) ?_ rfl rfl ?_, rfl⟩
      · rw [Manager.admitEntry_log, Manager.emit, List.append_assoc]
        rfl
      · rw [Manager.admitEntry_crb]
        exact le_of_eq (Nat.add_comm ..)
      · exact admittedEntry_staged ..
  | operate => exact ⟨[], .still (List.append_nil _).symm rfl rfl rfl (le_refl _), rfl⟩
  | configured => exact ⟨[], hsame rfl rfl rfl, rfl⟩
  | statsReset => exact ⟨[], hsame rfl rfl rfl, rfl⟩

end Front

/-! ## What a call does to the controller's side of the account -/

namespace Sys

/-- The near reads nearMC has taken, those called back twice counted
twice. -/
def load (sends : List Send) : Nat := asks Prod.snd (taken .near sends) + doubled sends

@[simp] theorem load_append (l₁ l₂ : List Send) : load (l₁ ++ l₂) = load l₁ + load l₂ := by
  rw [load, taken_append, HeadOfLine.asks_append, doubled_append, load, load]
  omega

/-- The replies nearMC may still give: its read queue and the callbacks
under way. -/
def serving (x : Worklist.Config Sys Call) : Nat :=
  Multiset.card (Slots.used 0 (x.2.queued (hook x.1) .near))
    + Multiset.card (answering .near x.1)

/-- The replies nearMC may still give grow by no more than the reads it
takes. -/
def Booked (h h' : Option Call) (s s' : Sys) (ks : List Call) : Prop :=
  Multiset.card (Slots.used 0 (s'.queued h' .near)) + Multiset.card (answering .near ks)
      + load s.dcm.sends
    ≤ Multiset.card (Slots.used 0 (s.queued h .near)) + load s'.dcm.sends

theorem Booked.still {h h' : Option Call} {s s' : Sys} {ks : List Call}
    (hqueued : s'.queued h' .near = s.queued h .near)
    (hsends : load s'.dcm.sends = load s.dcm.sends) (hks : answering .near ks = 0) :
    Booked h h' s s' ks := by
  rw [Booked, hqueued, hsends, hks, Multiset.card_zero, add_zero]

section Send

variable {h : Option Call} {s s' : Sys} {side : Side} {pkt : Packet} {w ok : Bool}
  {ks : List Call}

theorem load_of_refused (hsends : s'.dcm.sends = s.dcm.sends ∨ w = false ∧
    ∃ i, s'.dcm.sends = s.dcm.sends ++ [⟨side, s.stamp pkt, false, .merged i⟩]) :
    load s'.dcm.sends = load s.dcm.sends := by
  rcases hsends with hsends | ⟨-, i, hsends⟩
  · rw [hsends]
  · rw [hsends, load_append]
    cases side <;> rfl

/-- A read nearMC takes waits in its queue or is called back, once for each
port. -/
theorem Sent.booked (hs : Sent s side pkt w s' ok ks)
    (hheld : ∀ sd i b, h = some (.processReadDone sd i b) →
      ((s.mc sd).rq.slotAt i).pkt.address ≠ 0) : Booked h h s s' ks := by
  cases hs with
  | refused hmc hsends =>
      exact .still (queued_congr (by rw [hmc])) (load_of_refused hsends) rfl
  | wrote hmc hsends ho =>
      have hqueued : s'.queued h .near = s.queued h .near := queued_congr (by rw [(hmc .near).2])
      rw [Booked, hqueued, hsends, load_append, answering_nil, Multiset.card_zero]
      omega
  | @inserted _ i hmc hother hpkt h0 hlines hwq hsends =>
      rw [Booked, hsends, load_append]
      cases side with
      | near =>
          have hone : load [⟨.near, s.stamp pkt, false, .inserted⟩] = 1 := rfl
          rw [queued_fill h0 hpkt hlines hheld, hone]
          simp
          omega
      | far =>
          have hqueued : s'.queued h .near = s.queued h .near :=
            queued_congr (by rw [hother .near (by decide)])
          rw [hqueued, answering_nil, Multiset.card_zero]
          omega
  | @forwarded _ i hmc hwq hsends =>
      have hqueued : s'.queued h .near = s.queued h .near := queued_congr (by rw [hmc])
      rw [Booked, hqueued, hsends, load_append, answering_append]
      cases side with
      | near =>
          have hcount : Multiset.card (answering .near (callbacks .near (s.stamp pkt)))
              ≤ load [⟨.near, s.stamp pkt, false, .forwarded i⟩] := by
            unfold callbacks
            cases hi : (s.stamp pkt).instruction <;> cases hd : (s.stamp pkt).isData <;>
              simp [load, asks, DramCache.taken, Send.taken?, Send.accepted, doubled, Send.doubled,
                Call.answers, hi, hd]
          have hdone : answering .near [Call.forwardDone .near] = 0 := rfl
          rw [hdone, add_zero]
          omega
      | far =>
          have hno : answering .near (callbacks .far (s.stamp pkt)) = 0 := by
            unfold callbacks
            cases (s.stamp pkt).instruction <;> cases (s.stamp pkt).isData <;> rfl
          have hdone : answering .near [Call.forwardDone .far] = 0 := rfl
          rw [hno, hdone, add_zero, Multiset.card_zero]
          omega

theorem Dispatched.booked (hd : Dispatched s side pkt w s' ks)
    (hheld : ∀ sd i b, h = some (.processReadDone sd i b) →
      ((s.mc sd).rq.slotAt i).pkt.address ≠ 0) : Booked h h s s' ks := by
  cases hd with
  | sent hs => exact hs.booked hheld
  | queued hmc _ _ hsends => exact .still (queued_congr (by rw [hmc])) (load_of_refused hsends) rfl

end Send

section Step

variable {s s' : Sys} {c : Call} {K ks : List Call}

/-- A packet is dispatched by a call of rank 1, or by `drainWB`. -/
theorem Dispatched.booked_step {side : Side} {pkt : Packet} {w : Bool} {L : List Call}
    (hd : Dispatched s side pkt w s' ks) (hp : Poised (c :: K) s) (hc : c.rank ≠ 2)
    (hL : ∀ k ∈ L, k.bystander = false) :
    Booked (hook (c :: K)) (hook (ks ++ L ++ K)) s s' (ks ++ L) := by
  have hhook : hook (ks ++ L ++ K) = hook (c :: K) :=
    hook_replaced (List.forall_mem_append.mpr
      ⟨hd.calls_rank, fun k hk => Call.rank_of_not_bystander (hL k hk)⟩) hc
  rw [Booked, hhook, answering_append, answering_eq_zero hL, add_zero]
  exact hd.booked hp.held

theorem Dispatched.booked_alone {side : Side} {pkt : Packet} {w : Bool}
    (hd : Dispatched s side pkt w s' ks) (hp : Poised (c :: K) s) (hc : c.rank ≠ 2) :
    Booked (hook (c :: K)) (hook (ks ++ K)) s s' ks := by
  have hbooked := hd.booked_step hp hc (L := []) (by simp)
  rwa [List.append_nil] at hbooked

theorem Drive.booked {a : Nat} (hd : Drive s a s' ks) (hp : Poised (.driveState a :: K) s) :
    Booked (hook (.driveState a :: K)) (hook (ks ++ K)) s s' ks := by
  cases hd with
  | idle => exact .still (by rw [List.nil_append, hook_cons (by simp [Call.rank])]) rfl rfl
  | readNear now hl hs hcore hd => exact hd.booked_alone hp (by simp [Call.rank])
  | readFar now hl hs hcore hd => exact hd.booked_alone hp (by simp [Call.rank])
  | writeNear now hl hs hcore hd =>
      exact hd.booked_step (L := [.completeRequest _ 0]) hp (by simp [Call.rank])
        (by simp [Call.bystander])

/-- A pending packet is offered. -/
theorem Released.booked {side : Side} (hr : Released s side side.pop s' ks)
    (hp : Poised (side.process :: K) s) :
    Booked (hook (side.process :: K)) (hook (ks ++ K)) s s' ks := by
  have hbefore : hook (side.process :: K) = none := hp.stacked.hook_phase (by simp) (by simp)
  rw [hbefore]
  cases hr with
  | kept hmc hpend hsends =>
      rw [List.nil_append, hp.stacked.hook_tail (by simp)]
      refine .still (queued_congr (by rw [hmc])) ?_ rfl
      rcases hsends with hsends | ⟨pkt, i, hsends⟩
      · rw [hsends]
      · rw [hsends, load_append]
        cases side <;> rfl
  | @sent pkt w _ ks hfront hpend hsent =>
      have hafter : hook (ks ++ [side.pop] ++ K) = some side.pop :=
        hook_pushed hsent.calls_rank side.pop_rank
      have hpop : answering .near [side.pop] = 0 := by cases side <;> rfl
      rw [hafter, Booked, queued_pop, answering_append, hpop, add_zero]
      exact hsent.booked (h := none) (by simp)

/-- A read is done and called back. -/
theorem booked_finished {side : Side} {i b : Nat} {pkt : Packet}
    (hp : Poised (.operateController side :: K) s) (hdcm : s'.dcm = s.dcm) (hmc : Served s s')
    (hline : (s.mc side).rq.lines[i]? = some pkt.address) (hpkt : pkt.address ≠ 0) :
    Booked (hook (.operateController side :: K))
      (hook ([.returnData side pkt, .processReadDone side i b] ++ K)) s s'
      [.returnData side pkt, .processReadDone side i b] := by
  have hbefore : hook (.operateController side :: K) = none :=
    hp.stacked.hook_phase (by simp [Call.rank]) (by simp [Call.rank])
  have hafter : hook ([.returnData side pkt, .processReadDone side i b] ++ K)
      = some (.processReadDone side i b) := rfl
  have hanswers : answering .near [.returnData side pkt, .processReadDone side i b]
      = if side = .near then {pkt.address} else 0 := by
    simp [Call.answers]
  rw [Booked, hbefore, hafter, ← used_finished (b := b) hmc hline hpkt, hdcm, hanswers,
    Multiset.card_add]

/-- **What a call does to the controller's side of the account.** -/
theorem CallStep.booked (hp : Poised (c :: K) s) (hstep : CallStep s c s' ks) :
    Booked (hook (c :: K)) (hook (ks ++ K)) s s' ks := by
  cases hstep with
  | core hc ht hks hf =>
      rw [hook_replaced (fun k hk => Call.rank_of_not_bystander (hks k hk))
        (Call.rank_of_not_dispatches hc)]
      exact .still (queued_congr (by rw [ht.mc])) (by rw [ht.sends]) (answering_eq_zero hks)
  | drive hd => exact hd.booked hp
  | fill hcore hd => exact hd.booked_alone hp (by simp [Call.rank])
  | kept hcore ht =>
      rw [List.nil_append, hook_cons (by simp [Call.rank])]
      exact .still (queued_congr (by rw [ht.mc])) (by rw [ht.sends]) rfl
  | drained _ hcore hd _ => exact hd.booked_alone hp (by simp [Call.rank])
  | released side hcore hr => exact hr.booked hp
  | @popped side _ hcore hmc hpend hother hsends =>
      have hafter : hook ([side.process] ++ K) = none :=
        hp.stacked.hook_phase (by simp) (by simp)
      rw [hafter, hook_cons_self side.pop_rank]
      refine .still ?_ (by rw [hsends]) (by cases side <;> rfl)
      rw [queued_pop]
      exact queued_congr (by rw [hmc])
  | served hc hdcm hmc =>
      refine .still ?_ (by rw [hdcm]) rfl
      obtain ⟨side, rfl | rfl⟩ := hc <;> rw [List.nil_append, hook_cons (by simp [Call.rank])] <;>
        exact queued_congr (hmc .near).2
  | finished hdcm hmc hline hpkt => exact booked_finished hp hdcm hmc hline hpkt
  | @readDone side i b _ hdcm hmc hlines hother =>
      rw [List.nil_append, hp.stacked.hook_tail (by simp [Call.rank]), hook_cons_self rfl]
      exact .still (queued_readDone hlines hother .near) (by rw [hdcm]) rfl

theorem CallStep.serving (hp : Poised (c :: K) s) (hstep : CallStep s c s' ks) :
    Sys.serving (ks ++ K, s') + Multiset.card (c.answers .near) + load s.dcm.sends
      ≤ Sys.serving (c :: K, s) + load s'.dcm.sends := by
  have hbooked := hstep.booked hp
  rw [Booked] at hbooked
  simp only [Sys.serving, answering_append, answering_cons, Multiset.card_add]
  omega

end Step

/-! ### Reads for one port are called back once -/

section Single

variable {s s' : Sys} {side : Side} {pkt : Packet} {w ok : Bool} {ks : List Call}

theorem Sent.single (h : Sent s side pkt w s' ok ks) (hflag : w = false → pkt.SingleFlag) :
    doubled s'.dcm.sends = doubled s.dcm.sends := by
  have hadd : ∀ {x : Send}, s'.dcm.sends = s.dcm.sends ++ [x] → x.doubled = 0 →
      doubled s'.dcm.sends = doubled s.dcm.sends := by
    intro x hsends hx
    rw [hsends, doubled_append]
    exact congrArg (doubled s.dcm.sends + ·) (congrArg (· + 0) hx)
  cases h with
  | refused _ hsends =>
      rcases hsends with hsends | ⟨-, i, hsends⟩
      · rw [hsends]
      · exact hadd hsends (by cases side <;> rfl)
  | @wrote _ o _ hsends _ => exact hadd hsends (by cases side <;> cases o <;> rfl)
  | inserted _ _ _ _ _ _ hsends => exact hadd hsends (by cases side <;> rfl)
  | forwarded _ _ hsends =>
      refine hadd hsends ?_
      have hone := hflag rfl
      unfold Packet.SingleFlag at hone
      cases side with
      | near => cases hi : pkt.instruction <;> cases hd : pkt.isData <;>
          simp_all [Send.doubled, stamp]
      | far => rfl

theorem Dispatched.single (h : Dispatched s side pkt w s' ks)
    (hflag : w = false → pkt.SingleFlag) : doubled s'.dcm.sends = doubled s.dcm.sends := by
  cases h with
  | sent hs => exact hs.single hflag
  | queued _ _ _ hsends =>
      rcases hsends with hsends | ⟨-, i, hsends⟩
      · rw [hsends]
      · rw [hsends, doubled_append]
        cases side <;> rfl

theorem CallStep.single {c : Call} {K : List Call} (h : CallStep s c s' ks)
    (hpair : Paired (c :: K) s) (hfl : Flagged s.dcm.core) :
    doubled s'.dcm.sends = doubled s.dcm.sends := by
  have hwrite : ∀ {pkt : Packet}, true = false → pkt.SingleFlag := fun h => by cases h
  cases h with
  | core _ ht => rw [ht.sends]
  | drive hd =>
      cases hd with
      | idle => rfl
      | readNear _ hl _ _ hd => exact hd.single fun _ => hfl.orb hl
      | readFar _ hl _ _ hd => exact hd.single fun _ => hfl.orb hl
      | writeNear _ _ _ _ hd => exact hd.single hwrite
  | fill _ hd => exact hd.single hwrite
  | kept _ ht => rw [ht.sends]
  | drained _ _ hd => exact hd.single hwrite
  | released side _ hr =>
      cases hr with
      | kept _ _ hsends =>
          rcases hsends with hsends | ⟨_, _, hsends⟩
          · rw [hsends]
          · rw [hsends, doubled_append]
            cases side <;> rfl
      | @sent pkt w _ _ hfront _ hsent =>
          refine hsent.single fun hw => hpair.flag side pkt ?_
          rw [hfront, hw]
          exact List.mem_cons_self ..
  | popped _ _ _ _ _ hsends => rw [hsends]
  | served _ hdcm => rw [hdcm]
  | finished hdcm => rw [hdcm]
  | readDone hdcm => rw [hdcm]

end Single

/-! ### The read queue keeps its size -/

section Size

variable {s s' : Sys} {side : Side} {pkt : Packet} {w ok : Bool} {ks : List Call}

theorem Sent.rq_length (h : Sent s side pkt w s' ok ks) (x : Side) :
    (s'.mc x).rq.lines.length = (s.mc x).rq.lines.length := by
  cases h with
  | refused hmc _ => rw [hmc]
  | wrote hmc _ _ => rw [(hmc x).2]
  | inserted _ hother _ _ hlines _ _ =>
      by_cases hx : x = side
      · rw [hx, hlines, List.length_set]
      · rw [hother x hx]
  | forwarded hmc _ _ => rw [hmc]

theorem Dispatched.rq_length (h : Dispatched s side pkt w s' ks) (x : Side) :
    (s'.mc x).rq.lines.length = (s.mc x).rq.lines.length := by
  cases h with
  | sent hs => exact hs.rq_length x
  | queued hmc _ _ _ => rw [hmc]

theorem CallStep.rq_length {c : Call} (h : CallStep s c s' ks) (x : Side) :
    (s'.mc x).rq.lines.length = (s.mc x).rq.lines.length := by
  cases h with
  | core _ ht => rw [ht.mc]
  | drive hd =>
      cases hd with
      | idle => rfl
      | readNear _ _ _ _ hd => exact hd.rq_length x
      | readFar _ _ _ _ hd => exact hd.rq_length x
      | writeNear _ _ _ _ hd => exact hd.rq_length x
  | fill _ hd => exact hd.rq_length x
  | kept _ ht => rw [ht.mc]
  | drained _ _ hd => exact hd.rq_length x
  | released _ _ hr =>
      cases hr with
      | kept hmc _ _ => rw [hmc]
      | sent _ _ hsent => exact hsent.rq_length x
  | popped _ _ hmc => rw [hmc]
  | served _ _ hmc => rw [(hmc x).2]
  | finished _ hmc => rw [(hmc x).2]
  | @readDone side i b _ _ _ hlines hother =>
      by_cases hx : x = side
      · rw [hx, hlines, List.length_set]
      · rw [hother x hx]

end Size

end Sys

/-! ## The pending queue is tame -/

/-- The near traffic of a configuration: the requests are the clients and
nearMC is the server. -/
def account (x : Worklist.Config Sys Call) : Account Parcel where
  queue := parcels (x.2.live (hook x.1) .near)
  serving := Sys.serving x
  awaited := x.2.dcm.checking
  staged := x.2.dcm.staged + fills x.1
  surplus := x.2.dcm.surplus
  skips := skipped x.2.dcm.log

section Run

variable {allow : Op → Prop} {ok : Worklist.Config Sys Call → Prop} {s₀ : Sys}
  {x y : Worklist.Config Sys Call}

/-- The entries, the waiters and the fills under way. -/
theorem room_of_reaches (hroi : ∀ op, allow op → op.Roi) (h₀ : s₀.Fresh)
    (h : ReachesIf machine allow ok s₀ x) :
    x.2.dcm.orbSize + x.2.dcm.crb.length + fills x.1 ≤ dcmOrbMaxSize + dcmCrbMaxSize := by
  have hcalm : ∀ {ctl : Ctl} {m : Manager}, OrbInv ctl m →
      m.orbSize + m.crb.length ≤ dcmOrbMaxSize + dcmCrbMaxSize := fun hinv =>
    Nat.add_le_add (le_trans (Nat.le_add_right _ _) hinv.orbSize) hinv.crbSize
  refine front_invariant (I := fun K m => OrbInv (Ctl.of K) m)
    (P := fun K m => m.orbSize + m.crb.length + fills K ≤ dcmOrbMaxSize + dcmCrbMaxSize) hroi
    h₀.live (fun _ hr => (orbInv_of_reaches hroi h₀ hr).2) (hcalm (OrbInv.fresh h₀)) ?_ ?_ h
  · intro op m m' ks _ hstep hinv _
    have hnone : fills ks = 0 := by cases hstep <;> rfl
    rw [hnone]
    exact hcalm (hinv.enter hstep)
  · intro c K m m' ks hstep hinv hp
    obtain ⟨evs, hflow⟩ := hstep.flow hinv
    have hlen := congrArg List.length hstep.accepted_eq
    rw [hflow.log, accepted_append, List.length_append] at hlen
    have hsize := hflow.size
    rw [fills_cons] at hp
    rw [fills_append]
    omega

theorem rqSize_of_reaches (hroi : ∀ op, allow op → op.Roi) (h₀ : s₀.Fresh)
    (h : ReachesIf machine allow ok s₀ x) : x.2.nearMC.rq.lines.length = dramRqSize := by
  refine system_invariant hroi h₀ (P := fun _ s => (s.mc .near).rq.lines.length = dramRqSize)
    ?_ ?_ ?_ h
  · obtain ⟨tRP, tRCD, tCAS, dbus, hmc⟩ := h₀.nearMC
    show s₀.nearMC.rq.lines.length = dramRqSize
    rw [hmc]
    rfl
  · intro op s s' ks _ _ hstep hp
    rw [hstep.mc]
    exact hp
  · intro c K s s' ks _ _ _ hstep hp
    rw [hstep.rq_length]
    exact hp

/-- Near memory takes packets in the order they were handed over. -/
theorem near_ordered (hroi : ∀ op, allow op → op.Roi) (h₀ : s₀.Fresh)
    (h : ReachesIf machine allow ok s₀ x) : handed .near x.2.dcm.log
      = taken .near x.2.dcm.sends ++ parcels (x.2.live (hook x.1) .near) := by
  refine ordered_of_reaches hroi h₀ (fun y _ hpend => ?_) h
  have hpend : y.2.dcm.pending .near = [] := hpend
  rw [Sys.live, hpend]
  split <;> rfl

/-- A call is a step of the traffic. -/
theorem account_call (hroi : ∀ op, allow op → op.Roi) (h₀ : s₀.Fresh) {c : Call} {K ks : List Call}
    {s s' : Sys} (hr : ReachesIf machine allow (fun _ => True) s₀ (c :: K, s))
    (he : s.exec c = .ok (s', ks)) :
    ∃ l₁ l₂, (account (c :: K, s)).Step Prod.snd (account (ks ++ K, s')) l₁ l₂ := by
  have hpoised := poised_of_reaches hroi h₀ hr
  have hstep := hpoised.exec (live_of_reaches hroi h₀.live hr) he
  obtain ⟨evs, hflow⟩ := (Sys.exec_frontStep he).flow (orbInv_of_reaches hroi h₀ hr).2
  obtain ⟨sends, hsends⟩ : ∃ l, s'.dcm.sends = s.dcm.sends ++ l := hstep.sends_grow
  have hlog : s'.dcm.log = s.dcm.log ++ evs := hflow.log
  have hserving : Sys.serving (ks ++ K, s') + Multiset.card (c.answers .near)
      + Sys.load s.dcm.sends ≤ Sys.serving (c :: K, s) + Sys.load s'.dcm.sends :=
    hstep.serving hpoised
  have hbefore : handed .near s.dcm.log = taken .near s.dcm.sends
      ++ parcels (s.live (hook (c :: K)) .near) := near_ordered hroi h₀ hr
  have hafter : handed .near s'.dcm.log = taken .near s'.dcm.sends
      ++ parcels (s'.live (hook (ks ++ K)) .near) := near_ordered hroi h₀ (hr.call trivial he)
  have hone : (handed .near evs).length ≤ 1 := by
    rcases hstep.handed hpoised .near with ⟨hsame, -⟩ | ⟨p, hp, -⟩
    · rw [hlog, handed_append] at hsame
      rw [List.append_right_eq_self.mp hsame]
      exact Nat.zero_le _
    · rw [hlog, handed_append] at hp
      rw [List.append_cancel_left hp]
      exact le_refl _
  have hchecking : s.dcm.checking + asks Prod.snd (handed .near evs)
      ≤ s'.dcm.checking + Multiset.card (c.answers .near) + crossed evs := hflow.checking
  have hstaged : s'.dcm.staged + fills ks + followUps Prod.snd (handed .near evs)
      ≤ s.dcm.staged + c.fills + Multiset.card (c.answers .near) + crossed evs + skipped evs :=
    hflow.staged
  have hload : Sys.load s'.dcm.sends = Sys.load s.dcm.sends + asks Prod.snd (taken .near sends)
      + doubled sends := by
    rw [hsends, Sys.load_append, Nat.add_assoc]
    rfl
  have hsurplus : s'.dcm.surplus = s.dcm.surplus + doubled sends + crossed evs := by
    rw [Manager.surplus, Manager.surplus, hlog, hsends, doubled_append, crossed_append]
    omega
  have hskips : skipped s'.dcm.log = skipped s.dcm.log + skipped evs := by
    rw [hlog, skipped_append]
  refine ⟨handed .near evs, taken .near sends, ?_, ?_, ?_, hone, ?_, ?_⟩
  · rw [hlog, handed_append, hbefore, hsends, taken_append, List.append_assoc,
      List.append_assoc] at hafter
    exact List.append_cancel_left hafter
  · show s.dcm.surplus ≤ s'.dcm.surplus
    omega
  · show skipped s.dcm.log ≤ skipped s'.dcm.log
    omega
  · show _ + Sys.serving (ks ++ K, s') + s.dcm.checking + s.dcm.surplus
      ≤ Sys.serving (c :: K, s) + _ + s'.dcm.checking + s'.dcm.surplus
    omega
  · show _ + Sys.serving (ks ++ K, s') + (s'.dcm.staged + fills (ks ++ K)) + s.dcm.surplus
        + skipped s.dcm.log
      ≤ Sys.serving (c :: K, s) + _ + (s.dcm.staged + fills (c :: K)) + s'.dcm.surplus
        + skipped s'.dcm.log
    rw [fills_append, fills_cons]
    omega

/-- So is an operation. -/
theorem account_enter (hroi : ∀ op, allow op → op.Roi) (h₀ : s₀.Fresh) {op : Op} {s : Sys}
    (hop : op.Roi) (hr : ReachesIf machine allow (fun _ => True) s₀ ([], s)) :
    (account ([], s)).Step Prod.snd (account ((s.enter op).2, (s.enter op).1)) [] [] := by
  have hstep := Sys.enter_enterStep (live_of_reaches hroi h₀.live hr) hop
  obtain ⟨evs, hflow, hnone⟩ := hstep.front.flow (orbInv_of_reaches hroi h₀ hr).2
  have hhook := (Sys.FrontEnter.stacked hstep.front).2
  generalize (s.enter op).1 = s' at hstep hflow
  generalize (s.enter op).2 = ks at hstep hflow hhook
  have hlog : s'.dcm.log = s.dcm.log ++ evs := hflow.log
  have hserving : Sys.serving (ks, s') = Sys.serving ([], s) := by
    have hqueued : s'.queued none .near = s.queued none .near :=
      Sys.queued_congr (by rw [hstep.mc])
    have hanswering : answering .near ks = 0 := hstep.front.answering .near
    rw [Sys.serving, Sys.serving, hhook, hqueued, hanswering]
    rfl
  have hchecking : s.dcm.checking + asks Prod.snd (handed .near evs)
      ≤ s'.dcm.checking + 0 + crossed evs := hflow.checking
  have hstaged : s'.dcm.staged + fills ks + followUps Prod.snd (handed .near evs)
      ≤ s.dcm.staged + 0 + 0 + crossed evs + skipped evs := hflow.staged
  have hsurplus : s'.dcm.surplus = s.dcm.surplus + crossed evs := by
    rw [Manager.surplus, Manager.surplus, hlog, hstep.calm.2, crossed_append, Nat.add_assoc]
  have hskips : skipped s'.dcm.log = skipped s.dcm.log + skipped evs := by
    rw [hlog, skipped_append]
  rw [hnone] at hchecking hstaged
  refine ⟨?_, ?_, ?_, Nat.zero_le _, ?_, ?_⟩
  · show parcels (s.live none .near) ++ [] = [] ++ parcels (s'.live (hook ks) .near)
    rw [hhook, Sys.live_congr none (hstep.calm.1 .near), List.append_nil, List.nil_append]
  · show s.dcm.surplus ≤ s'.dcm.surplus
    omega
  · show skipped s.dcm.log ≤ skipped s'.dcm.log
    omega
  · show _ + Sys.serving (ks, s') + s.dcm.checking + s.dcm.surplus
      ≤ Sys.serving ([], s) + _ + s'.dcm.checking + s'.dcm.surplus
    omega
  · show _ + Sys.serving (ks, s') + (s'.dcm.staged + fills ks) + s.dcm.surplus
        + skipped s.dcm.log
      ≤ Sys.serving ([], s) + _ + (s.dcm.staged + 0) + s'.dcm.surplus + skipped s'.dcm.log
    omega

/-- At a call boundary nearMC owes no more replies than its read queue has
slots. -/
theorem serving_boundary (hroi : ∀ op, allow op → op.Roi) (h₀ : s₀.Fresh) {s : Sys}
    (h : ReachesIf machine allow ok s₀ ([], s)) : Sys.serving ([], s) ≤ dramRqSize := by
  refine le_of_le_of_eq ?_ (rqSize_of_reaches hroi h₀ h)
  have hle : Multiset.card (Slots.used 0 s.nearMC.rq.lines)
      ≤ Multiset.card (s.nearMC.rq.lines : Multiset Nat) :=
    Multiset.card_le_card (Multiset.filter_le _ _)
  exact le_of_le_of_eq hle (Multiset.coe_card _)

/-- **The near queue is tame** since it was last empty at a call
boundary. -/
theorem tame_of_runs (hroi : ∀ op, allow op → op.Roi) (h₀ : s₀.Fresh) {s : Sys}
    (hr : ReachesIf machine allow (fun _ => True) s₀ ([], s))
    (hempty : s.dcm.pendingNearDispatches = [])
    (hy : Runs machine allow (fun _ => True) ([], s) y) :
    Tame Prod.snd dramRqSize (dcmOrbMaxSize + dcmCrbMaxSize) s.dcm.surplus (skipped s.dcm.log)
      (account y) := by
  have hcap : ∀ z, ReachesIf machine allow (fun _ => True) s₀ z →
      (account z).awaited + (account z).staged ≤ dcmOrbMaxSize + dcmCrbMaxSize := by
    intro z hz
    have hroom := room_of_reaches hroi h₀ hz
    have hle := z.2.dcm.checking_staged_le
    show z.2.dcm.checking + (z.2.dcm.staged + fills z.1) ≤ _
    omega
  refine Runs.invariant (P := fun z => Tame Prod.snd dramRqSize (dcmOrbMaxSize + dcmCrbMaxSize)
    s.dcm.surplus (skipped s.dcm.log) (account z)) hy ?_ ?_ ?_
  · refine Tame.start (x := account ([], s)) ?_ ?_
    · show parcels (s.dcm.pending .near) = []
      rw [Manager.pending, hempty]
      rfl
    · exact serving_boundary hroi h₀ hr
  · intro op s' ha _ hs' hp
    have hreach := hr.runs hs'
    exact hp.step (account_enter hroi h₀ (hroi op ha) hreach) (hcap _ (hreach.enter ha trivial))
  · intro c K s' s'' ks _ hs' hp he
    have hreach := hr.runs hs'
    obtain ⟨l₁, l₂, hstep⟩ := account_call hroi h₀ hreach he
    exact hp.step hstep (hcap _ (hreach.call trivial he))

/-- With reads for one port every callback is accounted for. -/
theorem no_surplus (hallow : ∀ op, allow op → op.Roi ∧ op.OneFlag) (h₀ : s₀.Fresh)
    (h : ReachesIf machine allow ok s₀ x) : x.2.dcm.surplus = 0 := by
  have hroi : ∀ op, allow op → op.Roi := fun op ha => (hallow op ha).1
  have hdoubled : doubled x.2.dcm.sends = 0 := by
    refine system_invariant hroi h₀ (P := fun _ s => doubled s.dcm.sends = 0) ?_ ?_ ?_ h
    · rw [h₀.sends]
      rfl
    · intro op s s' ks _ _ hstep hp
      rw [hstep.calm.2]
      exact hp
    · intro c K s s' ks _ hr _ hstep hp
      rw [hstep.single (paired_of_reaches hallow h₀ hr) (flagged_of_reaches hallow h₀ hr)]
      exact hp
  have hcrossed : crossed x.2.dcm.log = 0 := by
    refine List.sum_eq_zero fun n hn => ?_
    obtain ⟨ev, hev, rfl⟩ := List.mem_map.mp hn
    have hmatched := matched_of_reaches hallow h₀ h ev hev
    cases ev with
    | answered side e =>
        cases side with
        | near => rfl
        | far =>
            have hs : e.state = .waitingFarMemReadResp := hmatched
            simp [Event.crossed, OrbEntry.checking, hs]
    | _ => rfl
  rw [Manager.surplus, hdoubled, hcrossed]

end Run

/-! ## The baseline skips no tag check -/

/-- An operation that leaves the manager under a policy. -/
def Op.KeepsPolicy (pol : Policy) (op : Op) : Prop := ∀ p, op = .setPolicy p → p = pol

theorem admitEntry_policy (m : Manager) (pkt : Packet) (w : Bool) (arr : Option Nat) (now : Nat) :
    (m.admitEntry pkt w arr now).policy = m.policy := rfl

theorem FrontStep.policy {m m' : Manager} {c : Call} {ks : List Call}
    (h : FrontStep m c m' ks) : m'.policy = m.policy := by
  cases h with
  | nearEnter now => rw [Manager.nearAnswered_eq]; rfl
  | nearHit lat now => rw [Manager.retire_eq, Manager.nearAnswered_eq]; rfl
  | farDone lat now => rw [Manager.retire_eq]; rfl
  | complete now => rw [Manager.retire_eq]
  | @flag a i => rcases m.flagConflict_eq a i with hf | ⟨e, -, hf⟩ <;> rw [hf]
  | responses clk =>
      obtain ⟨due, rest, -, hr⟩ := Manager.releaseResponses_eq clk m.pendingResponses m
      rw [Manager.processPendingResponses, hr]
  | promote now => exact admitEntry_policy ..
  | _ => rfl

theorem FrontEnter.policy {m m' : Manager} {op : Op} {ks : List Call}
    (h : FrontEnter m op m' ks) (hop : op.request? ≠ none) : m'.policy = m.policy := by
  cases h with
  | configured hnone => exact absurd hnone hop
  | admitted now => exact admitEntry_policy ..
  | _ => rfl

theorem Sys.enter_policy {s : Sys} {op : Op} {pol : Policy} (hs : s.Live) (hroi : op.Roi)
    (hpol : s.dcm.policy = pol) (hop : op.KeepsPolicy pol) :
    (s.enter op).1.dcm.policy = pol := by
  have hfront := enter_frontEnter hs hroi
  cases op with
  | addRq pkt => exact (FrontEnter.policy hfront (by simp [Op.request?])).trans hpol
  | addWq pkt => exact (FrontEnter.policy hfront (by simp [Op.request?])).trans hpol
  | setPolicy p => exact hop p rfl
  | _ => exact hpol

theorem Silent.skipped {m m' : Manager} (h : Silent m m') : skipped m'.log = skipped m.log := by
  rw [DramCache.skipped, h.admitted, DramCache.skipped]

theorem skipped_admitEntry {m : Manager} (hpol : m.policy = .baselineCascadeLake) (pkt : Packet)
    (w : Bool) (arr : Option Nat) (now : Nat) :
    skipped (m.admitEntry pkt w arr now).log = skipped m.log := by
  have hentry : (m.admittedEntry pkt w arr now).skipsTagCheck = false := by
    have hp : (m.admittedEntry pkt w arr now).pol = .baselineCascadeLake := hpol
    rw [OrbEntry.skipsTagCheck, hp]
  rw [Manager.admitEntry_log, skipped_append, skipped_singleton, hentry]
  rfl

section Baseline

variable {allow : Op → Prop} {ok : Worklist.Config Sys Call → Prop} {s₀ : Sys}
  {x : Worklist.Config Sys Call}

/-- Under the baseline no request skips its tag check. -/
theorem no_skips (hallow : ∀ op, allow op → op.Roi ∧ op.KeepsPolicy .baselineCascadeLake)
    (h₀ : s₀.Fresh) (hpol : s₀.dcm.policy = .baselineCascadeLake)
    (h : ReachesIf machine allow ok s₀ x) : skipped x.2.dcm.log = 0 := by
  have hroi : ∀ op, allow op → op.Roi := fun op ha => (hallow op ha).1
  refine (ReachesIf.invariant (P := fun x => x.2.dcm.policy = .baselineCascadeLake
    ∧ skipped x.2.dcm.log = 0) ⟨hpol, ?_⟩ ?_ ?_ h).2
  · show (admitted s₀.dcm.log).countP OrbEntry.skipsTagCheck = 0
    rw [(warmup_silent h₀.log).2]
    rfl
  · rintro op s ha - hr ⟨hp, hskips⟩
    have hlive := live_of_reaches hroi h₀.live hr
    refine ⟨Sys.enter_policy hlive (hroi op ha) hp (hallow op ha).2, ?_⟩
    have hfront := Sys.enter_frontEnter hlive (hroi op ha)
    have hp : s.dcm.core.policy = .baselineCascadeLake := hp
    have hskips : skipped s.dcm.core.log = 0 := hskips
    show skipped (s.enter op).1.dcm.core.log = 0
    rcases hfront.silent_or_request with hs | ⟨w, pkt, now, -, ⟨-, heq⟩ | ⟨-, heq⟩⟩
    · rw [hs.skipped, hskips]
    · rw [heq, ← hskips]
      exact (skipped_append ..).trans (Nat.add_zero _)
    · rw [heq, skipped_admitEntry (m := s.dcm.core.emit (.accepted w pkt)) hp, ← hskips]
      exact (skipped_append ..).trans (Nat.add_zero _)
  · rintro c K s s' ks - hr ⟨hp, hskips⟩ he
    have hfront := Sys.exec_frontStep he
    have hp : s.dcm.core.policy = .baselineCascadeLake := hp
    have hskips : skipped s.dcm.core.log = 0 := hskips
    refine ⟨hfront.policy.trans hp, ?_⟩
    show skipped s'.dcm.core.log = 0
    rcases hfront.silent_or_promote with hs | ⟨i, w, now, -, -, heq⟩
    · rw [hs.skipped, hskips]
    · rw [heq, skipped_admitEntry (m := s.dcm.core.takeWaiter i) hp]
      exact hskips

end Baseline

/-! ## The bound -/

/-- What the ORB, the CRB and nearMC's read queue leave room for. -/
def nearBound : Nat := 2 * dcmOrbMaxSize + dcmCrbMaxSize + 2 * dramRqSize + 2

section Main

variable {allow : Op → Prop} {s₀ : Sys}

theorem near_growth (hroi : ∀ op, allow op → op.Roi) (h₀ : s₀.Fresh) {s : Sys}
    {y : Worklist.Config Sys Call} (hs : Reaches machine allow s₀ ([], s))
    (hempty : s.dcm.pendingNearDispatches = [])
    (hy : Runs machine allow (fun _ => True) ([], s) y) :
    y.2.dcm.pendingNearDispatches.length + 2 * s.dcm.surplus + skipped s.dcm.log
      ≤ nearBound + 2 * y.2.dcm.surplus + skipped y.2.dcm.log := by
  have hlength : (parcels (y.2.live (hook y.1) .near)).length + 2 * s.dcm.surplus
      + skipped s.dcm.log ≤ y.2.dcm.checking + (dcmOrbMaxSize + dcmCrbMaxSize) + 2 * dramRqSize
        + 1 + 2 * y.2.dcm.surplus + skipped y.2.dcm.log :=
    (tame_of_runs hroi h₀ hs hempty hy).length
  have hpending : y.2.dcm.pendingNearDispatches.length
      ≤ (parcels (y.2.live (hook y.1) .near)).length + 1 := by
    have hmap : (y.2.dcm.pending .near).length = y.2.dcm.pendingNearDispatches.length :=
      List.length_map ..
    rw [parcels, List.length_map, ← hmap, Sys.live]
    split
    · rw [List.length_tail]
      omega
    · exact Nat.le_succ _
  have hchecking : y.2.dcm.checking ≤ dcmOrbMaxSize := by
    have hinv : OrbInv (Ctl.of y.1) y.2.dcm.core := (orbInv_of_reaches hroi h₀ (hs.runs hy)).2
    have hsize : y.2.dcm.orbSize ≤ dcmOrbMaxSize := le_trans (Nat.le_add_right _ _) hinv.orbSize
    have hle := y.2.dcm.checking_staged_le
    omega
  unfold nearBound
  omega

/-- **The near backlog and the tag checks skipped.** Since the retry queue was
last empty at a call boundary it has grown beyond the bound by at most one
for each request admitted without a tag check and two for each callback that
no check under way accounts for. So under the baseline, with reads for one
port each, the bound holds however long nearMC refuses packets. -/
theorem near_backlog_bounded (hroi : ∀ op, allow op → op.Roi) (h₀ : s₀.Fresh) :
    (∀ s y, Reaches machine allow s₀ ([], s) → s.dcm.pendingNearDispatches = [] →
      Runs machine allow (fun _ => True) ([], s) y →
      y.2.dcm.pendingNearDispatches.length + 2 * s.dcm.surplus + skipped s.dcm.log
        ≤ nearBound + 2 * y.2.dcm.surplus + skipped y.2.dcm.log) ∧
    ((∀ op, allow op → op.OneFlag ∧ op.KeepsPolicy .baselineCascadeLake) →
      s₀.dcm.policy = .baselineCascadeLake → ∀ y, Reaches machine allow s₀ y →
      y.2.dcm.pendingNearDispatches.length ≤ nearBound) := by
  refine ⟨fun s y hs hempty hy => near_growth hroi h₀ hs hempty hy, fun hallow hpol y hy => ?_⟩
  have hgrowth := near_growth hroi h₀ .refl h₀.near hy
  have hsurplus := no_surplus (fun op ha => ⟨hroi op ha, (hallow op ha).1⟩) h₀ hy
  have hskips := no_skips (fun op ha => ⟨hroi op ha, (hallow op ha).2⟩) h₀ hpol hy
  omega

end Main

/-- Both lines are cached, near memory comes to rest, and the line is read
twice. -/
def jamOps : List Op :=
  [.addWq (.readOf 8), .addWq (.readOf 7)] ++ cycleOps 0 ++ cycleOps 100 ++ cycleOps 200
    ++ cycleOps 300 ++ [.addRq (.readOf 7), .addRq (.readOf 7)] ++ cycleOps 400

/-- The operations of these runs: requests for one port and no line 0, under
one policy. -/
def Op.Steady (pol : Policy) (op : Op) : Prop := op.Plain ∧ op.OneFlag ∧ op.KeepsPolicy pol

theorem jamOps_steady (pol : Policy) : ∀ op ∈ jamOps, op.Steady pol := by
  have hcycle : ∀ n, ∀ op ∈ cycleOps n, op.Steady pol := by
    intro n op hop
    simp only [cycleOps, List.mem_cons, List.not_mem_nil, or_false] at hop
    rcases hop with rfl | rfl <;>
      exact ⟨⟨trivial, by rintro w pkt ⟨⟩, by rintro pkt ⟨⟩⟩, by rintro w pkt ⟨⟩, by rintro p ⟨⟩⟩
  have hread : ∀ op ∈ [Op.addRq (.readOf 7), .addWq (.readOf 7), .addWq (.readOf 8)],
      op.Steady pol := by
    simp [Op.Steady, Op.Plain, Op.Roi, Op.Nonzero, Op.SingleFlag, Op.OneFlag, Op.KeepsPolicy,
      Op.request?, Packet.readOf, Packet.SingleFlag]
  intro op hop
  simp only [jamOps, List.mem_append] at hop
  rcases hop with (((((hop | hop) | hop) | hop) | hop) | hop) | hop
  · refine hread op ?_
    simp only [List.mem_cons, List.not_mem_nil, or_false] at hop ⊢
    exact .inr hop.symm
  · exact hcycle _ op hop
  · exact hcycle _ op hop
  · exact hcycle _ op hop
  · exact hcycle _ op hop
  · refine hread op ?_
    simp only [List.mem_cons, List.not_mem_nil, or_false, or_self] at hop ⊢
    exact .inl hop
  · exact hcycle _ op hop

/-- The second read waits for the slot of the first. -/
theorem near_backlog_bounded_read :
    ∃ s, Worklist.drive (machine.gated Op.fits) 60 jamOps (.cold .baselineCascadeLake 0) = some s ∧
      s.dcm.pendingNearDispatches.length = 1 ∧
      s.dcm.pendingNearDispatches.length ≤ nearBound ∧
      s.dcm.pendingNearDispatches.length + 2 * (Sys.cold .baselineCascadeLake 0).dcm.surplus
          + skipped (Sys.cold .baselineCascadeLake 0).dcm.log
        ≤ nearBound + 2 * s.dcm.surplus + skipped s.dcm.log := by
  obtain ⟨s, hs, hlen⟩ := Option.map_eq_some_iff.mp (show (Worklist.drive
    (machine.gated Op.fits) 60 jamOps (.cold .baselineCascadeLake 0)).map
      (fun s => s.dcm.pendingNearDispatches.length) = some 1 from by decide +kernel)
  have hr : Reaches machine (Op.Steady .baselineCascadeLake) (.cold .baselineCascadeLake 0)
      ([], s) := (Worklist.drive_reaches (jamOps_steady _) .refl hs).ungated
  have hroi : ∀ op : Op, op.Steady .baselineCascadeLake → op.Roi := fun _ h => h.1.1
  have hbound := near_backlog_bounded hroi (Sys.cold_fresh .baselineCascadeLake 0)
  exact ⟨s, hs, hlen, hbound.2 (fun _ h => h.2) rfl _ hr, hbound.1 _ _ .refl rfl hr⟩

/-! ## A queue without end

Under the other policies a write that hits skips its tag check. Behind a
read that waits for near memory it pends, is done all the same, and leaves
the ORB and the CRB as they were, so the last-level cache may go on with the
next one. -/

/-- Whatever decides on the next request stands still, the ORB, the tags and
the pending queue apart. -/
structure Passing (s s' : Sys) : Prop where
  warm : s'.allWarmupComplete = s.allWarmupComplete
  bypass : s'.dcm.bypassDcache = s.dcm.bypassDcache
  reads : s'.dcm.bypassOutstandingReads = s.dcm.bypassOutstandingReads
  policy : s'.dcm.policy = s.dcm.policy
  crb : s'.dcm.crb = s.dcm.crb
  wb : s'.dcm.wb = s.dcm.wb

theorem Passing.trans {s₁ s₂ s₃ : Sys} (h₁ : Passing s₁ s₂) (h₂ : Passing s₂ s₃) :
    Passing s₁ s₃ where
  warm := h₂.warm.trans h₁.warm
  bypass := h₂.bypass.trans h₁.bypass
  reads := h₂.reads.trans h₁.reads
  policy := h₂.policy.trans h₁.policy
  crb := h₂.crb.trans h₁.crb
  wb := h₂.wb.trans h₁.wb

section Write

variable (s : Sys) (e : OrbEntry) (pkt : Packet) (now : Nat)

theorem Passing.write : Passing s ((s.onDcm (·.writeNear e now)).queueNear pkt true) := by
  refine ⟨rfl, ?_, ?_, ?_, ?_, ?_⟩ <;>
    simp only [Sys.queueNear, Sys.onDcm_dcm, Manager.writeNear, Manager.issue, Manager.emit,
      Manager.count]

theorem write_tags : ((s.onDcm (·.writeNear e now)).queueNear pkt true).dcm.tagMetadataStore
    = s.dcm.tagMetadataStore := by
  simp only [Sys.queueNear, Sys.onDcm_dcm, Manager.writeNear, Manager.issue, Manager.emit,
    Manager.count]

theorem write_orb : ((s.onDcm (·.writeNear e now)).queueNear pkt true).dcm.orb
    = s.dcm.orb.insert e.pkt.address
      { e with state := .waitingLocMemWriteResp, issued := true } := by
  simp only [Sys.queueNear, Sys.onDcm_dcm, Manager.writeNear, Manager.issue, Manager.emit,
    Manager.count]

theorem writeNear_pending : (s.dcm.writeNear e now).pendingNearDispatches
    = s.dcm.pendingNearDispatches := by
  simp only [Manager.writeNear, Manager.issue, Manager.emit, Manager.count]

theorem write_pending :
    ((s.onDcm (·.writeNear e now)).queueNear pkt true).dcm.pendingNearDispatches
      = s.dcm.pendingNearDispatches ++ [⟨pkt, true⟩] := by
  simp only [Sys.queueNear, Sys.onDcm_dcm, Manager.count, writeNear_pending]

end Write

theorem admitEntry_pending (m : Manager) (pkt : Packet) (w : Bool) (arr : Option Nat) (now : Nat) :
    (m.admitEntry pkt w arr now).pendingNearDispatches = m.pendingNearDispatches := rfl

theorem admitEntry_tags (m : Manager) (pkt : Packet) (w : Bool) (arr : Option Nat) (now : Nat) :
    ((m.admitEntry pkt w arr now).tagMetadataStore (returnIndexDC pkt.address)).validLine = true ∧
      ((m.admitEntry pkt w arr now).tagMetadataStore (returnIndexDC pkt.address)).tagDC
        = returnTagDC pkt.address := by
  simp only [Manager.admitEntry, Manager.chooseInitialState, Manager.classifyAndInstall,
    Manager.install, Manager.classify, Manager.newEntry, Manager.emit, Manager.count,
    Function.update_self, and_self]

/-- Behind a packet that pends, a write joins the queue and is done. -/
theorem driveState_queued {s : Sys} {a : Nat} {e : OrbEntry} (hl : s.dcm.orb.lookup a = some e)
    (hs : e.state = .locMemWrite) (hpend : s.dcm.pendingNearDispatches ≠ []) :
    s.exec (.driveState a)
      = .ok ((s.onDcm (·.writeNear e (s.now e.pkt.cpu))).queueNear
          (Manager.subRequest e .writeback (s.now e.pkt.cpu)) true, [.completeRequest a 0]) := by
  have hfull : (s.onDcm (·.writeNear e (s.now e.pkt.cpu))).dcm.pendingNearDispatches.isEmpty
      = false := by
    rw [Sys.onDcm_dcm, writeNear_pending]
    simpa using hpend
  simp only [Sys.exec, Sys.driveState, hl, hs, Sys.dispatchToNear, hfull]
  rfl

/-- Near memory is held up, and a line is cached that no request works on. -/
structure Jammed (a : Nat) (s : Sys) : Prop where
  live : s.Live
  policy : s.dcm.policy ≠ .baselineCascadeLake
  valid : (s.dcm.tagMetadataStore (returnIndexDC a)).validLine = true
  tag : (s.dcm.tagMetadataStore (returnIndexDC a)).tagDC = returnTagDC a
  free : s.dcm.checkConflictInORB (returnIndexDC a) = false
  entry : s.dcm.orb.lookup a = none
  waiter : s.dcm.waiter? (returnIndexDC a) = none
  wb : s.dcm.wb.length < dcmWbPressureThreshold
  orb : s.dcm.orbSize < dcmOrbMaxSize
  pending : s.dcm.pendingNearDispatches ≠ []

namespace Jammed

variable {s : Sys} {a : Nat}

theorem fits (h : Jammed a s) (pkt : Packet) (ha : pkt.address = a) :
    Op.fits (.addWq pkt) s = true := by
  have hbyp : ¬ s.dcm.bypassDcache = true := by simp [h.live.noBypass]
  have horb := h.orb
  simp only [Op.fits, Op.request?, Sys.getOccupancy, Sys.getSize, if_neg hbyp, ha, h.free,
    Sys.gateType, if_neg (not_le.mpr h.wb)]
  simp
  omega

/-- The write is admitted past its tag check. -/
theorem admitted (h : Jammed a s) (pkt : Packet) (ha : pkt.address = a) (now : Nat) :
    ((s.dcm.emit (.accepted true pkt)).admittedEntry pkt true none now).state = .locMemWrite := by
  subst ha
  have hvalid := h.valid
  have htag := h.tag
  have hpolicy := h.policy
  unfold Manager.admittedEntry Manager.initialChoice Manager.isWriteHit Manager.classify
    Manager.newEntry Manager.emit
  cases hp : s.dcm.policy <;> simp_all

/-- With the ORB as it was and the line in its slot, near memory stays held
up. -/
theorem passing {s' : Sys} (h : Jammed a s) (hpass : Passing s s')
    (horb : s'.dcm.orb = s.dcm.orb)
    (hslot : (s'.dcm.tagMetadataStore (returnIndexDC a)).validLine = true ∧
      (s'.dcm.tagMetadataStore (returnIndexDC a)).tagDC = returnTagDC a)
    (hpend : s'.dcm.pendingNearDispatches ≠ []) : Jammed a s' where
  live := ⟨hpass.warm ▸ h.live.warm, hpass.bypass.trans h.live.noBypass,
    hpass.reads.trans h.live.noBypassReads⟩
  policy := hpass.policy ▸ h.policy
  valid := hslot.1
  tag := hslot.2
  free := by
    rw [Manager.checkConflictInORB, Manager.entries, horb]
    exact h.free
  entry := horb ▸ h.entry
  waiter := by
    rw [Manager.waiter?, hpass.crb]
    exact h.waiter
  wb := hpass.wb ▸ h.wb
  orb := by
    rw [Manager.orbSize, horb]
    exact h.orb
  pending := hpend

/-- **A write is done at once** and leaves one more packet pending. -/
theorem step (h : Jammed a s) (pkt : Packet) (ha : pkt.address = a)
    {allow : Op → Prop} {s₀ : Sys} (hallow : allow (.addWq pkt))
    (hr : Reaches (machine.gated Op.fits) allow s₀ ([], s)) :
    ∃ s', Reaches (machine.gated Op.fits) allow s₀ ([], s') ∧ Jammed a s' ∧
      s'.dcm.pendingNearDispatches.length = s.dcm.pendingNearDispatches.length + 1 := by
  subst ha
  have hwarm : ¬ s.allWarmupComplete < numCpus := not_lt.mpr h.live.warm
  have hbyp : ¬ s.dcm.bypassDcache = true := by simp [h.live.noBypass]
  have hfree : ¬ s.dcm.checkConflictInORB (returnIndexDC pkt.address) = true := by simp [h.free]
  obtain ⟨e, he⟩ : ∃ e, (s.dcm.emit (.accepted true pkt)).admittedEntry pkt true none
    (s.now pkt.cpu) = e := ⟨_, rfl⟩
  have hstate : e.state = .locMemWrite := he ▸ h.admitted pkt rfl _
  have haddr : e.pkt.address = pkt.address := by rw [← he]; rfl
  generalize hs₁ : s.onDcm (fun m =>
    (m.emit (.accepted true pkt)).admitEntry pkt true none (s.now pkt.cpu)) = s₁
  have henter : (machine.gated Op.fits).enter (.addWq pkt) s = (s₁, [.driveState pkt.address]) := by
    rw [Worklist.Machine.gated]
    show (if Op.fits (.addWq pkt) s = true then s.enter (.addWq pkt) else (s, [])) = _
    rw [if_pos (h.fits pkt rfl)]
    simp only [Sys.enter, Sys.addWq, if_neg hwarm, if_neg hbyp, Sys.admission, if_neg hfree,
      if_neg (not_le.mpr h.wb), if_neg (not_le.mpr h.orb), Sys.admitRequest]
    rw [← hs₁]
    rfl
  have hpass₁ : Passing s s₁ := by
    rw [← hs₁]
    exact ⟨rfl, Manager.admitEntry_bypassDcache .., Manager.admitEntry_bypassOutstandingReads ..,
      admitEntry_policy .., Manager.admitEntry_crb .., Manager.admitEntry_wb ..⟩
  have hl₁ : s₁.dcm.orb.lookup pkt.address = some e := by
    rw [← hs₁, ← he]
    exact AList.lookup_insert _
  have hpend₁ : s₁.dcm.pendingNearDispatches = s.dcm.pendingNearDispatches := by
    rw [← hs₁, Sys.onDcm_dcm, admitEntry_pending]
    rfl
  have hdrive := driveState_queued hl₁ hstate (hpend₁ ▸ h.pending)
  generalize hs₂ : (s₁.onDcm (·.writeNear e (s₁.now e.pkt.cpu))).queueNear
    (Manager.subRequest e .writeback (s₁.now e.pkt.cpu)) true = s₂ at hdrive
  have hpass₂ : Passing s₁ s₂ := by
    rw [← hs₂]
    exact .write ..
  generalize hf : { e with state := .waitingLocMemWriteResp, issued := true } = f
  have horb₂ : s₂.dcm.orb = s₁.dcm.orb.insert pkt.address f := by
    rw [← hs₂, write_orb, hf, haddr]
  have hl₂ : s₂.dcm.orb.lookup pkt.address = some f := by
    rw [horb₂]
    exact AList.lookup_insert _
  generalize hs₃ : s₂.onDcm (·.retire f 0 (s₂.now f.pkt.cpu)) = s₃
  have hcomplete : s₂.exec (.completeRequest pkt.address 0)
      = .ok (s₃, [.promoteFromCRB (returnIndexDC pkt.address)]) := by
    have hindex : f.indexDC = returnIndexDC pkt.address := by rw [← hf, ← he]; rfl
    simp only [Sys.exec, Sys.completeRequest, hl₂, Sys.completeEntry, hs₃, hindex]
  have hpass : Passing s s₃ := by
    refine (hpass₁.trans hpass₂).trans ?_
    rw [← hs₃]
    refine ⟨rfl, ?_, ?_, ?_, Manager.retire_crb .., Manager.retire_wb ..⟩ <;>
      rw [Sys.onDcm_dcm, Manager.retire_eq]
  have horb : s₃.dcm.orb = s.dcm.orb := by
    have hf' : f.pkt.address = pkt.address := by rw [← hf, ← haddr]
    have horb₁ : s₁.dcm.orb = s.dcm.orb.insert pkt.address e := by
      rw [← hs₁, ← he]
      exact Manager.admitEntry_orb ..
    rw [← hs₃, Sys.onDcm_dcm, Manager.retire_orb, hf', horb₂, horb₁, AList.insert_insert,
      Keyed.erase_insert h.entry]
  have htags : s₃.dcm.tagMetadataStore = s₁.dcm.tagMetadataStore := by
    rw [← hs₃, Sys.onDcm_dcm, Manager.retire_tagMetadataStore, ← hs₂, write_tags]
  have hslot : (s₁.dcm.tagMetadataStore (returnIndexDC pkt.address)).validLine = true ∧
      (s₁.dcm.tagMetadataStore (returnIndexDC pkt.address)).tagDC = returnTagDC pkt.address := by
    rw [← hs₁]
    exact admitEntry_tags ..
  have hpend : s₃.dcm.pendingNearDispatches = s.dcm.pendingNearDispatches
      ++ [⟨Manager.subRequest e .writeback (s₁.now e.pkt.cpu), true⟩] := by
    rw [← hpend₁, ← hs₃, Sys.onDcm_dcm, Manager.retire_eq]
    show s₂.dcm.pendingNearDispatches = _
    rw [← hs₂, write_pending]
  have hpromote : s₃.exec (.promoteFromCRB (returnIndexDC pkt.address)) = .ok (s₃, []) := by
    have hwaiter : s₃.dcm.waiter? (returnIndexDC pkt.address) = none := by
      rw [Manager.waiter?, hpass.crb]
      exact h.waiter
    simp only [Sys.exec, Sys.promoteFromCRB, hwaiter]
  have hr₁ := hr.enter hallow trivial
  rw [henter] at hr₁
  refine ⟨s₃, ((hr₁.call trivial hdrive).call trivial hcomplete).call trivial hpromote, ?_, ?_⟩
  · refine h.passing hpass horb (htags ▸ hslot) ?_
    rw [hpend]
    simp
  · rw [hpend, List.length_append]
    rfl

/-- As many packets pend as one likes. -/
theorem pile (h : Jammed a s) (pkt : Packet) (ha : pkt.address = a) {allow : Op → Prop} {s₀ : Sys}
    (hallow : allow (.addWq pkt)) (hr : Reaches (machine.gated Op.fits) allow s₀ ([], s))
    (n : Nat) :
    ∃ s', Reaches (machine.gated Op.fits) allow s₀ ([], s') ∧ Jammed a s' ∧
      n ≤ s'.dcm.pendingNearDispatches.length := by
  induction n with
  | zero => exact ⟨s, hr, h, Nat.zero_le _⟩
  | succ n ih =>
      obtain ⟨s₁, hr₁, h₁, hlen₁⟩ := ih
      obtain ⟨s₂, hr₂, h₂, hlen₂⟩ := h₁.step pkt ha hallow hr₁
      exact ⟨s₂, hr₂, h₂, by omega⟩

end Jammed

/-- `Jammed`, evaluated. -/
def jammed (a : Nat) (s : Sys) : Bool :=
  decide (numCpus ≤ s.allWarmupComplete) && !s.dcm.bypassDcache
    && decide (s.dcm.bypassOutstandingReads = 0) && decide (s.dcm.policy ≠ .baselineCascadeLake)
    && (s.dcm.tagMetadataStore (returnIndexDC a)).validLine
    && decide ((s.dcm.tagMetadataStore (returnIndexDC a)).tagDC = returnTagDC a)
    && !s.dcm.checkConflictInORB (returnIndexDC a) && (s.dcm.orb.lookup a).isNone
    && (s.dcm.waiter? (returnIndexDC a)).isNone && decide (s.dcm.wb.length < dcmWbPressureThreshold)
    && decide (s.dcm.orbSize < dcmOrbMaxSize) && !s.dcm.pendingNearDispatches.isEmpty

theorem jammed_sound {a : Nat} {s : Sys} (h : jammed a s = true) : Jammed a s := by
  simp only [jammed, Bool.and_eq_true, decide_eq_true_eq, Bool.not_eq_true',
    Option.isNone_iff_eq_none, List.isEmpty_eq_false_iff] at h
  obtain ⟨⟨⟨⟨⟨⟨⟨⟨⟨⟨⟨hwarm, hbypass⟩, hreads⟩, hpolicy⟩, hvalid⟩, htag⟩, hfree⟩, hentry⟩, hwaiter⟩,
    hwb⟩, horb⟩, hpend⟩ := h
  exact ⟨⟨hwarm, hbypass, hreads⟩, hpolicy, hvalid, htag, hfree, hentry, hwaiter, hwb, horb, hpend⟩

/-- Under a policy that skips tag checks every length is reached. -/
theorem pile_of_policy {pol : Policy} (hpol : pol ≠ .baselineCascadeLake) (n : Nat) :
    ∃ s, Reaches (machine.gated Op.fits) (Op.Steady pol) (.cold pol 0) ([], s) ∧
      n ≤ s.dcm.pendingNearDispatches.length := by
  obtain ⟨s, hs, hjam⟩ := Option.map_eq_some_iff.mp (show (Worklist.drive
    (machine.gated Op.fits) 60 jamOps (.cold pol 0)).map (jammed 8) = some true from by
      cases pol with
      | baselineCascadeLake => exact absurd rfl hpol
      | bearWrOpt => decide +kernel
      | oracle => decide +kernel)
  have hr : Reaches (machine.gated Op.fits) (Op.Steady pol) (.cold pol 0) ([], s) :=
    Worklist.drive_reaches (jamOps_steady pol) .refl hs
  obtain ⟨s', hr', -, hlen⟩ := (jammed_sound hjam).pile (.readOf 8) rfl
    (jamOps_steady pol _ (by simp [jamOps])) hr n
  exact ⟨s', hr', hlen⟩

/-- No bound holds under the policies that skip tag checks. -/
theorem near_backlog_unbounded :
    (¬ ∃ bound, ∀ s, Reaches (machine.gated Op.fits) (Op.Steady .bearWrOpt) (.cold .bearWrOpt 0)
      ([], s) → s.dcm.pendingNearDispatches.length ≤ bound) ∧
    ¬ ∃ bound, ∀ s, Reaches (machine.gated Op.fits) (Op.Steady .oracle) (.cold .oracle 0)
      ([], s) → s.dcm.pendingNearDispatches.length ≤ bound := by
  constructor
  · rintro ⟨bound, hbound⟩
    obtain ⟨s, hr, hlen⟩ := pile_of_policy (show Policy.bearWrOpt ≠ _ by decide) (bound + 1)
    exact absurd (hbound s hr) (Nat.not_le.mpr hlen)
  · rintro ⟨bound, hbound⟩
    obtain ⟨s, hr, hlen⟩ := pile_of_policy (show Policy.oracle ≠ _ by decide) (bound + 1)
    exact absurd (hbound s hr) (Nat.not_le.mpr hlen)

end DramCache
