import DramCache.Ledger
import DramCache.Traffic

/-!
# The published counters

The identities between the counters of `DCM_STATS` and the queues, each
a ledger: what one side counts more than the other is what the live
entries still owe. One lemma says for every identity what each piece of
the manager books, and the ledger rules carry it through every run.
-/

namespace DramCache

open Worklist (ReachesIf Reaches)

/-- The identities, named after what they split up. -/
inductive Identity where
  | kinds
  | outcomes
  | tagChecks
  | completions
  | missAges
  | missKinds
  | fills
  | shortcuts
  | conflicts
  | writeBacks
  | drains
  | farWrites
  | nearReads
  | farReads
  | nearWrites
  | victims
  | sentToNear
  | sentToFar
deriving DecidableEq

namespace Identity

/-- The left side of an identity less its right side, on the counters. -/
def excess (st : Stats) : Identity → ℤ
  | kinds => st.totalRequests - st.readRequests - st.writeRequests
  | outcomes => st.totalRequests - st.numTotHits - st.numTotMisses
  | tagChecks => st.totalRequests - st.localReads - st.localTagCheckReadsAvoided
  | completions => st.totalRequests - st.completedReadsToLLC - st.completedWrites
  | missAges => st.numTotMisses - st.numColdMisses - st.numHotMisses
  | missKinds => st.numTotMisses - st.numRdMissClean - st.numRdMissDirty - st.numWrMissClean
      - st.numWrMissDirty
  | fills => st.numTotMisses - st.cacheFills
  | shortcuts => st.localTagCheckReadsAvoided - st.writeHitOptApplied - st.cleanMissOptApplied
  | conflicts => st.crbInserts - st.crbPromotions
  | writeBacks => st.wbInsertions - st.wbDrains
  | drains => st.wbDrains - st.farWrites
  | farWrites => st.farWrites - st.numWrBacks
  | nearReads => st.localReads - st.completedFromNear
  | farReads => st.farReads - st.completedFromFar
  | nearWrites => st.localWrites - st.completedWrites - st.completedFromFar
  | victims => st.numRdMissDirty + st.numWrMissDirty - st.wbInsertions
  | sentToNear => st.sentToNear - st.localReads - st.localWrites
  | sentToFar => st.sentToFar - st.farReads

/-- The part of the right side that is the length of a queue. -/
def queued (m : Manager) : Identity → ℤ
  | conflicts => m.crb.length
  | writeBacks => m.wb.length
  | _ => 0

def balance (t : Identity) (m : Manager) : ℤ := t.excess m.stats - t.queued m

/-- What a live entry makes the left side exceed the right side by. -/
def owes (e : OrbEntry) : Identity → Bool
  | tagChecks => decide (e.state = .locMemRead)
  | completions => true
  | nearReads => decide (e.state = .waitingLocMemReadResp)
  | farReads => decide (e.state = .waitingFarMemReadResp)
  | nearWrites => decide (e.state = .waitingLocMemWriteResp)
  | victims => e.handleDirtyLine
      && (decide (e.state = .locMemRead) || decide (e.state = .waitingLocMemReadResp))
  | _ => false

/-- A fetched line is counted as completed before its fill is counted. -/
def ledger (t : Identity) : Ledger where
  balance := t.balance
  owes e := (t.owes e).toNat
  fill _ _ := if t = nearWrites then -1 else 0

/-! ## What each piece books -/

variable (t : Identity) (m : Manager) (e : OrbEntry) (st : Stats)

theorem excess_countRequest (w : Bool) : t.excess (Manager.countRequest w st) = t.excess st
    + if t = outcomes ∨ t = tagChecks ∨ t = completions then 1 else 0 := by
  cases t <;> cases w <;> simp [excess, Manager.countRequest] <;> omega

theorem excess_countClass (v d h w : Bool) : t.excess (Manager.countClass v d h w st)
    = t.excess st - (if t = outcomes then 1 else 0)
      + if t = victims then ((v && d && !h).toNat : ℤ) else 0 := by
  cases v <;> cases d <;> cases h <;> cases w <;> cases t <;>
    simp [excess, Manager.countClass] <;> omega

theorem excess_countOpportunity : t.excess (Manager.countOpportunity e st) = t.excess st := by
  unfold Manager.countOpportunity
  cases Manager.isWriteHit e <;> cases Manager.isCleanMiss e <;> cases e.pol <;> cases t <;> rfl

theorem excess_initialChoice : t.excess ((Manager.initialChoice e).2 st) = t.excess st
    - if t = tagChecks ∧ (Manager.initialChoice e).1 ≠ .locMemRead then 1 else 0 := by
  unfold Manager.initialChoice
  split
  · (cases t <;> simp [excess]); omega
  · split
    · (cases t <;> simp [excess]); omega
    · split
      · cases e.isWriteReq <;> cases t <;> simp [excess] <;> omega
      · cases t <;> simp [excess]

/-- An admitted request owes what its admission books. -/
theorem balance_admitEntry (pkt : Packet) (w : Bool) (arr : Option Nat) (now : Nat) :
    t.balance (m.admitEntry pkt w arr now)
      = t.balance m + t.ledger.owes (m.admittedEntry pkt w arr now) := by
  have hstats : t.excess (m.admitEntry pkt w arr now).stats = t.excess m.stats
      + (if t = outcomes ∨ t = tagChecks ∨ t = completions then 1 else 0)
      - (if t = outcomes then 1 else 0)
      + (if t = victims then ((m.admittedEntry pkt w arr now).handleDirtyLine.toNat : ℤ) else 0)
      - if t = tagChecks ∧ (m.admittedEntry pkt w arr now).state ≠ .locMemRead then 1 else 0 := by
    rw [(m.admittedEntry_evicts pkt w arr now).1, Manager.admitEntry_stats, Manager.admitStats,
      excess_initialChoice, excess_countOpportunity, excess_countClass, excess_countRequest]
    rfl
  have hqueued : t.queued (m.admitEntry pkt w arr now) = t.queued m := by cases t <;> rfl
  have hdrive : (m.admittedEntry pkt w arr now).state.drivable = true :=
    Manager.initialChoice_drivable _
  have hevict : (m.admittedEntry pkt w arr now).handleDirtyLine = true →
      (m.admittedEntry pkt w arr now).state = .locMemRead := fun h =>
    ((m.admittedEntry_evicts pkt w arr now).2 h).2
  unfold balance
  rw [hstats, hqueued]
  generalize m.admittedEntry pkt w arr now = e at hdrive hevict ⊢
  cases t with
  | tagChecks => (by_cases hs : e.state = .locMemRead <;> simp [ledger, owes, hs]); omega
  | victims =>
      cases hd : e.handleDirtyLine
      · simp [ledger, owes, hd]
      · simp [ledger, owes, hd, hevict hd]
        omega
  | completions => simp [ledger, owes]; omega
  | nearReads => cases hs : e.state <;> simp_all [ledger, owes, ReqState.drivable]
  | farReads => cases hs : e.state <;> simp_all [ledger, owes, ReqState.drivable]
  | nearWrites => cases hs : e.state <;> simp_all [ledger, owes, ReqState.drivable]
  | _ => simp [ledger, owes]

/-- Counters that no identity is about leave every balance alone. -/
theorem balance_still {m m' : Manager} (hst : m'.stats = m.stats) (hcrb : m'.crb = m.crb)
    (hwb : m'.wb = m.wb) : t.balance m' = t.balance m := by
  unfold balance
  rw [hst]
  cases t <;> simp [queued, hcrb, hwb]

theorem excess_countRetired : t.excess (Manager.countRetired e st) = t.excess st
    - if t = completions ∨ t = nearWrites ∧ e.isWriteReq = true then 1 else 0 := by
  unfold Manager.countRetired
  cases e.isWriteReq <;> cases t <;> simp [excess] <;> omega

theorem balance_retire (lat now : Nat) : t.balance (m.retire e lat now) = t.balance m
    - if t = completions ∨ t = nearWrites ∧ e.isWriteReq = true then 1 else 0 := by
  have hqueued : t.queued (m.retire e lat now) = t.queued m := by cases t <;> simp [queued]
  unfold balance
  rw [hqueued, Manager.retire_stats, excess_countRetired]
  omega

theorem balance_nearAnswered (now : Nat) : t.balance (m.nearAnswered e now) = t.balance m
    - (if t = nearReads then 1 else 0)
    - if t = victims ∧ e.handleDirtyLine = true then 1 else 0 := by
  unfold Manager.nearAnswered
  cases e.handleDirtyLine <;> cases t <;>
    simp [balance, excess, queued, Manager.count, Manager.pushDirtyWriteBack, Manager.emit] <;>
    omega

theorem fair : t.ledger.Fair where
  still hst _ hcrb hwb := t.balance_still hst hcrb hwb
  aside ha := by
    obtain ⟨r, w, u, hst⟩ := ha.stats
    show t.balance _ = t.balance _
    unfold balance
    rw [hst]
    cases t <;> simp [queued, excess, ha.crb, ha.wb]
  untracked m side a := t.balance_still rfl rfl rfl
  stray m side e := t.balance_still rfl rfl rfl
  bypassed m pkt now := by cases t <;> rfl
  nearEnter m side now e st hs hst := by
    have hbal := t.balance_nearAnswered (m.emit (.answered side e)) e now
    have hanswered : t.balance (m.emit (.answered side e)) = t.balance m :=
      t.balance_still rfl rfl rfl
    have henter : t.balance (((m.emit (.answered side e)).nearAnswered e now).enterState e st)
        = t.balance ((m.emit (.answered side e)).nearAnswered e now) :=
      t.balance_still rfl rfl rfl
    show t.balance _ + ((t.owes e).toNat : ℤ)
      = t.balance m + ((t.owes { e with state := st }).toNat : ℤ)
    rw [henter, hbal, hanswered]
    rcases hst with ⟨rfl, -⟩ | ⟨rfl, -⟩ <;> cases hd : e.handleDirtyLine <;> cases t <;>
      simp [owes, hs, hd]
  nearHit m side lat now e hs hw hh := by
    have hbal := t.balance_nearAnswered (m.emit (.answered side e)) e now
    have hanswered : t.balance (m.emit (.answered side e)) = t.balance m :=
      t.balance_still rfl rfl rfl
    show t.balance _ + ((t.owes e).toNat : ℤ) = t.balance m
    rw [balance_retire, hbal, hanswered]
    cases hd : e.handleDirtyLine <;> cases t <;> simp [owes, hs, hd, hw]
  farDone m side lat now e hs hw hh := by
    have hfar : t.balance (m.emit (.answered side e)).farAnswered
        = t.balance m - if t = farReads ∨ t = nearWrites then 1 else 0 := by
      (cases t <;> simp [balance, excess, queued, Manager.farAnswered, Manager.count,
        Manager.emit]) <;> omega
    show t.balance _ + ((t.owes e).toNat : ℤ) = t.balance m + if t = nearWrites then -1 else 0
    rw [balance_retire, hfar]
    (cases t <;> simp [owes, hs, hw]); omega
  readNear m now e hs := by
    (cases t <;> simp [ledger, balance, excess, queued, owes, Manager.readNear, Manager.issue,
      Manager.count, Manager.emit, hs]) <;> omega
  readFar m now e hs hw hh := by
    (cases t <;> simp [ledger, balance, excess, queued, owes, Manager.readFar, Manager.issue,
      Manager.count, Manager.emit, hs]); omega
  writeNear m now e hs hw := by
    (cases t <;> simp [ledger, balance, excess, queued, owes, Manager.writeNear, Manager.issue,
      Manager.count, Manager.emit, hs]) <;> omega
  complete m lat now e hs hw := by
    show t.balance _ + ((t.owes e).toNat : ℤ) = t.balance m
    rw [balance_retire]
    cases t <;> simp [owes, hs, hw]
  promote m i now c hw := by
    have htake : t.balance (m.takeWaiter i) = t.balance m := by
      have hlen := (Keyed.perm_of_find hw).length_eq
      (cases t <;> simp [balance, excess, queued, Manager.takeWaiter, Manager.count, hlen])
      omega
    exact (t.balance_admitEntry ..).trans (congrArg (· + _) htake)
  flag e := by cases t <;> rfl
  fillNear m rid i pkt := by
    (cases t <;> simp [ledger, balance, excess, queued, Manager.fillNear, Manager.count,
      Manager.emit]) <;> omega
  drained hwb := by
    (cases t <;> simp [ledger, balance, excess, queued, Manager.drained, Manager.count,
      Manager.emit, hwb]); omega
  responses m clk := by
    obtain ⟨due, rest, -, hr⟩ := Manager.releaseResponses_eq clk m.pendingResponses m
    rw [Manager.processPendingResponses, hr]
    exact t.balance_still rfl rfl rfl
  samples m := by cases t <;> rfl
  refused m a b c := by cases t <;> rfl
  queued m pkt w now := by
    (cases t <;> simp [ledger, balance, excess, Identity.queued, Manager.waitInCRB,
      Manager.count, Manager.emit]); omega
  admitted m pkt w now := by
    have hemit : t.balance (m.emit (.accepted w pkt)) = t.balance m :=
      t.balance_still rfl rfl rfl
    exact (t.balance_admitEntry ..).trans (congrArg (· + _) hemit)

end Identity

/-! ## At a call boundary -/

/-- The live entries with a property. -/
def Manager.entriesWith (m : Manager) (p : OrbEntry → Bool) : Nat := m.entries.countP p

/-- Waiting for a response of a side. -/
def OrbEntry.awaits (side : Side) (e : OrbEntry) : Bool :=
  match side with
  | .near => decide (e.state = .waitingLocMemReadResp)
  | .far => decide (e.state = .waitingFarMemReadResp)

/-- The published counters agree with each other and with the queues. -/
structure Manager.CountersAgree (m : Manager) : Prop where
  kinds : m.stats.totalRequests = m.stats.readRequests + m.stats.writeRequests
  outcomes : m.stats.totalRequests = m.stats.numTotHits + m.stats.numTotMisses
  tagChecks : m.stats.totalRequests = m.stats.localReads + m.stats.localTagCheckReadsAvoided
  completions : m.stats.totalRequests
    = m.stats.completedReadsToLLC + m.stats.completedWrites + m.orbSize
  missAges : m.stats.numTotMisses = m.stats.numColdMisses + m.stats.numHotMisses
  missKinds : m.stats.numTotMisses = m.stats.numRdMissClean + m.stats.numRdMissDirty
    + m.stats.numWrMissClean + m.stats.numWrMissDirty
  fills : m.stats.numTotMisses = m.stats.cacheFills
  shortcuts : m.stats.localTagCheckReadsAvoided
    = m.stats.writeHitOptApplied + m.stats.cleanMissOptApplied
  conflicts : m.stats.crbInserts = m.stats.crbPromotions + m.crb.length
  writeBacks : m.stats.wbInsertions = m.stats.wbDrains + m.wb.length
  drains : m.stats.wbDrains = m.stats.farWrites
  farWrites : m.stats.farWrites = m.stats.numWrBacks
  nearReads : m.stats.localReads
    = m.stats.completedFromNear + m.entriesWith (OrbEntry.awaits .near)
  farReads : m.stats.farReads
    = m.stats.completedFromFar + m.entriesWith (OrbEntry.awaits .far)
  nearWrites : m.stats.localWrites = m.stats.completedWrites + m.stats.completedFromFar
  victims : m.stats.numRdMissDirty + m.stats.numWrMissDirty = m.stats.wbInsertions
    + m.entriesWith fun e => e.handleDirtyLine && e.awaits .near

namespace Identity

/-- At a call boundary every live entry waits for a response. -/
theorem owed_calm {m : Manager} (hinv : OrbInv .calm m) (t : Identity)
    {p : OrbEntry → Bool} (hp : ∀ e, e.state.waiting = true → t.owes e = p e) :
    Keyed.total t.ledger.owes m.orb = m.entriesWith p := by
  have hcount : Keyed.total t.ledger.owes m.orb = ((m.entriesWith t.owes : Nat) : ℤ) :=
    Keyed.total_toNat ..
  rw [hcount]
  refine congrArg Nat.cast (List.countP_congr fun e he => ?_)
  obtain ⟨a, hl⟩ := Keyed.mem_values.mp (show e ∈ Keyed.values m.orb from he)
  rw [hp e (hinv.rest hl (by simp [Ctl.focus]))]

theorem agree {m : Manager} (hinv : OrbInv .calm m) (h : ∀ t : Identity, t.ledger.Kept [] m) :
    m.CountersAgree := by
  have hlive : ∀ (t : Identity) (p : OrbEntry → Bool),
      (∀ e, e.state.waiting = true → t.owes e = p e) →
      t.excess m.stats - t.queued m = m.entriesWith p := by
    intro t p hp
    have hkept : t.excess m.stats - t.queued m = Keyed.total t.ledger.owes m.orb + 0 := h t
    rw [hkept, owed_calm hinv t hp, Int.add_zero]
  have hnone : ∀ t : Identity, (∀ e, e.state.waiting = true → t.owes e = false) →
      t.excess m.stats - t.queued m = 0 := by
    intro t ht
    rw [hlive t (fun _ => false) ht, Manager.entriesWith, List.countP_false]
    rfl
  have hwaiting : ∀ {e : OrbEntry} {st : ReqState}, e.state.waiting = true →
      st.waiting = false → decide (e.state = st) = false := by
    rintro e st he hst
    refine decide_eq_false fun hs => ?_
    rw [hs, hst] at he
    cases he
  have horb : m.entriesWith (fun _ => true) = m.orbSize := by
    simp [Manager.entriesWith, Manager.orbSize, Manager.entries]
  constructor
  case kinds => have := hnone .kinds fun _ _ => rfl; simp only [excess, queued] at this; omega
  case outcomes =>
    have := hnone .outcomes fun _ _ => rfl
    simp only [excess, queued] at this
    omega
  case tagChecks =>
    have := hnone .tagChecks fun _ he => hwaiting he rfl
    simp only [excess, queued] at this
    omega
  case completions =>
    have := hlive .completions _ fun _ _ => rfl
    simp only [excess, queued, owes, horb] at this
    omega
  case missAges =>
    have := hnone .missAges fun _ _ => rfl
    simp only [excess, queued] at this
    omega
  case missKinds =>
    have := hnone .missKinds fun _ _ => rfl
    simp only [excess, queued] at this
    omega
  case fills => have := hnone .fills fun _ _ => rfl; simp only [excess, queued] at this; omega
  case shortcuts =>
    have := hnone .shortcuts fun _ _ => rfl
    simp only [excess, queued] at this
    omega
  case conflicts =>
    have := hnone .conflicts fun _ _ => rfl
    simp only [excess, queued] at this
    omega
  case writeBacks =>
    have := hnone .writeBacks fun _ _ => rfl
    simp only [excess, queued] at this
    omega
  case drains => have := hnone .drains fun _ _ => rfl; simp only [excess, queued] at this; omega
  case farWrites =>
    have := hnone .farWrites fun _ _ => rfl
    simp only [excess, queued] at this
    omega
  case nearReads =>
    have := hlive .nearReads (OrbEntry.awaits .near) fun _ _ => rfl
    simp only [excess, queued] at this
    omega
  case farReads =>
    have := hlive .farReads (OrbEntry.awaits .far) fun _ _ => rfl
    simp only [excess, queued] at this
    omega
  case nearWrites =>
    have := hnone .nearWrites fun _ he => hwaiting he rfl
    simp only [excess, queued] at this
    omega
  case victims =>
    have := hlive .victims (fun e => e.handleDirtyLine && e.awaits .near) fun e he => by
      rw [owes, hwaiting he rfl]
      rfl
    simp only [excess, queued] at this
    omega

end Identity

/-! ## Runs -/

/-- `resetROIStats` is called only when nothing is outstanding. -/
def Op.resetWhenDrained (op : Op) (s : Sys) : Bool :=
  match op with
  | .resetROIStats => decide s.Drained
  | _ => true

theorem Identity.reset (t : Identity) {s : Sys} (hd : s.Drained) :
    t.ledger.Kept [] s.dcm.resetROIStats.core := by
  have horb : s.dcm.resetROIStats.core.orb = ∅ := hd.orb
  unfold Ledger.Kept
  rw [horb, Keyed.total_empty]
  cases t <;> simp [ledger, balance, excess, queued, Manager.resetROIStats, Manager.core,
    Stats.core, hd.crb, hd.wb]

theorem Identity.fresh (t : Identity) {s : Sys} (h : s.Fresh) (hz : s.dcm.stats.Zero) :
    t.ledger.Kept [] s.dcm.core := by
  have horb : s.dcm.core.orb = ∅ := h.orb
  unfold Ledger.Kept
  rw [horb, Keyed.total_empty]
  show t.excess s.dcm.stats.core - _ = _
  rw [hz]
  cases t <;> simp [excess, queued, Manager.core, Stats.core, h.crb, h.wb]

section Run

variable {allow : Op → Prop} {s₀ : Sys} {x : Worklist.Config Sys Call}

theorem identities_of_reaches (hroi : ∀ op, allow op → op.Roi) (h₀ : s₀.Fresh)
    (hz : s₀.dcm.stats.Zero)
    (h : Reaches (machine.gated Op.resetWhenDrained) allow s₀ x) :
    Reaches machine allow s₀ x ∧ ∀ t : Identity, t.ledger.Kept x.1 x.2.dcm.core := by
  have hstart : ∀ t : Identity, t.ledger.Kept [] s₀.dcm.core := fun t => t.fresh h₀ hz
  refine ReachesIf.gated_invariant (M := machine)
    (P := fun x => ∀ t : Identity, t.ledger.Kept x.1 x.2.dcm.core) hstart ?_ ?_ h
  · intro op s ha hg hr hp t
    by_cases hop : op = .resetROIStats
    · subst hop
      exact t.reset (of_decide_eq_true hg)
    · exact t.fair.enter (Sys.enter_frontEnter (live_of_reaches hroi h₀.live hr) (hroi op ha))
        hop (orbInv_of_reaches hroi h₀ hr).2 (hp t)
  · intro c K s s' ks _ hr hp he t
    exact t.fair.step (Sys.exec_frontStep he) (orbInv_of_reaches hroi h₀ hr).2 (hp t)

/-- **The accounting identities.** At every call boundary the published
counters agree with each other and with the live queues, in every run
whose counters are reset only when nothing is outstanding. -/
theorem counters_agree (hroi : ∀ op, allow op → op.Roi) (h₀ : s₀.Fresh)
    (hz : s₀.dcm.stats.Zero) {s : Sys}
    (h : Reaches (machine.gated Op.resetWhenDrained) allow s₀ ([], s)) :
    s.dcm.CountersAgree := by
  obtain ⟨hr, hkept⟩ := identities_of_reaches hroi h₀ hz h
  have hinv : OrbInv .calm s.dcm.core := (orbInv_of_reaches hroi h₀ hr).2
  obtain ⟨h₁, h₂, h₃, h₄, h₅, h₆, h₇, h₈, h₉, h₁₀, h₁₁, h₁₂, h₁₃, h₁₄, h₁₅, h₁₆⟩ :=
    Identity.agree hinv hkept
  exact ⟨h₁, h₂, h₃, h₄, h₅, h₆, h₇, h₈, h₉, h₁₀, h₁₁, h₁₂, h₁₃, h₁₄, h₁₅, h₁₆⟩

end Run

/-- The counters are reset after a write; the reset while a read is under
way is not let in. -/
theorem counters_agree_eviction :
    ∃ s, Worklist.drive (machine.gated Op.resetWhenDrained) 60
        [.addWq (.readOf 5), .operate, .resetROIStats, .addRq (.readOf (5 + dcmNumLines)),
          .resetROIStats, .addRq (.readOf 5)] (.cold .baselineCascadeLake 0) = some s ∧
      s.dcm.stats.totalRequests = 1 ∧ s.dcm.stats.crbInserts = 1 ∧ s.dcm.CountersAgree := by
  obtain ⟨s, hs, hconf⟩ := Option.map_eq_some_iff.mp (show (Worklist.drive
    (machine.gated Op.resetWhenDrained) 60
    [.addWq (.readOf 5), .operate, .resetROIStats, .addRq (.readOf (5 + dcmNumLines)),
      .resetROIStats, .addRq (.readOf 5)] (.cold .baselineCascadeLake 0)).map
      (fun s => (s.dcm.stats.totalRequests, s.dcm.stats.crbInserts)) = some (1, 1) from by
        decide +kernel)
  have hr : Reaches (machine.gated Op.resetWhenDrained) Op.Roi (.cold .baselineCascadeLake 0)
      ([], s) := by
    refine Worklist.drive_reaches ?_ .refl hs
    simp [Op.Roi]
  exact ⟨s, hs, (Prod.mk.inj hconf).1, (Prod.mk.inj hconf).2,
    counters_agree (fun _ h => h) (Sys.cold_fresh ..) rfl hr⟩

/-! ## What was sent -/

/-- No drain would hand a write-back over here. -/
def Sys.HoldsWb (s : Sys) : Prop :=
  s.dcm.wb = [] ∨ s.dcm.linkLatencyCycles = 0 ∧ s.noRoom .far true = true

/-- The next call is not a drain that hands a write-back over. -/
def NoDrain (x : Worklist.Config Sys Call) : Prop :=
  x.1.head? = some .drainWB → x.2.HoldsWb

theorem Sys.HoldsWb.drainWB {s : Sys} (h : s.HoldsWb) : s.drainWB.dcm.core = s.dcm.core := by
  unfold Sys.drainWB
  rcases h with hwb | ⟨hlink, hroom⟩
  · rw [hwb]
  · split
    · rfl
    · rename_i front rest hwb
      have hsend : s.dispatchToFar front.pkt true = (s, false, []) := by
        simp [Sys.dispatchToFar, hlink, Sys.trySend, hroom]
      rw [hsend]
      rfl

/-- An identity no entry and no fill owes anything to holds outright. -/
theorem Identity.kept_iff {t : Identity} (ht : ∀ e, t.owes e = false) (hf : t ≠ nearWrites)
    {K : List Call} {m : Manager} : t.ledger.Kept K m ↔ t.balance m = 0 := by
  have htotal : Keyed.total t.ledger.owes m.orb = ((m.entriesWith t.owes : Nat) : ℤ) :=
    Keyed.total_toNat ..
  have hcount : m.entriesWith t.owes = 0 := List.countP_eq_zero.mpr fun e _ => by simp [ht]
  have hdue : (K.map t.ledger.due).sum = 0 := List.sum_eq_zero fun y hy => by
    obtain ⟨c, -, rfl⟩ := List.mem_map.mp hy
    cases c <;> simp [Ledger.due, ledger, hf]
  unfold Ledger.Kept
  rw [htotal, hcount, hdue]
  rfl

section Sent

variable {allow : Op → Prop} {ok : Worklist.Config Sys Call → Prop} {near far : MemoryController}
  {clk : Clock} {frontend backend : Nat} {x : Worklist.Config Sys Call}

/-- What an identity without debtors balances to in every mode and after
every reset. -/
theorem balance_of_boot {t : Identity} (ht : ∀ e, t.owes e = false) (hf : t ≠ .nearWrites)
    (hreset : ∀ m : Manager, t.balance m.resetROIStats = 0)
    (h : ReachesIf machine allow ok (.boot near far clk frontend backend) x) :
    t.balance x.2.dcm.core = 0 := by
  have hkept : ∀ {K m}, t.ledger.Kept K m ↔ t.balance m = 0 := Identity.kept_iff ht hf
  have hall := open_invariant (P := fun K m => (CalmTail K ∧ OrbInv (Ctl.of K) m) ∧
    t.ledger.Kept K m) ?_ ?_ ?_ ?_ h
  · exact hkept.mp hall.2
  · refine ⟨⟨by simp [CalmTail], .empty rfl rfl⟩, hkept.mpr ?_⟩
    exact hreset { (Sys.boot near far clk frontend backend).dcm.core with stats := {} }
  · rintro op m m' ks hstep ⟨⟨-, hinv⟩, hp⟩
    refine ⟨⟨hstep.calmTail, hinv.enter hstep⟩, ?_⟩
    by_cases hop : op = .resetROIStats
    · subst hop
      cases hstep with
      | statsReset => exact hkept.mpr (hreset m)
      | refused hop => cases hop
      | queued _ hop => cases hop
      | admitted _ hop => cases hop
      | configured => exact hkept.mpr ((t.balance_still rfl rfl rfl).trans (hkept.mp hp))
    · exact t.fair.enter hstep hop hinv hp
  · rintro m m' ks ha hks ⟨⟨-, hinv⟩, hp⟩
    exact ⟨ha.orbInv hks hinv, t.fair.aside_kept ha hks hp⟩
  · rintro c K m m' ks hstep ⟨⟨hK, hinv⟩, hp⟩
    exact ⟨⟨hstep.calmTail hK, hinv.step hstep hK⟩, t.fair.step hstep hinv hp⟩

/-- Only a drain counts a far write. -/
theorem FrontStep.farWrites {m m' : Manager} {c : Call} {ks : List Call}
    (h : FrontStep m c m' ks) (hc : c ≠ .drainWB) : m'.stats.farWrites = m.stats.farWrites := by
  have hanswer : ∀ (m : Manager) (e : OrbEntry) (now : Nat),
      (m.nearAnswered e now).stats.farWrites = m.stats.farWrites := by
    intro m e now
    unfold Manager.nearAnswered
    split <;> rfl
  have hretire : ∀ (m : Manager) (e : OrbEntry) (lat now : Nat),
      (m.retire e lat now).stats.farWrites = m.stats.farWrites := by
    intro m e lat now
    rw [Manager.retire_stats, Manager.countRetired]
    split <;> rfl
  cases h with
  | nearEnter now => exact hanswer ..
  | nearHit lat now => exact (hretire ..).trans (hanswer ..)
  | farDone lat now => exact hretire ..
  | complete now => exact hretire ..
  | promote now =>
      rw [Manager.admitEntry_stats]
      exact congrArg Prod.fst (Manager.admitStats_writeBacks ..)
  | @flag a i => rcases m.flagConflict_eq a i with hf | ⟨e, -, hf⟩ <;> rw [hf]
  | drained _ => exact absurd rfl hc
  | responses clk =>
      obtain ⟨due, rest, -, hr⟩ := Manager.releaseResponses_eq clk m.pendingResponses m
      rw [Manager.processPendingResponses, hr]
  | _ => rfl

theorem FrontEnter.farWrites {m m' : Manager} {op : Op} {ks : List Call}
    (h : FrontEnter m op m' ks) (h0 : m.stats.farWrites = 0) : m'.stats.farWrites = 0 := by
  cases h with
  | admitted now hop hc hwb horb =>
      rw [Manager.admitEntry_stats]
      exact (congrArg Prod.fst (Manager.admitStats_writeBacks ..)).trans h0
  | statsReset => rfl
  | _ => exact h0

/-- **The counter law.** What was sent near is what was read and written
there, in every mode and after every reset. What was sent far is what was
read there: the writes are left out, so the law holds as long as WB hands
nothing over. -/
theorem sent_counted :
    (∀ x, Reaches machine (fun _ => True) (.boot near far clk frontend backend) x →
      x.2.dcm.stats.sentToNear = x.2.dcm.stats.localReads + x.2.dcm.stats.localWrites ∧
      x.2.dcm.stats.sentToFar = x.2.dcm.stats.farReads) ∧
    ∀ x, ReachesIf machine (fun _ => True) NoDrain (.boot near far clk frontend backend) x →
      x.2.dcm.stats.sentToNear = x.2.dcm.stats.localReads + x.2.dcm.stats.localWrites ∧
      x.2.dcm.stats.sentToFar = x.2.dcm.stats.farReads + x.2.dcm.stats.farWrites := by
  have hsent : ∀ x, Reaches machine (fun _ => True) (.boot near far clk frontend backend) x →
      x.2.dcm.stats.sentToNear = x.2.dcm.stats.localReads + x.2.dcm.stats.localWrites ∧
      x.2.dcm.stats.sentToFar = x.2.dcm.stats.farReads := by
    intro x hr
    have hnear := balance_of_boot (t := .sentToNear) (fun _ => rfl) (by simp) (fun _ => rfl) hr
    have hfar := balance_of_boot (t := .sentToFar) (fun _ => rfl) (by simp) (fun _ => rfl) hr
    have hnear' : (x.2.dcm.stats.sentToNear : ℤ) - x.2.dcm.stats.localReads
        - x.2.dcm.stats.localWrites - 0 = 0 := hnear
    have hfar' : (x.2.dcm.stats.sentToFar : ℤ) - x.2.dcm.stats.farReads - 0 = 0 := hfar
    omega
  refine ⟨hsent, fun x hr => ?_⟩
  obtain ⟨hnear, hfar⟩ := hsent x hr.reaches
  have hnone : x.2.dcm.core.stats.farWrites = 0 := by
    refine ReachesIf.invariant (P := fun x => x.2.dcm.core.stats.farWrites = 0) rfl ?_ ?_ hr
    · intro op s _ _ _ h0
      rcases s.enter_open op with hstep | ⟨ha, -⟩
      · exact hstep.farWrites h0
      · obtain ⟨_, _, _, hst⟩ := ha.stats
        exact (congrArg Stats.farWrites hst).trans h0
    · intro c K s s' ks hok _ h0 he
      by_cases hc : c = .drainWB
      · subst hc
        obtain ⟨rfl, -⟩ := Sys.ok_pair he
        exact (congrArg (fun m => m.stats.farWrites) (hok rfl).drainWB).trans h0
      · exact ((Sys.exec_frontStep he).farWrites hc).trans h0
  refine ⟨hnear, ?_⟩
  rw [hfar]
  exact (congrArg (x.2.dcm.stats.farReads + ·) hnone).symm

end Sent

/-- A read that is on its way to near memory. -/
theorem sent_counted_read : ∃ x, ReachesIf machine (fun _ => True) NoDrain
      (.boot (.new 0 0 0 0) (.new 0 0 0 0) .zero 0 0) x ∧ x.2.dcm.stats.sentToNear = 1 ∧
    x.2.dcm.stats.sentToFar = x.2.dcm.stats.farReads + x.2.dcm.stats.farWrites := by
  let s₀ : Sys := .boot (.new 0 0 0 0) (.new 0 0 0 0) .zero 0 0
  let s₁ : Sys := (s₀.enter .finishWarmup).1
  let s₂ : Sys := (s₁.enter (.addRq (.readOf 5))).1
  have hidle : ∀ s, NoDrain ([], s) := fun s h => by cases h
  have h₁ : ReachesIf machine (fun _ => True) NoDrain s₀ ([], s₁) :=
    .single (@Worklist.Trans.enter _ _ _ _ machine _ _ .finishWarmup s₀ trivial (hidle _))
  have h₂ : ReachesIf machine (fun _ => True) NoDrain s₀ ([.driveState 5], s₂) :=
    h₁.tail (@Worklist.Trans.enter _ _ _ _ machine _ _ (.addRq (.readOf 5)) s₁ trivial (hidle _))
  have h₃ : ReachesIf machine (fun _ => True) NoDrain s₀
      ((s₂.driveState 5).2 ++ [], (s₂.driveState 5).1) := h₂.call (fun h => by cases h) rfl
  exact ⟨_, h₃, by decide +kernel, (sent_counted.2 _ h₃).2⟩

/-- A dirty line is evicted and its write-back handed over. -/
theorem write_back_not_sent :
    ∃ s, Reaches machine (fun _ => True) (.boot (.new 0 0 0 0) (.new 0 0 0 0) .zero 0 0)
        ([], s) ∧
      s.dcm.stats.sentToFar = 1 ∧ s.dcm.stats.farReads = 1 ∧ s.dcm.stats.farWrites = 1 ∧
      s.dcm.stats.sentToFar ≠ s.dcm.stats.farReads + s.dcm.stats.farWrites := by
  obtain ⟨s, hs, hst⟩ := Option.map_eq_some_iff.mp (show (Worklist.drive machine 60
    [.finishWarmup, .addWq (.readOf 5), .operate, .addRq (.readOf (5 + dcmNumLines)), .operate,
      .operate] (.boot (.new 0 0 0 0) (.new 0 0 0 0) .zero 0 0)).map (fun s =>
        (s.dcm.stats.sentToFar, s.dcm.stats.farReads, s.dcm.stats.farWrites))
    = some (1, 1, 1) from by decide +kernel)
  obtain ⟨h₁, h₂, h₃⟩ : s.dcm.stats.sentToFar = 1 ∧ s.dcm.stats.farReads = 1 ∧
    s.dcm.stats.farWrites = 1 := by simpa using hst
  refine ⟨s, Worklist.drive_reaches (fun _ _ => trivial) .refl hs, h₁, h₂, h₃, ?_⟩
  rw [h₁, h₂, h₃]
  decide

end DramCache
