import Mathlib.Algebra.Order.Group.Multiset
import DramCache.Delivery
import DramCache.TagStore

/-!
# Dirty lines

A line that becomes dirty is dirty in its slot until it is evicted, and
from then on it is somewhere on its way to far memory: recorded with the
request that evicted it, in WB, pending for the far controller, or accepted
by it. Each of the three hand-overs on the way has its account, and every
step keeps all of them.
-/

namespace DramCache

open Worklist (ReachesIf Reaches)

/-! ## Dirty in a slot -/

/-- The line a slot holds dirty. -/
def TagEntry.dirty? (t : TagEntry) : Option Nat :=
  if t.validLine && t.dirtyLine then some t.farMemAddr else none

/-- 1 when the line is dirty in its slot. -/
def Manager.resident (m : Manager) (a : Nat) : Nat :=
  if (m.tagMetadataStore (returnIndexDC a)).dirty? = some a then 1 else 0

/-- The line a request makes dirty. -/
def OrbEntry.dirtied? (e : OrbEntry) : Option Nat :=
  if e.isWriteReq && !(e.isHit && e.victimWasDirty) then some e.pkt.address else none

/-- A miss over a valid dirty slot: the request, and the line it evicts. -/
def OrbEntry.evicted? (e : OrbEntry) : Option (Nat × Nat) :=
  if e.victimWasValid && e.victimWasDirty && !e.isHit then some (e.requestId, e.victimFarAddr)
  else none

/-- The lines made dirty, each as often as it became so. -/
def dirtied (log : List Event) : List Nat := (admitted log).filterMap OrbEntry.dirtied?

/-- The evictions of dirty lines. -/
def evicted (log : List Event) : List (Nat × Nat) := (admitted log).filterMap OrbEntry.evicted?

/-- The lines evicted dirty. -/
def evictedLines (log : List Event) : List Nat := (evicted log).map Prod.snd

theorem dirtied_concat (log : List Event) (e : OrbEntry) :
    dirtied (log ++ [.admitted e]) = dirtied log ++ e.dirtied?.toList := by
  rw [dirtied, admitted_append, List.filterMap_append, dirtied]
  cases hd : e.dirtied? <;> simp [admitted, Event.admitted?, hd]

theorem evicted_concat (log : List Event) (e : OrbEntry) :
    evicted (log ++ [.admitted e]) = evicted log ++ e.evicted?.toList := by
  rw [evicted, admitted_append, List.filterMap_append, evicted]
  cases hd : e.evicted? <;> simp [admitted, Event.admitted?, hd]

/-- How often an optional line is the given one. -/
def occurs (o : Option Nat) (a : Nat) : Nat := if o = some a then 1 else 0

theorem count_toList (o : Option Nat) (a : Nat) : o.toList.count a = occurs o a := by
  cases o with
  | none => rfl
  | some b => by_cases h : b = a <;> simp [occurs, h]

/-- The log says exactly which lines became dirty and which dirty lines
were evicted. -/
def DirtySeen (m m' : Manager) : Prop := ∀ a,
  (dirtied m'.log).count a = (dirtied m.log).count a
    + (if m.resident a = 0 ∧ m'.resident a = 1 then 1 else 0) ∧
  (evictedLines m'.log).count a = (evictedLines m.log).count a
    + (if m.resident a = 1 ∧ m'.resident a = 0 then 1 else 0)

theorem Manager.resident_eq (m : Manager) (a : Nat) :
    m.resident a = occurs (m.tagMetadataStore (returnIndexDC a)).dirty? a := rfl

/-- The slots and the admissions stand still. -/
structure SameSlots (m m' : Manager) : Prop where
  tags : m'.tagMetadataStore = m.tagMetadataStore
  admitted : admitted m'.log = admitted m.log

theorem SameSlots.resident {m m' : Manager} (h : SameSlots m m') (a : Nat) :
    m'.resident a = m.resident a := by
  rw [Manager.resident_eq, Manager.resident_eq, h.tags]

/-- Only an admission touches the slots. -/
def Touches (m m' : Manager) : Prop :=
  SameSlots m m' ∨ ∃ m₁ pkt w arr now, SameSlots m m₁ ∧
    m' = Manager.admitEntry m₁ pkt w arr now

theorem FrontStep.touches {m m' : Manager} {c : Call} {ks : List Call}
    (h : FrontStep m c m' ks) : Touches m m' := by
  rcases h.silent_or_promote with hs | ⟨i, w, now, -, -, rfl⟩
  · exact .inl ⟨hs.tags, hs.admitted⟩
  · exact .inr ⟨m.takeWaiter i, _, _, _, _, ⟨rfl, rfl⟩, rfl⟩

theorem FrontEnter.touches {m m' : Manager} {op : Op} {ks : List Call}
    (h : FrontEnter m op m' ks) : Touches m m' := by
  rcases h.silent_or_request with hs | ⟨w, pkt, now, -, ⟨-, rfl⟩ | ⟨-, rfl⟩⟩
  · exact .inl ⟨hs.tags, hs.admitted⟩
  · exact .inl ⟨rfl, (admitted_append ..).trans (List.append_nil _)⟩
  · exact .inr ⟨m.emit (.accepted w pkt), _, _, _, _,
      ⟨rfl, (admitted_append ..).trans (List.append_nil _)⟩, rfl⟩

namespace DirtySeen

variable {m m' : Manager}

theorem same (hs : SameSlots m m') : DirtySeen m m' := by
  intro a
  have h1 : ¬ (m.resident a = 0 ∧ m.resident a = 1) := by omega
  have h2 : ¬ (m.resident a = 1 ∧ m.resident a = 0) := by omega
  rw [hs.resident, if_neg h1, if_neg h2, evictedLines, evicted, dirtied, hs.admitted]
  exact ⟨rfl, rfl⟩

/-- Old and new slot, and what an admission logs of the two. -/
theorem slot {t : TagEntry} (pkt : Packet) (w : Bool) (arr : Option Nat) (now : Nat)
    (ht : m.tagMetadataStore (returnIndexDC pkt.address) = t)
    (hcoh : t.Coherent (returnIndexDC pkt.address)) (a : Nat) :
    occurs (m.admittedEntry pkt w arr now).dirtied? a
      = (if occurs t.dirty? a = 0 ∧ occurs (t.touch (w, pkt)).dirty? a = 1 then 1 else 0) ∧
    occurs ((m.admittedEntry pkt w arr now).evicted?.map Prod.snd) a
      = (if occurs t.dirty? a = 1 ∧ occurs (t.touch (w, pkt)).dirty? a = 0 then 1 else 0) := by
  have hhit : (m.admittedEntry pkt w arr now).isHit
      = (t.validLine && decide (returnTagDC pkt.address = t.tagDC)) := by rw [← ht]; rfl
  have hwrite : (m.admittedEntry pkt w arr now).isWriteReq = w := rfl
  have hpkt : (m.admittedEntry pkt w arr now).pkt = pkt := rfl
  have hvalid : (m.admittedEntry pkt w arr now).victimWasValid = t.validLine := by rw [← ht]; rfl
  have hdirty : (m.admittedEntry pkt w arr now).victimWasDirty = t.dirtyLine := by rw [← ht]; rfl
  have hfar : (m.admittedEntry pkt w arr now).victimFarAddr = t.farMemAddr := by rw [← ht]; rfl
  simp only [OrbEntry.dirtied?, OrbEntry.evicted?, hhit, hwrite, hpkt, hvalid, hdirty, hfar,
    TagEntry.dirty?, TagEntry.touch]
  rcases Bool.eq_false_or_eq_true t.validLine with hv | hv
  · have hiff : returnTagDC pkt.address = t.tagDC ↔ t.farMemAddr = pkt.address :=
      eq_comm.trans (hcoh.tag_eq_iff (r := (w, pkt)) hv rfl)
    by_cases htag : returnTagDC pkt.address = t.tagDC
    · have haddr := hiff.mp htag
      rcases eq_or_ne pkt.address a with rfl | ha
      · rcases Bool.eq_false_or_eq_true t.dirtyLine with hd | hd <;> cases w <;>
          simp [occurs, hv, hd, htag, haddr]
      · rcases Bool.eq_false_or_eq_true t.dirtyLine with hd | hd <;> cases w <;>
          simp [occurs, hv, hd, htag, haddr, ha]
    · have htag' : ¬ t.tagDC = returnTagDC pkt.address := fun h => htag h.symm
      have haddr : t.farMemAddr ≠ pkt.address := fun h => htag (hiff.mpr h)
      rcases eq_or_ne pkt.address a with rfl | ha
      · rcases Bool.eq_false_or_eq_true t.dirtyLine with hd | hd <;> cases w <;>
          simp [occurs, hv, hd, htag, htag', haddr]
      · rcases Bool.eq_false_or_eq_true t.dirtyLine with hd | hd <;> cases w <;>
          simp [occurs, hv, hd, htag, htag', ha]
  · cases w <;> simp [occurs, hv]

/-- The lines an admission makes dirty and evicts are of its index. -/
theorem elsewhere (pkt : Packet) (w : Bool) (arr : Option Nat) (now : Nat) {a : Nat}
    (hcoh : (m.tagMetadataStore (returnIndexDC pkt.address)).Coherent (returnIndexDC pkt.address))
    (ha : returnIndexDC a ≠ returnIndexDC pkt.address) :
    occurs (m.admittedEntry pkt w arr now).dirtied? a = 0 ∧
      occurs ((m.admittedEntry pkt w arr now).evicted?.map Prod.snd) a = 0 := by
  constructor
  · refine if_neg fun h => ha ?_
    unfold OrbEntry.dirtied? at h
    split at h
    · obtain rfl : pkt.address = a := by simpa using h
      rfl
    · cases h
  · refine if_neg fun h => ha ?_
    unfold OrbEntry.evicted? at h
    split at h
    · rename_i hev
      simp only [Bool.and_eq_true] at hev
      have hfar : (m.admittedEntry pkt w arr now).victimFarAddr = a := by simpa using h
      rw [← hfar]
      exact hcoh.index hev.1.1
    · cases h

theorem admitEntry (hcoh : ∀ i, (m.tagMetadataStore i).Coherent i) (pkt : Packet) (w : Bool)
    (arr : Option Nat) (now : Nat) : DirtySeen m (m.admitEntry pkt w arr now) := by
  intro a
  rw [Manager.admitEntry_log, dirtied_concat, evictedLines, evicted_concat, List.map_append,
    List.count_append, List.count_append, count_toList, ← Option.toList_map, count_toList]
  have htags := m.admitEntry_touch pkt w arr now
  by_cases ha : returnIndexDC a = returnIndexDC pkt.address
  · obtain ⟨hd, he⟩ := slot pkt w arr now rfl (hcoh _) a
    rw [Manager.resident_eq, Manager.resident_eq, htags, ha, Function.update_self, hd, he]
    exact ⟨rfl, rfl⟩
  · have hsame : (m.admitEntry pkt w arr now).resident a = m.resident a := by
      rw [Manager.resident_eq, Manager.resident_eq, htags, Function.update_of_ne ha]
    obtain ⟨hd, he⟩ := elsewhere pkt w arr now (hcoh _) ha
    have h1 : ¬ (m.resident a = 0 ∧ m.resident a = 1) := by omega
    have h2 : ¬ (m.resident a = 1 ∧ m.resident a = 0) := by omega
    rw [hsame, hd, he, if_neg h1, if_neg h2]
    exact ⟨rfl, rfl⟩

end DirtySeen

/-- The tag store is coherent, and what became dirty is dirty in its slot or
was evicted. -/
structure DirtyKept (m₀ m : Manager) : Prop where
  coherent : ∀ i, (m.tagMetadataStore i).Coherent i
  kept : ∀ a, m₀.resident a + (dirtied m.log).count a
    = m.resident a + (evictedLines m.log).count a

namespace DirtyKept

variable {m₀ m m' : Manager}

theorem seen (h : DirtyKept m₀ m) (hs : DirtySeen m m')
    (hcoh : ∀ i, (m'.tagMetadataStore i).Coherent i) : DirtyKept m₀ m' := by
  refine ⟨hcoh, fun a => ?_⟩
  have hkept := h.kept a
  obtain ⟨hd, he⟩ := hs a
  have hle : m.resident a ≤ 1 ∧ m'.resident a ≤ 1 := by
    unfold Manager.resident
    constructor <;> split <;> omega
  rw [hd, he]
  split <;> split <;> omega

/-- A call or an operation. -/
theorem step (h : DirtyKept m₀ m) (hstep : Touches m m') :
    DirtyKept m₀ m' ∧ DirtySeen m m' := by
  rcases hstep with hs | ⟨m₁, pkt, w, arr, now, hs, rfl⟩
  · have hseen := DirtySeen.same hs
    exact ⟨h.seen hseen (by rw [hs.tags]; exact h.coherent), hseen⟩
  · have h₁ := h.seen (.same hs) (by rw [hs.tags]; exact h.coherent)
    have hseen := DirtySeen.admitEntry h₁.coherent pkt w arr now
    refine ⟨h₁.seen hseen fun i => ?_, fun a => ?_⟩
    · rw [m₁.admitEntry_touch pkt w arr now]
      by_cases hi : i = returnIndexDC pkt.address
      · rw [hi, Function.update_self]
        exact TagEntry.touch_coherent rfl
      · rw [Function.update_of_ne hi]
        exact h₁.coherent i
    · have hlog : dirtied m₁.log = dirtied m.log ∧ evictedLines m₁.log = evictedLines m.log := by
        rw [evictedLines, evicted, dirtied, hs.admitted]
        exact ⟨rfl, rfl⟩
      have := hseen a
      rwa [hlog.1, hlog.2, hs.resident] at this

end DirtyKept

/-! ## Recorded and queued -/

/-- The victim an entry records until its near read returns. -/
def OrbEntry.victim (e : OrbEntry) : Multiset (Nat × Nat) :=
  if e.handleDirtyLine && (decide (e.state = .locMemRead)
      || decide (e.state = .waitingLocMemReadResp)) then {(e.requestId, e.dirtyLineAddr)} else 0

/-- The victims recorded in the ORB. -/
def Manager.recorded (m : Manager) : Multiset (Nat × Nat) := Keyed.total OrbEntry.victim m.orb

def Event.wbQueued? : Event → Option (Nat × Nat)
  | .wbQueued r a => some (r, a)
  | _ => none

/-- A write handed over for the far controller. -/
def Event.drained? : Event → Option Nat
  | .handFar _ pkt true => some pkt.address
  | _ => none

/-- The write-backs queued, for which request, in order. -/
def wbQueued (log : List Event) : List (Nat × Nat) := log.filterMap Event.wbQueued?

/-- The lines handed over for write-back, in order. -/
def drainedLines (log : List Event) : List Nat := log.filterMap Event.drained?

theorem wbQueued_append (l₁ l₂ : List Event) : wbQueued (l₁ ++ l₂) = wbQueued l₁ ++ wbQueued l₂ :=
  List.filterMap_append ..

theorem drainedLines_append (l₁ l₂ : List Event) :
    drainedLines (l₁ ++ l₂) = drainedLines l₁ ++ drainedLines l₂ := List.filterMap_append ..

theorem evicted_append (l₁ l₂ : List Event) : evicted (l₁ ++ l₂) = evicted l₁ ++ evicted l₂ := by
  rw [evicted, admitted_append, List.filterMap_append, evicted, evicted]

/-- Events that evict, queue or hand over no line. -/
def Event.dry : Event → Bool
  | .admitted _ | .wbQueued .. | .handFar _ _ true => false
  | _ => true

theorem dry_lists {evs : List Event} (h : ∀ ev ∈ evs, ev.dry) :
    evicted evs = [] ∧ wbQueued evs = [] ∧ drainedLines evs = [] := by
  have hone : ∀ ev ∈ evs, ev.admitted? = none ∧ ev.wbQueued? = none ∧ ev.drained? = none := by
    intro ev hev
    have hdry := h ev hev
    cases ev with
    | handFar r pkt w => cases w <;> first | exact ⟨rfl, rfl, rfl⟩ | cases hdry
    | _ => first | exact ⟨rfl, rfl, rfl⟩ | cases hdry
  refine ⟨?_, List.filterMap_eq_nil_iff.mpr fun ev hev => (hone ev hev).2.1,
    List.filterMap_eq_nil_iff.mpr fun ev hev => (hone ev hev).2.2⟩
  have hadm : admitted evs = [] := List.filterMap_eq_nil_iff.mpr fun ev hev => (hone ev hev).1
  rw [evicted, hadm]
  rfl

theorem retired_dry (e : OrbEntry) (lat now : Nat) :
    ∀ ev ∈ Event.retired e now :: Manager.respondNow e lat now, ev.dry := by
  intro ev hev
  rcases List.mem_cons.mp hev with rfl | hev
  · rfl
  · obtain ⟨port, rfl⟩ := Manager.mem_respondNow hev
    rfl

theorem upcalls_dry {why : Upcall} {pkt : Packet} {now : Nat} :
    ∀ ev ∈ Manager.upcalls why pkt now, ev.dry := by
  intro ev hev
  obtain ⟨port, rfl⟩ := Manager.mem_upcalls hev
  rfl

/-- Every eviction is recorded until its write-back is queued, and
write-backs are handed over in the order they were queued. -/
structure WbFlow (m : Manager) : Prop where
  recorded : (evicted m.log : Multiset (Nat × Nat)) = m.recorded + ↑(wbQueued m.log)
  fifo : (wbQueued m.log).map Prod.snd = drainedLines m.log ++ m.wb.map fun w => w.pkt.address

namespace WbFlow

variable {m m' : Manager} {l : List Event}

/-- No line moves. -/
theorem still (h : WbFlow m) (hlog : m'.log = m.log ++ l) (hdry : ∀ ev ∈ l, ev.dry)
    (hrec : m'.recorded = m.recorded) (hwb : m'.wb = m.wb) : WbFlow m' := by
  obtain ⟨hev, hq, hd⟩ := dry_lists hdry
  constructor
  · rw [hlog, evicted_append, wbQueued_append, hev, hq, List.append_nil, List.append_nil, hrec]
    exact h.recorded
  · rw [hlog, wbQueued_append, drainedLines_append, hq, hd, List.append_nil, List.append_nil, hwb]
    exact h.fifo

theorem victimEvents_queued (e : OrbEntry) (now : Nat) :
    ((Manager.victimEvents e).filterMap Event.wbQueued?).map Prod.snd
      = (Manager.victims e now).map fun w => w.pkt.address := by
  unfold Manager.victimEvents Manager.victims
  cases e.handleDirtyLine <;> rfl

theorem victimEvents_drained (e : OrbEntry) :
    evicted (Manager.victimEvents e) = [] ∧ drainedLines (Manager.victimEvents e) = [] := by
  unfold Manager.victimEvents
  cases e.handleDirtyLine <;> exact ⟨rfl, rfl⟩

/-- A near response: the recorded victim is queued. -/
theorem respond (h : WbFlow m) (side : Side) {e : OrbEntry} (now : Nat) (hdry : ∀ ev ∈ l, ev.dry)
    (hs : e.state = .waitingLocMemReadResp)
    (hlog : m'.log = m.log ++ .answered side e :: (Manager.victimEvents e ++ l))
    (hwb : m'.wb = m.wb ++ Manager.victims e now)
    (hrec : m.recorded = m'.recorded + e.victim) : WbFlow m' := by
  obtain ⟨hev, hq, hd⟩ := dry_lists hdry
  obtain ⟨hev', hd'⟩ := victimEvents_drained e
  have hvictim : e.victim = ↑(wbQueued (Manager.victimEvents e)) := by
    unfold OrbEntry.victim wbQueued Manager.victimEvents
    rw [hs]
    cases e.handleDirtyLine <;> rfl
  have hlog' : m'.log = m.log ++ ([.answered side e] ++ (Manager.victimEvents e ++ l)) := hlog
  have hevicted : evicted m'.log = evicted m.log := by
    rw [hlog', evicted_append, evicted_append, evicted_append, hev, hev']
    exact List.append_nil _
  have hqueued : wbQueued m'.log = wbQueued m.log ++ wbQueued (Manager.victimEvents e) := by
    rw [hlog', wbQueued_append, wbQueued_append, wbQueued_append, hq, List.append_nil]
    rfl
  have hdrained : drainedLines m'.log = drainedLines m.log := by
    rw [hlog', drainedLines_append, drainedLines_append, drainedLines_append, hd, hd']
    exact List.append_nil _
  constructor
  · rw [hevicted, hqueued, ← Multiset.coe_add (wbQueued m.log), ← hvictim, h.recorded, hrec,
      add_assoc, add_comm e.victim]
  · rw [hqueued, hdrained, hwb, List.map_append, List.map_append, h.fifo, List.append_assoc]
    congr 2
    exact victimEvents_queued e now

/-- A request is admitted: the line it evicts is recorded. -/
theorem arrive (h : WbFlow m) {pkt : Packet} (w : Bool) (arr : Option Nat) (now : Nat)
    (hfree : m.orb.lookup pkt.address = none) : WbFlow (m.admitEntry pkt w arr now) := by
  have hev := m.admittedEntry_evicts pkt w arr now
  have hvictim : (m.admittedEntry pkt w arr now).victim
      = ↑((m.admittedEntry pkt w arr now).evicted?.toList) := by
    generalize m.admittedEntry pkt w arr now = e at hev
    obtain ⟨hhandle, hline⟩ := hev
    unfold OrbEntry.victim OrbEntry.evicted?
    cases hd : e.handleDirtyLine with
    | false =>
        rw [hd] at hhandle
        rw [← hhandle]
        rfl
    | true =>
        obtain ⟨haddr, hstate⟩ := hline hd
        rw [hd] at hhandle
        rw [← hhandle, hstate, haddr]
        rfl
  have hrec : (m.admitEntry pkt w arr now).recorded
      = (m.admittedEntry pkt w arr now).victim + m.recorded :=
    Keyed.total_insert_new OrbEntry.victim hfree _
  have hqueued : wbQueued (m.admitEntry pkt w arr now).log = wbQueued m.log := by
    rw [Manager.admitEntry_log, wbQueued_append]
    exact List.append_nil _
  have hdrained : drainedLines (m.admitEntry pkt w arr now).log = drainedLines m.log := by
    rw [Manager.admitEntry_log, drainedLines_append]
    exact List.append_nil _
  constructor
  · rw [hqueued, hrec, Manager.admitEntry_log, evicted_concat, ← Multiset.coe_add, ← hvictim,
      h.recorded, add_comm _ m.recorded, add_right_comm]
  · rw [hqueued, hdrained, Manager.admitEntry_wb]
    exact h.fifo

/-- The front of WB is handed over. -/
theorem drained (h : WbFlow m) {front : WbEntry} {rest : List WbEntry}
    (hwb : m.wb = front :: rest) : WbFlow (m.drained front) := by
  have hevicted : evicted (m.drained front).log = evicted m.log :=
    (evicted_append ..).trans (List.append_nil _)
  have hqueued : wbQueued (m.drained front).log = wbQueued m.log :=
    (wbQueued_append ..).trans (List.append_nil _)
  have hdrained : drainedLines (m.drained front).log = drainedLines m.log ++ [front.pkt.address] :=
    drainedLines_append ..
  have hrest : (m.drained front).wb = rest := congrArg List.tail hwb
  constructor
  · rw [hevicted, hqueued]
    exact h.recorded
  · rw [hqueued, hdrained, hrest, h.fifo, hwb, List.map_cons, List.append_assoc]
    rfl

/-- Every call keeps the account. -/
theorem step {c : Call} {ks K : List Call} (hstep : FrontStep m c m' ks)
    (hinv : OrbInv (Ctl.of (c :: K)) m) (h : WbFlow m) : WbFlow m' := by
  have hone : ∀ {m' : Manager} {ev : Event}, m'.log = m.log ++ [ev] → ev.dry →
      m'.recorded = m.recorded → m'.wb = m.wb → WbFlow m' :=
    fun hlog hdry => h.still hlog (by simpa using hdry)
  have hnone : ∀ {m' : Manager}, m'.log = m.log → m'.recorded = m.recorded → m'.wb = m.wb →
      WbFlow m' := fun hlog => h.still (l := []) (by rw [hlog, List.append_nil]) (by simp)
  -- an entry that is not waiting for its near read records no victim
  have hfree : ∀ {e : OrbEntry} {st : ReqState}, e.state = st →
      st ≠ .locMemRead → st ≠ .waitingLocMemReadResp → e.victim = 0 := by
    rintro e st rfl h₁ h₂
    exact if_neg (by simp [h₁, h₂])
  cases hstep with
  | quiet => exact h
  | bypassed now hmem => exact h.still rfl upcalls_dry rfl rfl
  | untracked => exact hone rfl rfl rfl rfl
  | stray => exact hone rfl rfl rfl rfl
  | @nearEnter side pkt e st now hl hs hst =>
      have he := hinv.entry hl
      have hv : ({ e with state := st } : OrbEntry).victim = 0 := by
        refine hfree rfl ?_ ?_ <;> rcases hst with ⟨rfl, -⟩ | ⟨rfl, -⟩ <;> simp
      refine h.respond (l := []) side now (by simp) hs ?_ ?_ ?_
      · simp [Manager.enterState, Manager.emit]
      · simp [Manager.enterState, Manager.emit]
      · have hrec := Keyed.total_insert OrbEntry.victim hl { e with state := st }
        rw [hv, add_zero, ← he.addr] at hrec
        rw [Manager.enterState, Manager.recorded, Manager.recorded, Manager.nearAnswered_orb]
        exact hrec.symm
  | @nearHit side pkt e lat now hl hs hw hh =>
      have he := hinv.entry hl
      refine h.respond side now (retired_dry e lat now) hs ?_ ?_ ?_
      · simp [Manager.emit]
      · simp [Manager.emit]
      · have hrec := Keyed.total_erase OrbEntry.victim hl
        rw [Manager.recorded, hrec, add_comm, Manager.recorded, Manager.retire_orb,
          Manager.nearAnswered_orb, he.addr]
        rfl
  | @farDone side pkt e lat now hl hs =>
      have he := hinv.entry hl
      have hrec := Keyed.total_erase OrbEntry.victim hl
      rw [hfree hs (by simp) (by simp), zero_add] at hrec
      refine h.still (l := .answered side e :: .retired e now :: Manager.respondNow e lat now)
        ?_ ?_ ?_ ?_
      · simp [Manager.emit, Manager.farAnswered, Manager.count]
      · intro ev hev
        rcases List.mem_cons.mp hev with rfl | hev
        · rfl
        · exact retired_dry e lat now ev hev
      · rw [Manager.recorded, Manager.retire_orb, he.addr]
        exact hrec.symm
      · rw [Manager.retire_wb]
        rfl
  | driveIdle => exact h
  | @readNear a e ks now hl hs =>
      refine hone rfl rfl ?_ rfl
      rw [← (hinv.entry hl).addr] at hl
      refine Keyed.total_insert_same OrbEntry.victim hl ?_
      simp [OrbEntry.victim, hs]
  | @readFar a e ks now hl hs =>
      refine hone rfl rfl ?_ rfl
      rw [← (hinv.entry hl).addr] at hl
      refine Keyed.total_insert_same OrbEntry.victim hl ?_
      simp [OrbEntry.victim, hs]
  | @writeNear a e now hl hs =>
      refine hone rfl rfl ?_ rfl
      rw [← (hinv.entry hl).addr] at hl
      refine Keyed.total_insert_same OrbEntry.victim hl ?_
      simp [OrbEntry.victim, hs]
  | completeNone => exact h
  | @complete a lat e now hl =>
      have he := hinv.entry hl
      obtain ⟨e', hl', hs⟩ := hinv.focus (a := a) rfl
      obtain rfl : e = e' := by simpa [hl] using hl'
      have hrec := Keyed.total_erase OrbEntry.victim hl
      rw [hfree hs (by simp) (by simp), zero_add] at hrec
      refine h.still (Manager.retire_log ..) (retired_dry e lat now) ?_ (Manager.retire_wb ..)
      rw [Manager.recorded, Manager.retire_orb, he.addr]
      exact hrec.symm
  | promoteNone => exact h
  | @promote i w now hw =>
      have htaken : WbFlow (m.takeWaiter i) := hnone rfl rfl rfl
      exact htaken.arrive w.isWriteReq (some w.arrivalCycle) now (hinv.waiter_none hw)
  | @flag a i =>
      rcases m.flagConflict_eq a i with hf | ⟨e, hl, hf⟩ <;> rw [hf]
      · exact h
      · exact hnone rfl (Keyed.total_insert_same OrbEntry.victim hl rfl) rfl
  | fill => exact hone rfl rfl rfl rfl
  | drained hwb => exact h.drained hwb
  | responses clk =>
      obtain ⟨due, rest, -, hr⟩ := Manager.releaseResponses_eq clk m.pendingResponses m
      rw [Manager.processPendingResponses, hr]
      refine h.still rfl (fun ev hev => ?_) rfl rfl
      obtain ⟨r, -, hev⟩ := List.mem_flatMap.mp hev
      exact upcalls_dry ev hev
  | samples => exact hnone rfl rfl rfl

theorem enter {op : Op} {ks : List Call} (hstep : FrontEnter m op m' ks)
    (hinv : OrbInv .calm m) (h : WbFlow m) : WbFlow m' := by
  cases hstep with
  | @queued _ w pkt now => exact h.still (l := [.accepted w pkt]) rfl (by simp [Event.dry]) rfl rfl
  | @admitted _ w pkt now hop hc =>
      have hacc : WbFlow (m.emit (.accepted w pkt)) :=
        h.still (l := [.accepted w pkt]) rfl (by simp [Event.dry]) rfl rfl
      exact hacc.arrive w none now (hinv.lookup_none hc)
  | _ => exact h.still (l := []) (List.append_nil _).symm (by simp) rfl rfl

end WbFlow

/-! ## Taken by far memory -/

/-- The lines of the writes among some packets. -/
def writes (l : List Parcel) : List Nat := (l.filter fun p => p.2).map fun p => p.1

theorem writes_append (l₁ l₂ : List Parcel) : writes (l₁ ++ l₂) = writes l₁ ++ writes l₂ := by
  simp [writes]

theorem drainedLines_eq (log : List Event) : drainedLines log = writes (handed .far log) := by
  induction log with
  | nil => rfl
  | cons ev log ih =>
      have hcons : ∀ l : List Event, drainedLines (ev :: l)
          = drainedLines [ev] ++ drainedLines l := drainedLines_append [ev]
      have hhanded : handed .far (ev :: log) = handed .far [ev] ++ handed .far log :=
        handed_append .far [ev] log
      rw [hcons, hhanded, writes_append, ih]
      congr 1
      cases ev with
      | handFar r pkt w => cases w <;> rfl
      | _ => rfl

/-- The writes pending for far memory. -/
def Manager.pendingWrites (m : Manager) : List Nat := writes (parcels (m.pending .far))

/-- The writes far memory has taken: inserted into its write queue, or
coalesced with one of their line there. -/
def Manager.written (m : Manager) : List Nat := writes (taken .far m.sends)

/-- The lines recorded as victims. -/
def Manager.recordedLines (m : Manager) : Multiset Nat := m.recorded.map Prod.snd

/-- The lines in WB. -/
def Manager.wbLines (m : Manager) : List Nat := m.wb.map fun w => w.pkt.address

/-- Where the dirty lines are, and that each eviction is on its way once. -/
structure Sys.DirtyAccounted (s s₀ : Sys) : Prop where
  /-- A line is accounted for as often as it became dirty. -/
  line : ∀ a, s₀.dcm.resident a + (dirtied s.dcm.log).count a
    = s.dcm.resident a + s.dcm.recordedLines.count a + s.dcm.wbLines.count a
      + s.dcm.pendingWrites.count a + s.dcm.written.count a
  /-- One write-back for each eviction, of its victim. -/
  eviction : (evicted s.dcm.log : Multiset (Nat × Nat)) = s.dcm.recorded + ↑(wbQueued s.dcm.log)
  /-- Write-backs leave WB in the order they came. -/
  queue : (wbQueued s.dcm.log).map Prod.snd = drainedLines s.dcm.log ++ s.dcm.wbLines
  /-- ... and are pending for far memory or taken by it. -/
  drained : (drainedLines s.dcm.log).Perm (s.dcm.pendingWrites ++ s.dcm.written)

section Run

open Worklist (ReachesIf Reaches)

variable {allow : Op → Prop} {ok : Worklist.Config Sys Call → Prop} {s₀ : Sys}
  {x : Worklist.Config Sys Call}

theorem wbFlow_of_reaches (hroi : ∀ op, allow op → op.Roi) (h₀ : s₀.Fresh)
    (h : ReachesIf machine allow ok s₀ x) :
    DirtyKept s₀.dcm.core x.2.dcm.core ∧ WbFlow x.2.dcm.core := by
  have hadm : admitted s₀.dcm.log = [] := (warmup_silent h₀.log).2
  have hdry := dry_lists fun ev hev => (show ev.dry = true from by
    have := h₀.log ev hev
    cases ev <;> first | rfl | cases this)
  refine front_invariant (I := fun K m => OrbInv (Ctl.of K) m)
    (P := fun _ m => DirtyKept s₀.dcm.core m ∧ WbFlow m) hroi h₀.live
    (fun x hx => (orbInv_of_reaches hroi h₀ hx).2) ⟨⟨h₀.tags, fun a => ?_⟩, ?_, ?_⟩ ?_ ?_ h
  · show _ + (List.filterMap OrbEntry.dirtied? (admitted s₀.dcm.log)).count a
      = _ + ((List.filterMap OrbEntry.evicted? (admitted s₀.dcm.log)).map Prod.snd).count a
    rw [hadm]
    rfl
  · have hrec : s₀.dcm.core.recorded = 0 := by
      show Keyed.total OrbEntry.victim s₀.dcm.orb = 0
      rw [h₀.orb, Keyed.total_empty]
    show ((evicted s₀.dcm.log : List (Nat × Nat)) : Multiset (Nat × Nat))
      = s₀.dcm.core.recorded + ↑(wbQueued s₀.dcm.log)
    rw [hdry.1, hdry.2.1, hrec]
    rfl
  · show (wbQueued s₀.dcm.log).map Prod.snd = drainedLines s₀.dcm.log ++ s₀.dcm.wb.map _
    rw [hdry.2.1, hdry.2.2, h₀.wb]
    rfl
  · intro op m m' ks _ hstep hinv hp
    exact ⟨(hp.1.step hstep.touches).1, hp.2.enter hstep hinv⟩
  · intro c K m m' ks hstep hinv hp
    exact ⟨(hp.1.step hstep.touches).1, hp.2.step hstep hinv⟩

/-- **No dirty line is lost or written back twice.** At every call boundary
each time a line became dirty is accounted for, each eviction of a dirty
line has one write-back on its way, and the log of both is what the slots
did: in every step of the run a line is logged as made dirty when its slot
becomes dirty, and as evicted when it ceases to be. -/
theorem dirty_accounted (hroi : ∀ op, allow op → op.Roi) (h₀ : s₀.Fresh) :
    (∀ s, Reaches machine allow s₀ ([], s) → s.DirtyAccounted s₀) ∧
    (∀ op s, allow op → Reaches machine allow s₀ ([], s) →
      DirtySeen s.dcm (s.enter op).1.dcm) ∧
    ∀ c K s s' ks, Reaches machine allow s₀ (c :: K, s) → s.exec c = .ok (s', ks) →
      DirtySeen s.dcm s'.dcm := by
  refine ⟨fun s hr => ?_, fun op s ha hr => ?_, fun c K s s' ks hr he => ?_⟩
  · obtain ⟨hkept, hflow⟩ := wbFlow_of_reaches hroi h₀ hr
    have hdrained : (drainedLines s.dcm.log).Perm (s.dcm.pendingWrites ++ s.dcm.written) := by
      have hperm := delivered_of_reaches hroi h₀ hr .far
      have hwrites := (hperm.filter fun p => p.2).map fun p => p.1
      rw [drainedLines_eq]
      have happend : writes (s.inbound (hook []) .far) = s.dcm.written ++ s.dcm.pendingWrites :=
        writes_append ..
      have hout : (writes (handed .far s.dcm.log)).Perm
          (s.dcm.written ++ s.dcm.pendingWrites) := happend ▸ hwrites
      exact hout.trans List.perm_append_comm
    have hrec : (evicted s.dcm.log : Multiset (Nat × Nat))
        = s.dcm.recorded + ↑(wbQueued s.dcm.log) := hflow.recorded
    have hfifo : (wbQueued s.dcm.log).map Prod.snd = drainedLines s.dcm.log ++ s.dcm.wbLines :=
      hflow.fifo
    refine ⟨fun a => ?_, hrec, hfifo, hdrained⟩
    have hline : s₀.dcm.resident a + (dirtied s.dcm.log).count a
        = s.dcm.resident a + (evictedLines s.dcm.log).count a := hkept.kept a
    have hev : (evictedLines s.dcm.log).count a
        = s.dcm.recordedLines.count a + ((wbQueued s.dcm.log).map Prod.snd).count a := by
      have := congrArg (fun x => (x.map Prod.snd).count a) hrec
      simpa [evictedLines, Manager.recordedLines] using this
    have hd := hdrained.count_eq a
    rw [hfifo, List.count_append] at hev
    rw [List.count_append] at hd
    omega
  · exact ((wbFlow_of_reaches hroi h₀ hr).1.step
      (Sys.enter_frontEnter (live_of_reaches hroi h₀.live hr) (hroi op ha)).touches).2
  · exact ((wbFlow_of_reaches hroi h₀ hr).1.step (Sys.exec_frontStep he).touches).2

/-- A written line is evicted by a read of its index and written back. -/
theorem dirty_accounted_eviction :
    ∃ s, Worklist.drive machine 60
        [.addWq (.readOf 5), .operate, .addRq (.readOf (5 + dcmNumLines)), .operate, .operate]
        (.cold .baselineCascadeLake 0) = some s ∧
      s.dcm.written = [5] ∧ s.DirtyAccounted (.cold .baselineCascadeLake 0) := by
  obtain ⟨s, hs, hwritten⟩ := Option.map_eq_some_iff.mp (show (Worklist.drive machine 60
    [.addWq (.readOf 5), .operate, .addRq (.readOf (5 + dcmNumLines)), .operate, .operate]
    (.cold .baselineCascadeLake 0)).map (fun s => s.dcm.written) = some [5] from by
      decide +kernel)
  have hr : Reaches machine Op.Roi (.cold .baselineCascadeLake 0) ([], s) :=
    Worklist.drive_reaches (by simp [Op.Roi]) .refl hs
  exact ⟨s, hs, hwritten, (dirty_accounted (fun _ h => h) (Sys.cold_fresh ..)).1 s hr⟩

end Run

end DramCache
