import DramCache.DirectMapped
import DramCache.History

/-!
# The tag store

Warm-up and admission update the tag store by two pieces of code that do
the same to a slot (`TagEntry.touch`). `Tracks` says a tag store is what a
history made of another one, slot by slot, and that every admitted entry
was classified against the slot of that moment; it holds of every run
whatsoever (`tracks_of_reaches`). From power-on the slots are those of the
reference cache of `DramCache.DirectMapped`.
-/

namespace DramCache

open Worklist (ReachesIf Reaches)

/-! ## One slot -/

/-- What `warmupTagUpdate` and `classifyAndInstall` make of a slot. -/
def TagEntry.touch (t : TagEntry) (r : Request) : TagEntry :=
  { tagDC := returnTagDC r.2.address
    indexDC := r.indexDC
    validLine := true
    dirtyLine :=
      r.1 || (t.validLine && decide (t.tagDC = returnTagDC r.2.address) && t.dirtyLine)
    farMemAddr := r.2.address }

/-- A slot after a sequence of requests. -/
def TagEntry.after (t : TagEntry) (rs : List Request) : TagEntry := rs.foldl TagEntry.touch t

/-- What classification finds out about a request. -/
structure Outcome where
  isWriteReq : Bool
  isHit : Bool
  victimWasValid : Bool
  victimWasDirty : Bool
  /-- The address to write back. -/
  victim : Option Nat
deriving DecidableEq

def OrbEntry.outcome (e : OrbEntry) : Outcome :=
  { isWriteReq := e.isWriteReq
    isHit := e.isHit
    victimWasValid := e.victimWasValid
    victimWasDirty := e.victimWasDirty
    victim := if e.handleDirtyLine then some e.dirtyLineAddr else none }

/-- The outcome of a request that finds a slot. -/
def TagEntry.outcome (t : TagEntry) (r : Request) : Outcome :=
  let isHit := t.validLine && decide (t.tagDC = returnTagDC r.2.address)
  { isWriteReq := r.1
    isHit := isHit
    victimWasValid := t.validLine
    victimWasDirty := t.dirtyLine
    victim := if t.validLine && t.dirtyLine && !isHit then some t.farMemAddr else none }

namespace Manager

variable (m : Manager) (pkt : Packet) (w : Bool) (arr : Option Nat) (now : Nat)

theorem admittedEntry_outcome : (m.admittedEntry pkt w arr now).outcome
    = (m.tagMetadataStore (returnIndexDC pkt.address)).outcome (w, pkt) := by
  generalize ht : m.tagMetadataStore (returnIndexDC pkt.address) = t
  have hcomm : decide (returnTagDC pkt.address = t.tagDC)
      = decide (t.tagDC = returnTagDC pkt.address) := by simp only [eq_comm]
  dsimp only [OrbEntry.outcome, TagEntry.outcome, admittedEntry, classify, newEntry]
  rw [ht, hcomm]
  generalize (t.validLine && t.dirtyLine
    && !(t.validLine && decide (t.tagDC = returnTagDC pkt.address))) = evicts
  cases evicts <;> rfl

theorem warmupTagUpdate_touch : (m.warmupTagUpdate pkt w).tagMetadataStore
    = Function.update m.tagMetadataStore (returnIndexDC pkt.address)
      ((m.tagMetadataStore (returnIndexDC pkt.address)).touch (w, pkt)) := by
  generalize ht : m.tagMetadataStore (returnIndexDC pkt.address) = t
  dsimp only [warmupTagUpdate, emit, count, TagEntry.touch, Request.indexDC]
  rw [ht]
  generalize (t.validLine && decide (t.tagDC = returnTagDC pkt.address)) = isHit
  cases w <;> cases isHit <;> rfl

theorem admitEntry_touch : (m.admitEntry pkt w arr now).tagMetadataStore
    = Function.update m.tagMetadataStore (returnIndexDC pkt.address)
      ((m.tagMetadataStore (returnIndexDC pkt.address)).touch (w, pkt)) := by
  generalize ht : m.tagMetadataStore (returnIndexDC pkt.address) = t
  have hcomm : decide (returnTagDC pkt.address = t.tagDC)
      = decide (t.tagDC = returnTagDC pkt.address) := by simp only [eq_comm]
  rw [admitEntry_tagMetadataStore]
  dsimp only [install, admittedEntry, classify, newEntry, TagEntry.touch, Request.indexDC]
  rw [ht, hcomm]
  generalize (t.validLine && decide (t.tagDC = returnTagDC pkt.address)) = isHit
  cases w <;> cases isHit <;> rfl

end Manager

/-! ## Histories of slots -/

/-- The request that touches the tag store at an event. -/
def Event.touched? : Event → Option Request
  | .warmed w pkt => some (w, pkt)
  | .admitted e => some e.request
  | _ => none

theorem Event.untouched {ev : Event} (h : ev.isAdmission = false) : ev.touched? = none := by
  cases ev <;> simp_all [Event.isAdmission, Event.touched?]

/-- The requests warmed and admitted, in order. -/
def touched (log : List Event) : List Request := log.filterMap Event.touched?

@[simp] theorem touched_append (l₁ l₂ : List Event) :
    touched (l₁ ++ l₂) = touched l₁ ++ touched l₂ := List.filterMap_append ..

/-- The requests of an index among those a log touched the store with. -/
def touchedAt (i : Nat) (log : List Event) : List Request :=
  Keyed.restrict Request.indexDC i (touched log)

/-- Events leave a tag store `t₀` as `t`, and admitted their entries as
classified against the slot found. -/
structure Tracks (t₀ : Nat → TagEntry) (evs : List Event) (t : Nat → TagEntry) : Prop where
  tags : ∀ i, t i = (t₀ i).after (touchedAt i evs)
  outcomes : ∀ pre e post, evs = pre ++ .admitted e :: post →
    e.outcome = ((t₀ e.request.indexDC).after (touchedAt e.request.indexDC pre)).outcome
      e.request

theorem Tracks.nil (t₀ : Nat → TagEntry) : Tracks t₀ [] t₀ :=
  ⟨fun _ => rfl, fun pre e post h => by simp at h⟩

theorem Tracks.quiet {t₀ t : Nat → TagEntry} {evs : List Event} (h : Tracks t₀ evs t)
    {ev : Event} (hev : ev.touched? = none) : Tracks t₀ (evs ++ [ev]) t := by
  refine ⟨fun i => ?_, fun pre e post hsplit => ?_⟩
  · have htouch : touched [ev] = [] := by simp [touched, hev]
    rw [touchedAt, touched_append, htouch, List.append_nil]
    exact h.tags i
  · rcases Keyed.split_concat hsplit with ⟨-, rfl⟩ | ⟨post', hpre⟩
    · cases hev
    · exact h.outcomes pre e post' hpre

theorem Tracks.touch {t₀ t : Nat → TagEntry} {evs : List Event} (h : Tracks t₀ evs t)
    {ev : Event} {r : Request} (hev : ev.touched? = some r)
    (hout : ∀ e, ev = .admitted e → e.outcome = (t r.indexDC).outcome r) :
    Tracks t₀ (evs ++ [ev]) (Function.update t r.indexDC ((t r.indexDC).touch r)) := by
  refine ⟨fun i => ?_, fun pre e post hsplit => ?_⟩
  · have htouch : touched [ev] = [r] := by simp [touched, hev]
    rw [touchedAt, touched_append, htouch, Keyed.restrict_append]
    by_cases hi : r.indexDC = i
    · subst hi
      rw [Function.update_self, Keyed.restrict_cons_self _ rfl, h.tags]
      simp [TagEntry.after, touchedAt]
    · rw [Function.update_of_ne (Ne.symm hi), Keyed.restrict_cons_ne _ hi, h.tags]
      simp [touchedAt]
  · rcases Keyed.split_concat hsplit with ⟨rfl, rfl⟩ | ⟨post', hpre⟩
    · obtain rfl : e.request = r := by simpa [Event.touched?] using hev
      rw [hout e rfl, h.tags]
    · exact h.outcomes pre e post' hpre

/-! ## Every run tracks its history -/

/-- The manager is where a tag store and events of its log lead. -/
def Manager.Tracks (t₀ : Nat → TagEntry) (log₀ : List Event) (m : Manager) : Prop :=
  ∃ evs, m.log = log₀ ++ evs ∧ DramCache.Tracks t₀ evs m.tagMetadataStore

namespace Manager.Tracks

variable {t₀ : Nat → TagEntry} {log₀ : List Event} {m m' : Manager}

theorem quiet (h : m.Tracks t₀ log₀) : ∀ {l : List Event}, m'.log = m.log ++ l →
    (∀ ev ∈ l, ev.touched? = none) → m'.tagMetadataStore = m.tagMetadataStore →
    m'.Tracks t₀ log₀ := by
  obtain ⟨past, hpast, ht⟩ := h
  intro evs hlog hevs htags
  refine ⟨past ++ evs, by rw [hlog, hpast, List.append_assoc], ?_⟩
  rw [htags]
  clear hlog
  induction evs using List.reverseRecOn with
  | nil => simpa using ht
  | append_singleton evs ev ih =>
      rw [← List.append_assoc]
      exact (ih fun ev' h' => hevs ev' (List.mem_append_left _ h')).quiet
        (hevs ev (by simp))

theorem touch (h : m.Tracks t₀ log₀) {x : Event} {r : Request} (hlog : m'.log = m.log ++ [x])
    (hev : x.touched? = some r) (htags : m'.tagMetadataStore = Function.update
      m.tagMetadataStore r.indexDC ((m.tagMetadataStore r.indexDC).touch r))
    (hout : ∀ e, x = .admitted e → e.outcome = (m.tagMetadataStore r.indexDC).outcome r) :
    m'.Tracks t₀ log₀ := by
  obtain ⟨past, hpast, ht⟩ := h
  refine ⟨past ++ [x], by rw [hlog, hpast, List.append_assoc], ?_⟩
  rw [htags]
  exact ht.touch hev hout

/-- The log and the tag store are all that matters. -/
theorem congr (h : m.Tracks t₀ log₀) (hlog : m'.log = m.log)
    (htags : m'.tagMetadataStore = m.tagMetadataStore) : m'.Tracks t₀ log₀ :=
  h.quiet (l := []) (by simp [hlog]) (by simp) htags

theorem core (h : m.Tracks t₀ log₀) (hc : m'.core = m.core) : m'.Tracks t₀ log₀ :=
  have hlog : m'.core.log = m.core.log := by rw [hc]
  have htags : m'.core.tagMetadataStore = m.core.tagMetadataStore := by rw [hc]
  h.congr hlog htags

theorem warmed (h : m.Tracks t₀ log₀) (pkt : Packet) (w : Bool) :
    (m.warmupTagUpdate pkt w).Tracks t₀ log₀ :=
  h.touch (x := .warmed w pkt) rfl rfl (m.warmupTagUpdate_touch pkt w) (by simp)

theorem admitted (h : m.Tracks t₀ log₀) (pkt : Packet) (w : Bool) (arr : Option Nat)
    (now : Nat) : (m.admitEntry pkt w arr now).Tracks t₀ log₀ := by
  refine h.touch (m.admitEntry_log pkt w arr now) rfl (m.admitEntry_touch pkt w arr now) ?_
  rintro e ⟨⟩
  exact m.admittedEntry_outcome pkt w arr now

theorem silent (h : m.Tracks t₀ log₀) (hs : Silent m m') : m'.Tracks t₀ log₀ := by
  obtain ⟨evs, hlog, hevs⟩ := hs.log
  exact h.quiet hlog (fun ev hev => Event.untouched (hevs ev hev)) hs.tags

theorem admission {s : Sys} (h : s.dcm.Tracks t₀ log₀) (pkt : Packet) (w : Bool) :
    (s.admission pkt w).1.dcm.Tracks t₀ log₀ := by
  have hacc : (s.dcm.emit (.accepted w pkt)).Tracks t₀ log₀ :=
    h.quiet rfl (by simp [Event.touched?]) rfl
  unfold Sys.admission
  split
  · split
    · exact h.congr rfl rfl
    · exact h.quiet rfl (by simp [Event.touched?]) rfl
  · split
    · exact h.congr rfl rfl
    · split
      · exact h.congr rfl rfl
      · exact hacc.admitted pkt w none _

/-- A bypass request goes to far memory and no further. -/
theorem bypassed {s : Sys} {pkt : Packet} {w : Bool} (h : m.Tracks t₀ log₀)
    (hlog : s.dcm.log = m.log ++ [.handFar none pkt w])
    (htags : s.dcm.tagMetadataStore = m.tagMetadataStore) :
    (s.dispatchToFarGuaranteed pkt w).1.dcm.Tracks t₀ log₀ := by
  have hs : s.dcm.Tracks t₀ log₀ := h.quiet hlog (by simp [Event.touched?]) htags
  exact hs.core (Sys.dispatchToFarGuaranteed_core s pkt w)

theorem enter {s : Sys} (h : s.dcm.Tracks t₀ log₀) (op : Op) :
    (s.enter op).1.dcm.Tracks t₀ log₀ := by
  have hwarm : ∀ pkt w,
      (if !s.dcm.bypassDcache then s.onDcm (·.warmupTagUpdate pkt w) else s).dcm.Tracks
        t₀ log₀ := by
    intro pkt w
    split
    · exact h.warmed pkt w
    · exact h
  cases op with
  | addRq pkt =>
      dsimp only [Sys.enter, Sys.addRq]
      split
      · exact (hwarm pkt false).quiet (l := Manager.upcalls ..) rfl
          (fun ev hev => Event.untouched (upcalls_silent ev hev)) rfl
      · split
        · exact Tracks.bypassed h rfl rfl
        · exact h.admission pkt false
  | addWq pkt =>
      dsimp only [Sys.enter, Sys.addWq]
      split
      · exact hwarm pkt true
      · split
        · exact Tracks.bypassed h rfl rfl
        · exact h.admission pkt true
  | _ => exact h.congr rfl rfl

theorem exec {s s' : Sys} {c : Call} {ks : List Call} (h : s.dcm.Tracks t₀ log₀)
    (he : s.exec c = .ok (s', ks)) : s'.dcm.Tracks t₀ log₀ := by
  have hc : s'.dcm.core.Tracks t₀ log₀ := by
    rcases (Sys.exec_frontStep he).silent_or_promote with hs | ⟨i, w, now, -, -, hp⟩
    · exact Manager.Tracks.silent (m := s.dcm.core) h hs
    · rw [hp]
      have htake : (s.dcm.core.takeWaiter i).Tracks t₀ log₀ := h.congr rfl rfl
      exact htake.admitted ..
  exact hc

end Manager.Tracks

/-- **The tag store is a function of the history**, in every run from
every state. -/
theorem tracks_of_reaches {allow : Op → Prop} {ok : Worklist.Config Sys Call → Prop} {s₀ : Sys}
    {x : Worklist.Config Sys Call} (h : ReachesIf machine allow ok s₀ x) :
    x.2.dcm.Tracks s₀.dcm.tagMetadataStore s₀.dcm.log :=
  h.invariant (P := fun x => x.2.dcm.Tracks s₀.dcm.tagMetadataStore s₀.dcm.log)
    ⟨[], by simp, .nil _⟩ (fun op _ _ _ _ hp => hp.enter op)
    (fun _ _ _ _ _ _ _ hp he => hp.exec he)

/-! ## Which calls touch the store -/

/-- What a call touches the store with: the oldest waiter of the index it
promotes. -/
def Call.touches (m : Manager) : Call → List Request
  | .promoteFromCRB i => ((m.waiter? i).map CrbEntry.request).toList
  | _ => []

theorem touched_quiet {evs : List Event} (h : ∀ ev ∈ evs, ev.isAdmission = false) :
    touched evs = [] :=
  List.filterMap_eq_nil_iff.mpr fun ev hev => Event.untouched (h ev hev)

theorem touched_admission (s : Sys) (pkt : Packet) (w : Bool) :
    touched (s.admission pkt w).1.dcm.log = touched s.dcm.log ++
      if s.dcm.checkConflictInORB (returnIndexDC pkt.address) = false ∧
          (s.admission pkt w).2.1 ≠ -2 then [(w, pkt)] else [] := by
  unfold Sys.admission
  split
  · rename_i hc
    simp only [hc, Bool.true_eq_false, false_and, if_false, List.append_nil]
    split
    · rfl
    · exact (touched_append ..).trans (List.append_nil _)
  · rename_i hc
    simp only [Bool.eq_false_of_not_eq_true hc, true_and]
    split
    · exact (List.append_nil _).symm
    · split
      · exact (List.append_nil _).symm
      · simp only [Sys.admitRequest, Sys.onDcm_dcm, Manager.admitEntry_log, Manager.emit,
          touched_append]
        exact congrArg (· ++ _) (List.append_nil _)

/-- A bypass request touches nothing. -/
theorem touched_bypassed {s s' : Sys} {pkt : Packet} {w : Bool}
    (hlog : s'.dcm.log = s.dcm.log ++ [.handFar none pkt w]) :
    touched (s'.dispatchToFarGuaranteed pkt w).1.dcm.log = touched s.dcm.log := by
  have hcore : (s'.dispatchToFarGuaranteed pkt w).1.dcm.core.log = s'.dcm.core.log := by
    rw [Sys.dispatchToFarGuaranteed_core]
  refine (congrArg touched (hcore.trans hlog)).trans ?_
  exact (touched_append ..).trans (List.append_nil _)

theorem touched_warmup {s : Sys} (hwarm : s.allWarmupComplete < numCpus) (w : Bool)
    (pkt : Packet) : touched (s.addRequest pkt w).1.dcm.log = touched s.dcm.log ++
      if s.dcm.bypassDcache = false then [(w, pkt)] else [] := by
  have hcall : ∀ now, touched (Manager.upcalls .warmup pkt now) = [] := fun _ =>
    touched_quiet upcalls_silent
  cases w <;> simp only [Sys.addRequest, Sys.addRq, Sys.addWq, if_pos hwarm, if_true,
    Bool.false_eq_true, if_false] <;> cases s.dcm.bypassDcache
  · exact (touched_append ..).trans (by rw [hcall, List.append_nil]; exact touched_append ..)
  · exact (touched_append ..).trans (by rw [hcall]; rfl)
  · exact touched_append ..
  · exact (List.append_nil _).symm

/-- A request touches the store when it is entered, unless it bypasses the
cache, waits in the CRB or is refused. -/
theorem touched_addRequest (s : Sys) (w : Bool) (pkt : Packet) :
    touched (s.addRequest pkt w).1.dcm.log = touched s.dcm.log ++
      if s.dcm.bypassDcache = false ∧ (s.allWarmupComplete < numCpus ∨
          s.dcm.checkConflictInORB (returnIndexDC pkt.address) = false ∧
            (s.addRequest pkt w).2.1 ≠ -2) then [(w, pkt)] else [] := by
  by_cases hwarm : s.allWarmupComplete < numCpus
  · simp only [hwarm, true_or, and_true]
    exact touched_warmup hwarm w pkt
  simp only [hwarm, false_or]
  cases hb : s.dcm.bypassDcache
  · have heq : s.addRequest pkt w = s.admission pkt w := by
      cases w <;> simp [Sys.addRequest, Sys.addRq, Sys.addWq, hwarm, hb]
    simp only [heq, true_and]
    exact touched_admission s pkt w
  · simp only [Bool.true_eq_false, false_and, if_false, List.append_nil]
    cases w <;> simp only [Sys.addRequest, Sys.addRq, Sys.addWq, if_neg hwarm, hb, if_true,
      Bool.false_eq_true, if_false] <;> exact touched_bypassed rfl

/-- After that only a promotion touches it, with the waiter it admits. -/
theorem touched_exec {s s' : Sys} {c : Call} {ks : List Call} (he : s.exec c = .ok (s', ks)) :
    touched s'.dcm.log = touched s.dcm.log ++ c.touches s.dcm := by
  by_cases hc : ∃ i, c = .promoteFromCRB i
  · obtain ⟨i, rfl⟩ := hc
    obtain rfl : (s.promoteFromCRB i).1 = s' := congrArg Prod.fst (Except.ok.inj he)
    dsimp only [Call.touches, Sys.promoteFromCRB]
    cases hw : s.dcm.waiter? i with
    | none => exact (List.append_nil _).symm
    | some w =>
        dsimp only [Sys.admitRequest, Sys.onDcm_dcm]
        rw [Manager.admitEntry_log, touched_append]
        rfl
  · rcases (Sys.exec_frontStep he).silent_or_promote with hs | ⟨i, w, now, hi, -⟩
    · obtain ⟨evs, hlog, hevs⟩ := hs.log
      have hlog' : s'.dcm.log = s.dcm.log ++ evs := hlog
      have hnone : c.touches s.dcm = [] := by
        cases c with
        | promoteFromCRB i => exact absurd ⟨i, rfl⟩ hc
        | _ => rfl
      rw [hlog', touched_append, touched_quiet hevs, hnone]
    · exact absurd ⟨i, hi⟩ hc

/-! ## Refinement of the reference cache -/

def Request.access (r : Request) : DirectMapped.Access Nat := (r.1, r.2.address)

/-- The line a slot stands for. -/
def TagEntry.line? (t : TagEntry) : Option (DirectMapped.Line Nat) :=
  if t.validLine then some { addr := t.farMemAddr, dirty := t.dirtyLine } else none

namespace TagEntry

variable {i : Nat} {t : TagEntry} {r : Request}

theorem coherent_default (i : Nat) : ({} : TagEntry).Coherent i :=
  ⟨fun h => (Bool.false_ne_true h).elim, fun h => (Bool.false_ne_true h).elim⟩

/-- Within an index, tags tell addresses apart. -/
theorem Coherent.tag_eq_iff (h : t.Coherent i) (hv : t.validLine = true) (hr : r.indexDC = i) :
    t.tagDC = returnTagDC r.2.address ↔ t.farMemAddr = r.2.address := by
  have hidx : t.farMemAddr % dcmNumLines = r.2.address % dcmNumLines :=
    (h.index hv).trans hr.symm
  rw [h.tag hv]
  constructor
  · intro heq
    have heq' : t.farMemAddr / dcmNumLines = r.2.address / dcmNumLines := heq
    rw [← Nat.div_add_mod t.farMemAddr dcmNumLines, heq', hidx, Nat.div_add_mod]
  · intro heq
    rw [heq]

theorem Coherent.address (h : t.Coherent i) (hv : t.validLine = true) :
    t.tagDC * dcmNumLines + i = t.farMemAddr := by
  rw [h.tag hv, ← h.index hv]
  exact Nat.div_add_mod' t.farMemAddr dcmNumLines

theorem touch_coherent (hr : r.indexDC = i) : (t.touch r).Coherent i :=
  ⟨fun _ => hr, fun _ => rfl⟩

theorem Coherent.hit (h : t.Coherent i) (hr : r.indexDC = i) :
    (t.outcome r).isHit = DirectMapped.hit t.line? r.access := by
  dsimp only [outcome, DirectMapped.hit, line?, Request.access]
  cases hv : t.validLine
  · rfl
  · simp [h.tag_eq_iff hv hr]

theorem Coherent.victim (h : t.Coherent i) (hr : r.indexDC = i) :
    (t.outcome r).victim = DirectMapped.victim? t.line? r.access := by
  dsimp only [outcome, DirectMapped.victim?, line?, Request.access]
  cases hv : t.validLine
  · simp
  · simp [h.tag_eq_iff hv hr, and_comm]

theorem Coherent.touch_line (h : t.Coherent i) (hr : r.indexDC = i) :
    (t.touch r).line? = some (DirectMapped.access t.line? r.access) := by
  dsimp only [touch, line?, DirectMapped.access, Request.access]
  cases hv : t.validLine
  · simp
  · simp [h.tag_eq_iff hv hr]

/-- A slot goes through its requests as the reference does. -/
theorem Coherent.after (h : t.Coherent i) {rs : List Request} : (∀ r ∈ rs, r.indexDC = i) →
    (t.after rs).Coherent i ∧
      (t.after rs).line? = DirectMapped.slotRun t.line? (rs.map Request.access) := by
  induction rs using List.reverseRecOn with
  | nil => exact fun _ => ⟨h, rfl⟩
  | append_singleton rs r ih =>
      intro hrs
      obtain ⟨hc, hl⟩ := ih fun r' h' => hrs r' (List.mem_append_left _ h')
      have hr : r.indexDC = i := hrs r (by simp)
      have hstep : t.after (rs ++ [r]) = (t.after rs).touch r := by simp [TagEntry.after]
      rw [hstep, List.map_append, List.map_singleton, DirectMapped.slotRun_concat, ← hl]
      exact ⟨touch_coherent hr, hc.touch_line hr⟩

end TagEntry

theorem indexDC_of_mem_touchedAt {i : Nat} {log : List Event} :
    ∀ r ∈ touchedAt i log, r.indexDC = i := fun _ hr => by
  simpa using (List.mem_filter.mp hr).2

/-- The reference cache after the requests of a log. -/
def reference (log : List Event) : DirectMapped.Cache Nat Nat :=
  DirectMapped.run returnIndexDC (fun _ => none) ((touched log).map Request.access)

theorem restrict_access (i : Nat) (rs : List Request) :
    Keyed.restrict (fun a => returnIndexDC a.2) i (rs.map Request.access)
      = (Keyed.restrict Request.indexDC i rs).map Request.access := by
  rw [Keyed.restrict_map]
  rfl

theorem reference_apply (log : List Event) (i : Nat) : reference log i
    = DirectMapped.slotRun none ((touchedAt i log).map Request.access) := by
  rw [reference, DirectMapped.run_apply, restrict_access]
  rfl

/-- From power-on, a slot is coherent and stands for the reference's line. -/
theorem after_reference (i : Nat) (log : List Event) :
    (TagEntry.after {} (touchedAt i log)).Coherent i ∧
      (TagEntry.after {} (touchedAt i log)).line? = reference log i := by
  rw [reference_apply]
  exact (TagEntry.coherent_default i).after indexDC_of_mem_touchedAt

/-- A slot is valid once its index has been accessed. -/
theorem after_valid (i : Nat) (log : List Event) :
    (TagEntry.after {} (touchedAt i log)).validLine = true ↔
      ∃ r ∈ touched log, r.indexDC = i := by
  have hline := (after_reference i log).2
  rw [reference_apply] at hline
  have hsome : (TagEntry.after {} (touchedAt i log)).validLine = true ↔
      (TagEntry.after {} (touchedAt i log)).line?.isSome := by
    unfold TagEntry.line?
    split <;> simp_all
  rw [hsome, hline, DirectMapped.slotRun_isSome, ne_eq, List.map_eq_nil_iff, touchedAt,
    Keyed.restrict, List.filter_eq_nil_iff]
  simp only [decide_eq_true_eq, not_forall, not_not, exists_prop]

/-- **The tag store refines the reference cache.** In every run from
power-on, through warm-up and past it, with bypass mode on and off: the
slots stand for the reference's lines; a slot is valid iff its index has
been accessed, and then it holds the last address accessed, which tag and
index recover, and is dirty iff that line was written since it was
installed; every entry was admitted with the reference's hit, dirty
eviction and victim of that moment; a run whose requests agree index
by index, warm or not, has the same tag store; and the accesses are the
requests taken in warm-up or admitted at once, and the waiters promoted. -/
theorem tag_store_refines {near far : MemoryController} {clk : Clock} {frontend backend : Nat}
    {x : Worklist.Config Sys Call}
    (h : Reaches machine (fun _ => True) (.boot near far clk frontend backend) x) :
    (∀ i, (x.2.dcm.tagMetadataStore i).line? = reference x.2.dcm.log i) ∧
    (∀ i, (x.2.dcm.tagMetadataStore i).validLine = true ↔
      ∃ r ∈ touched x.2.dcm.log, r.indexDC = i) ∧
    (∀ i, (x.2.dcm.tagMetadataStore i).validLine = true →
      let slot := x.2.dcm.tagMetadataStore i
      let accesses := (touchedAt i x.2.dcm.log).map Request.access
      accesses.getLast?.map (fun a => a.2) = some slot.farMemAddr ∧
      slot.tagDC * dcmNumLines + i = slot.farMemAddr ∧
      (slot.dirtyLine = true ↔
        ∃ a ∈ DirectMapped.sinceInstall slot.farMemAddr accesses, a.1 = true)) ∧
    (∀ pre e post, x.2.dcm.log = pre ++ .admitted e :: post →
      e.isHit = DirectMapped.hit (reference pre e.request.indexDC) e.request.access ∧
      (if e.handleDirtyLine then some e.dirtyLineAddr else none)
        = DirectMapped.victim? (reference pre e.request.indexDC) e.request.access) ∧
    (∀ near' far' clk' frontend' backend' y,
      Reaches machine (fun _ => True) (.boot near' far' clk' frontend' backend') y →
      (∀ i, touchedAt i y.2.dcm.log = touchedAt i x.2.dcm.log) →
      y.2.dcm.tagMetadataStore = x.2.dcm.tagMetadataStore) ∧
    (∀ w pkt, touched (x.2.addRequest pkt w).1.dcm.log = touched x.2.dcm.log ++
      if x.2.dcm.bypassDcache = false ∧ (x.2.allWarmupComplete < numCpus ∨
          x.2.dcm.checkConflictInORB (returnIndexDC pkt.address) = false ∧
            (x.2.addRequest pkt w).2.1 ≠ -2) then [(w, pkt)] else []) ∧
    (∀ c s' ks, machine.exec c x.2 = .ok (s', ks) →
      touched s'.dcm.log = touched x.2.dcm.log ++ c.touches x.2.dcm) := by
  have htracks : ∀ {near far clk frontend backend} {x : Worklist.Config Sys Call},
      Reaches machine (fun _ => True) (.boot near far clk frontend backend) x →
        Tracks (fun _ => {}) x.2.dcm.log x.2.dcm.tagMetadataStore := by
    intro near far clk frontend backend x hx
    obtain ⟨evs, hlog, ht⟩ := tracks_of_reaches hx
    obtain rfl : evs = x.2.dcm.log := by simpa [Sys.boot] using hlog.symm
    exact ht
  obtain ⟨htags, hout⟩ := htracks h
  refine ⟨fun i => ?_, fun i => ?_, fun i hv => ?_, fun pre e post hlog => ?_, ?_,
    touched_addRequest x.2, fun c s' ks he => touched_exec he⟩
  · rw [htags]
    exact (after_reference i _).2
  · rw [htags]
    exact after_valid i _
  · rw [htags] at hv ⊢
    obtain ⟨hc, hline⟩ := after_reference i x.2.dcm.log
    rw [TagEntry.line?, if_pos hv, reference_apply] at hline
    exact ⟨DirectMapped.slotRun_addr hline.symm, hc.address hv,
      DirectMapped.slotRun_dirty _ hline.symm⟩
  · have ho := hout pre e post hlog
    obtain ⟨hc, hline⟩ := after_reference e.request.indexDC pre
    rw [← hline, ← hc.hit rfl, ← hc.victim rfl, ← ho]
    exact ⟨rfl, rfl⟩
  · intro near' far' clk' frontend' backend' y hy hsame
    funext i
    rw [htags, (htracks hy).tags, hsame]

/-- A line is written in warm-up, hit afterwards, and evicted by the next
request of its index. -/
theorem tag_store_refines_warm_write : ∃ s, Worklist.drive machine 60
    [.addWq (.readOf 5), .finishWarmup, .addRq (.readOf 5), .addRq (.readOf (dcmNumLines + 5)),
      .operate, .operate] (.boot (.new 0 0 0 0) (.new 0 0 0 0) .zero 0 0) = some s ∧
    ∀ i, (s.dcm.tagMetadataStore i).line? = reference s.dcm.log i := by
  obtain ⟨s, hs⟩ := Option.isSome_iff_exists.mp
    (show (Worklist.drive machine 60 [.addWq (.readOf 5), .finishWarmup, .addRq (.readOf 5),
      .addRq (.readOf (dcmNumLines + 5)), .operate, .operate]
      (.boot (.new 0 0 0 0) (.new 0 0 0 0) .zero 0 0)).isSome from by decide +kernel)
  have hr : Reaches machine (fun _ => True) _ ([], s) :=
    Worklist.drive_reaches (fun _ _ => trivial) .refl hs
  exact ⟨s, hs, (tag_store_refines hr).1⟩

end DramCache
