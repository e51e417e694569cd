import DramCache.Orb

/-!
# Histories

What the log says happened, as lists: requests accepted, warmed and
admitted, packets handed over, responses delivered. `FrontStep.silent_or_promote` and
`FrontEnter.silent_or_request` say which steps add to the admission
history; every other step leaves the CRB and the tag store alone.
-/

namespace DramCache

/-- A request as the port sees it: is it a write, and its packet. -/
abbrev Request := Bool × Packet

def Request.indexDC (r : Request) : Nat := returnIndexDC r.2.address

def CrbEntry.request (c : CrbEntry) : Request := (c.isWriteReq, c.pkt)

def OrbEntry.request (e : OrbEntry) : Request := (e.isWriteReq, e.pkt)

/-! ## Selections from the log -/

def Event.accepted? : Event → Option Request
  | .accepted w pkt => some (w, pkt)
  | _ => none

def Event.admitted? : Event → Option OrbEntry
  | .admitted e => some e
  | _ => none

/-- Accepted, warmed or admitted: the events of the admission history. -/
def Event.isAdmission : Event → Bool
  | .accepted .. | .warmed .. | .admitted _ => true
  | _ => false

def accepted (log : List Event) : List Request := log.filterMap Event.accepted?

/-- The entries admitted, as classified, in order. -/
def admitted (log : List Event) : List OrbEntry := log.filterMap Event.admitted?

/-- The requests admitted, in order. -/
def admittedRequests (log : List Event) : List Request :=
  (admitted log).map OrbEntry.request

@[simp] theorem accepted_append (l₁ l₂ : List Event) :
    accepted (l₁ ++ l₂) = accepted l₁ ++ accepted l₂ := List.filterMap_append ..

@[simp] theorem admitted_append (l₁ l₂ : List Event) :
    admitted (l₁ ++ l₂) = admitted l₁ ++ admitted l₂ := List.filterMap_append ..

@[simp] theorem admittedRequests_append (l₁ l₂ : List Event) :
    admittedRequests (l₁ ++ l₂) = admittedRequests l₁ ++ admittedRequests l₂ := by
  simp [admittedRequests]

theorem accepted_silent {evs : List Event} (h : ∀ ev ∈ evs, ev.isAdmission = false) :
    accepted evs = [] := by
  refine List.filterMap_eq_nil_iff.mpr fun ev hev => ?_
  have := h ev hev
  cases ev <;> simp_all [Event.isAdmission, Event.accepted?]

theorem admitted_silent {evs : List Event} (h : ∀ ev ∈ evs, ev.isAdmission = false) :
    admitted evs = [] := by
  refine List.filterMap_eq_nil_iff.mpr fun ev hev => ?_
  have := h ev hev
  cases ev <;> simp_all [Event.isAdmission, Event.admitted?]

/-- A warm-up log accepts and admits nothing. -/
theorem warmup_silent {log : List Event} (h : ∀ ev ∈ log, ev.isWarmup = true) :
    accepted log = [] ∧ admitted log = [] := by
  constructor <;> refine List.filterMap_eq_nil_iff.mpr fun ev hev => ?_ <;>
    have := h ev hev <;>
    cases ev <;> simp_all [Event.isWarmup, Event.accepted?, Event.admitted?]

/-! ## Steps and the admission history -/

/-- The admission history, the CRB and the tag store stand still. -/
structure Silent (m m' : Manager) : Prop where
  log : ∃ evs, m'.log = m.log ++ evs ∧ ∀ ev ∈ evs, ev.isAdmission = false
  crb : m'.crb = m.crb
  tags : m'.tagMetadataStore = m.tagMetadataStore

theorem Silent.same {m m' : Manager} (hlog : m'.log = m.log) (hcrb : m'.crb = m.crb)
    (htags : m'.tagMetadataStore = m.tagMetadataStore) : Silent m m' :=
  ⟨⟨[], by simp [hlog], by simp⟩, hcrb, htags⟩

theorem Silent.one {m m' : Manager} {ev : Event} (hlog : m'.log = m.log ++ [ev])
    (hev : ev.isAdmission = false) (hcrb : m'.crb = m.crb)
    (htags : m'.tagMetadataStore = m.tagMetadataStore) : Silent m m' :=
  ⟨⟨[ev], hlog, by simpa using hev⟩, hcrb, htags⟩

theorem Silent.accepted {m m' : Manager} (h : Silent m m') :
    accepted m'.log = accepted m.log := by
  obtain ⟨evs, hlog, hevs⟩ := h.log
  rw [hlog, accepted_append, accepted_silent hevs, List.append_nil]

theorem Silent.admitted {m m' : Manager} (h : Silent m m') :
    admitted m'.log = admitted m.log := by
  obtain ⟨evs, hlog, hevs⟩ := h.log
  rw [hlog, admitted_append, admitted_silent hevs, List.append_nil]

theorem upcalls_silent {why : Upcall} {pkt : Packet} {now : Nat} :
    ∀ ev ∈ Manager.upcalls why pkt now, ev.isAdmission = false := by
  intro ev hev
  simp only [Manager.upcalls, List.mem_append] at hev
  rcases hev with hev | hev <;> split at hev <;> simp_all [Event.isAdmission]

theorem victimEvents_silent {e : OrbEntry} :
    ∀ ev ∈ Manager.victimEvents e, ev.isAdmission = false := by
  intro ev hev
  simp only [Manager.victimEvents] at hev
  split at hev <;> simp_all [Event.isAdmission]

theorem retired_silent {e : OrbEntry} {lat now : Nat} :
    ∀ ev ∈ Event.retired e now :: Manager.respondNow e lat now, ev.isAdmission = false := by
  intro ev hev
  rcases List.mem_cons.mp hev with rfl | hev
  · rfl
  · unfold Manager.respondNow at hev
    split at hev
    · exact upcalls_silent ev hev
    · cases hev

/-- A call is silent, or admits the waiter of a hole. -/
theorem FrontStep.silent_or_promote {m m' : Manager} {c : Call} {ks : List Call}
    (h : FrontStep m c m' ks) : Silent m m' ∨
      ∃ i w now, c = .promoteFromCRB i ∧ m.waiter? i = some w ∧
        m' = (m.takeWaiter i).admitEntry w.pkt w.isWriteReq (some w.arrivalCycle) now := by
  cases h with
  | bypassed now _ => exact .inl ⟨⟨_, rfl, upcalls_silent⟩, rfl, rfl⟩
  | untracked _ => exact .inl (.one rfl rfl rfl rfl)
  | stray _ _ => exact .inl (.one rfl rfl rfl rfl)
  | @nearEnter side pkt e st now _ _ _ =>
      refine .inl ⟨⟨.answered side e :: Manager.victimEvents e, ?_, ?_⟩, ?_, ?_⟩
      · simp [Manager.enterState, Manager.emit]
      · simpa using ⟨rfl, victimEvents_silent⟩
      · simp [Manager.enterState, Manager.emit]
      · simp [Manager.enterState, Manager.emit]
  | @nearHit side pkt e lat now _ _ _ _ =>
      refine .inl ⟨⟨.answered side e :: Manager.victimEvents e
        ++ .retired e now :: Manager.respondNow e lat now, ?_, ?_⟩, ?_, ?_⟩
      · simp [Manager.emit]
      · intro ev hev
        rcases List.mem_append.mp hev with hev | hev
        · rcases List.mem_cons.mp hev with rfl | hev
          · rfl
          · exact victimEvents_silent ev hev
        · exact retired_silent ev hev
      · simp [Manager.emit]
      · simp [Manager.emit]
  | @farDone side pkt e lat now _ _ =>
      refine .inl ⟨⟨.answered side e :: .retired e now :: Manager.respondNow e lat now,
        ?_, ?_⟩, ?_, ?_⟩
      · simp [Manager.emit, Manager.farAnswered, Manager.count]
      · intro ev hev
        rcases List.mem_cons.mp hev with rfl | hev
        · rfl
        · exact retired_silent ev hev
      · simp [Manager.emit, Manager.farAnswered, Manager.count]
      · simp [Manager.emit, Manager.farAnswered, Manager.count]
  | readNear _ _ _ _ => exact .inl (.one rfl rfl rfl rfl)
  | readFar _ _ _ _ => exact .inl (.one rfl rfl rfl rfl)
  | writeNear _ _ _ => exact .inl (.one rfl rfl rfl rfl)
  | @complete a lat e now _ =>
      exact .inl ⟨⟨_, Manager.retire_log .., retired_silent⟩, by simp, by simp⟩
  | promote now hw => exact .inr ⟨_, _, now, rfl, hw, rfl⟩
  | @flag a i =>
      rcases m.flagConflict_eq a i with hf | ⟨e, -, hf⟩ <;> rw [hf] <;>
        exact .inl (.same rfl rfl rfl)
  | fill _ => exact .inl (.one rfl rfl rfl rfl)
  | drained _ => exact .inl (.one rfl rfl rfl rfl)
  | responses clk =>
      obtain ⟨due, rest, -, hr⟩ := Manager.releaseResponses_eq clk m.pendingResponses m
      rw [Manager.processPendingResponses, hr]
      refine .inl ⟨⟨_, rfl, ?_⟩, rfl, rfl⟩
      intro ev hev
      obtain ⟨r, -, hev⟩ := List.mem_flatMap.mp hev
      exact upcalls_silent ev hev
  | samples => exact .inl (.same rfl rfl rfl)
  | quiet _ _ => exact .inl (.same rfl rfl rfl)
  | driveIdle _ => exact .inl (.same rfl rfl rfl)
  | completeNone _ => exact .inl (.same rfl rfl rfl)
  | promoteNone _ => exact .inl (.same rfl rfl rfl)

/-- Which events a call may log. -/
def Call.emits : Call → Event → Bool
  | .returnData .., .answered .. | .returnData .., .untracked .. | .returnData .., .wbQueued ..
  | .returnData .., .retired .. | .returnData .., .upcall .. => true
  | .driveState _, .handNear .. | .driveState _, .handFar (some _) _ false => true
  | .completeRequest .., .retired .. | .completeRequest .., .upcall .. => true
  | .promoteFromCRB _, .admitted _ => true
  | .backgroundFill .., .handNear .. => true
  | .drainWB, .handFar none _ true => true
  | .processPendingResponses, .upcall .. => true
  | _, _ => false

/-- The log only grows, by what the call emits. -/
theorem FrontStep.emits {m m' : Manager} {c : Call} {ks : List Call} (h : FrontStep m c m' ks) :
    ∃ evs, m'.log = m.log ++ evs ∧ ∀ ev ∈ evs, c.emits ev = true := by
  have hsame : m'.log = m.log → ∃ evs, m'.log = m.log ++ evs ∧ ∀ ev ∈ evs, c.emits ev = true :=
    fun hlog => ⟨[], by rw [hlog, List.append_nil], by simp⟩
  have hone : ∀ {ev}, m'.log = m.log ++ [ev] → c.emits ev = true →
      ∃ evs, m'.log = m.log ++ evs ∧ ∀ ev ∈ evs, c.emits ev = true :=
    fun hlog hev => ⟨_, hlog, by simpa using hev⟩
  cases h with
  | bypassed now _ =>
      refine ⟨_, rfl, fun ev hev => ?_⟩
      obtain ⟨port, rfl⟩ := Manager.mem_upcalls hev
      rfl
  | untracked => exact hone rfl rfl
  | stray => exact hone rfl rfl
  | @nearEnter side pkt e st now =>
      refine ⟨.answered side e :: Manager.victimEvents e, ?_, fun ev hev => ?_⟩
      · simp [Manager.enterState, Manager.emit]
      · rcases List.mem_cons.mp hev with rfl | hev
        · rfl
        · rw [Manager.mem_victimEvents hev]
          rfl
  | @nearHit side pkt e lat now =>
      refine ⟨.answered side e :: (Manager.victimEvents e
        ++ .retired e now :: Manager.respondNow e lat now), ?_, fun ev hev => ?_⟩
      · simp [Manager.emit]
      · rcases List.mem_cons.mp hev with rfl | hev
        · rfl
        · rcases List.mem_append.mp hev with hev | hev
          · rw [Manager.mem_victimEvents hev]
            rfl
          · rcases List.mem_cons.mp hev with rfl | hev
            · rfl
            · obtain ⟨port, rfl⟩ := Manager.mem_respondNow hev
              rfl
  | @farDone side pkt e lat now =>
      refine ⟨.answered side e :: .retired e now :: Manager.respondNow e lat now, ?_,
        fun ev hev => ?_⟩
      · simp [Manager.emit, Manager.farAnswered, Manager.count]
      · rcases List.mem_cons.mp hev with rfl | hev
        · rfl
        · rcases List.mem_cons.mp hev with rfl | hev
          · rfl
          · obtain ⟨port, rfl⟩ := Manager.mem_respondNow hev
            rfl
  | readNear => exact hone rfl rfl
  | readFar => exact hone rfl rfl
  | writeNear => exact hone rfl rfl
  | @complete a lat e now =>
      refine ⟨_, Manager.retire_log .., fun ev hev => ?_⟩
      rcases List.mem_cons.mp hev with rfl | hev
      · rfl
      · obtain ⟨port, rfl⟩ := Manager.mem_respondNow hev
        rfl
  | promote now => exact hone (Manager.admitEntry_log ..) rfl
  | @flag a i =>
      rcases m.flagConflict_eq a i with hf | ⟨e, -, hf⟩ <;> exact hsame (by rw [hf])
  | fill => exact hone rfl rfl
  | drained => exact hone rfl rfl
  | responses clk =>
      obtain ⟨due, rest, -, hr⟩ := Manager.releaseResponses_eq clk m.pendingResponses m
      rw [Manager.processPendingResponses, hr]
      refine ⟨_, rfl, fun ev hev => ?_⟩
      obtain ⟨r, -, hev⟩ := List.mem_flatMap.mp hev
      obtain ⟨port, rfl⟩ := Manager.mem_upcalls hev
      rfl
  | _ => exact hsame rfl

/-- The log only grows. -/
theorem FrontStep.log_append {m m' : Manager} {c : Call} {ks : List Call}
    (h : FrontStep m c m' ks) : ∃ evs, m'.log = m.log ++ evs :=
  h.emits.imp fun _ hevs => hevs.1

/-- An operation is silent, makes a request wait, or admits it. -/
theorem FrontEnter.silent_or_request {m m' : Manager} {op : Op} {ks : List Call}
    (h : FrontEnter m op m' ks) : Silent m m' ∨
      ∃ w pkt now, op.request? = some (w, pkt) ∧
        (m.checkConflictInORB (returnIndexDC pkt.address) = true ∧ m' = m.waitInCRB pkt w now
        ∨ m.checkConflictInORB (returnIndexDC pkt.address) = false ∧
          m' = (m.emit (.accepted w pkt)).admitEntry pkt w none now) := by
  cases h with
  | refused => exact .inl (.same rfl rfl rfl)
  | queued now hop hc _ => exact .inr ⟨_, _, now, hop, .inl ⟨hc, rfl⟩⟩
  | admitted now hop hc _ _ => exact .inr ⟨_, _, now, hop, .inr ⟨hc, rfl⟩⟩
  | operate => exact .inl (.same rfl rfl rfl)
  | configured => exact .inl (.same rfl rfl rfl)
  | statsReset => exact .inl (.same rfl rfl rfl)

/-- An operation adds to the admission history and to nothing else. -/
theorem FrontEnter.log_append {m m' : Manager} {op : Op} {ks : List Call}
    (h : FrontEnter m op m' ks) :
    ∃ evs, m'.log = m.log ++ evs ∧ ∀ ev ∈ evs, ev.isAdmission = true := by
  cases h with
  | @queued _ w pkt now => exact ⟨[.accepted w pkt], rfl, by simp [Event.isAdmission]⟩
  | @admitted _ w pkt now =>
      refine ⟨[.accepted w pkt, .admitted ((m.emit (.accepted w pkt)).admittedEntry pkt w none now)],
        ?_, by simp [Event.isAdmission]⟩
      rw [Manager.admitEntry_log, Manager.emit, List.append_assoc]
      rfl
  | _ => exact ⟨[], (List.append_nil _).symm, by simp⟩

end DramCache
