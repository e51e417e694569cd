import DramCache.Scoreboard

/-!
# Execution

Every instruction starts, completes and retires, once each and in this order,
and none starts before the instructions its registers come from have completed
(`dataflow`). What is ready to execute is in one of two arrays, once, and there
is always room.
-/

namespace DramCache

open Wakeup

/-! ## The life of an instruction -/

inductive Stage where
  | started
  | completed
  | retired
deriving Repr, DecidableEq

/-- The stage of the instruction `id` this event is. -/
def CoreEvent.stage (id : Nat) : CoreEvent → Option Stage
  | started i => if i = id then some .started else none
  | completed i => if i = id then some .completed else none
  | retired e => if e.instrId = id then some .retired else none
  | written _ => none

/-- The stages behind an instruction in the reorder buffer. -/
def stages : Returned → List Stage
  | .idle => []
  | .inflight => [.started]
  | .completed => [.started, .completed]

/-- The instruction number `k` of the trace. -/
def program (records : List InputInstr) (k : Nat) : OooInstr :=
  ((TraceFile.openTrace records).readInstrs (k + 1)).elim {} fun q => q.1[k]?.getD {}

/-- The instruction `id` takes a register from the instruction `k`, the last
one before it to write that register. -/
def Feeds (records : List InputInstr) (k id : Nat) : Prop :=
  ∃ j < numInstrSources, (program records id).sourceRegister j ≠ 0 ∧ k < id ∧
    (program records k).writes ((program records id).sourceRegister j) = true ∧
    ∀ m, k < m → m < id → (program records m).writes ((program records id).sourceRegister j) = false

/-- Whenever an instruction starts, those it takes registers from have completed. -/
def Flows (records : List InputInstr) (log : List CoreEvent) : Prop :=
  ∀ l₁ l₂ id, log = l₁ ++ .started id :: l₂ → ∀ k, Feeds records k id → .completed k ∈ l₁

/-- A read of more instructions begins with the same ones. -/
theorem readInstrs_program {records : List InputInstr} {n k : Nat} {is : List OooInstr}
    {f : TraceFile} (h : (TraceFile.openTrace records).readInstrs n = some (is, f)) (hk : k < n)
    (hne : records ≠ []) : is[k]? = some (program records k) := by
  obtain ⟨is', f', hread, hlen, -, hall⟩ := (TraceFile.openTrace_at records).readInstrs hne n
  obtain ⟨is'', f'', hread', hlen', -, hall'⟩ :=
    (TraceFile.openTrace_at records).readInstrs hne (k + 1)
  obtain rfl := (Prod.mk.inj (Option.some.inj (h.symm.trans hread))).1
  obtain ⟨r, r', hr, hr', hget⟩ := hall k hk
  obtain ⟨q, q', hq, hq', hget'⟩ := hall' k (Nat.lt_succ_self k)
  obtain rfl := Option.some.inj (hr.symm.trans hq)
  obtain rfl := Option.some.inj (hr'.symm.trans hq')
  unfold program
  rw [hread', hget, Option.elim_some, hget']
  rfl

theorem Flows.append {records : List InputInstr} {log : List CoreEvent} {e : CoreEvent}
    (h : Flows records log)
    (he : ∀ id, e = .started id → ∀ k, Feeds records k id → .completed k ∈ log) :
    Flows records (log ++ [e]) := by
  intro l₁ l₂ id hlog k hfeeds
  rcases List.eq_nil_or_concat l₂ with rfl | ⟨l₃, e', rfl⟩
  · -- the event just added
    obtain ⟨rfl, he'⟩ := List.append_inj' hlog rfl
    exact he id (List.cons.inj he').1 k hfeeds
  · have hlog' : log ++ [e] = (l₁ ++ .started id :: l₃) ++ [e'] := by
      rw [hlog]
      simp
    obtain ⟨hlog'', -⟩ := List.append_inj' hlog' rfl
    exact h l₁ l₃ id hlog'' k hfeeds

namespace O3Cpu

/-- What has happened to the instruction `id`. -/
def history (s : O3Cpu) (id : Nat) : List Stage := s.log.filterMap (CoreEvent.stage id)

theorem history_note (e : CoreEvent) (s : O3Cpu) (id : Nat) :
    (note e s).history id = s.history id ++ (e.stage id).toList := by
  unfold history note
  rw [List.filterMap_append]
  cases h : e.stage id with
  | none => simp [h]
  | some x => simp [h]

theorem completed_mem {s : O3Cpu} {id : Nat} (h : .completed ∈ s.history id) :
    CoreEvent.completed id ∈ s.log := by
  obtain ⟨e, he, hstage⟩ := List.mem_filterMap.mp h
  have heq : e = .completed id := by
    cases e <;> simp_all [CoreEvent.stage]
  exact heq ▸ he

/-- The log tells of the instructions what the reorder buffer does. -/
structure Logged (records : List InputInstr) (s : O3Cpu) : Prop where
  past : ∀ id < s.numRetired, s.history id = [.started, .completed, .retired]
  present : ∀ p < s.rob.occupancy, s.history (s.numRetired + p) = stages (s.rob.nth p).executed
  future : ∀ p, s.rob.occupancy ≤ p → s.history (s.numRetired + p) = []
  flows : Flows records s.log

end O3Cpu

/-! ## The invariant -/

namespace OooInstr

/-- Its turn is to execute. -/
structure ToExecute (e : OooInstr) : Prop where
  plain : e.isMemory = false
  scheduled : e.scheduled = .completed
  ready : e.regReady = true
  idle : e.executed = .idle

/-- Only what fetching writes has been written. -/
def Unissued (e : OooInstr) : Prop :=
  e = { e.asRead with
    eventCycle := e.eventCycle
    branchMispredicted := e.branchMispredicted
    translated := e.translated
    fetched := e.fetched }

theorem Unissued.fresh {e : OooInstr} (h : e.Unissued) :
    e.Fresh ∧ e.Sized ∧ e.scheduled = .idle := by
  have hblank := fresh_blank
  rw [h]
  exact ⟨⟨rfl, rfl, rfl, hblank.checked, rfl, hblank.index⟩, ⟨rfl, rfl⟩, rfl⟩

theorem Unissued.fetching {e e' : OooInstr} (h : e.Unissued)
    (he : e' = { e with
      eventCycle := e'.eventCycle
      branchMispredicted := e'.branchMispredicted
      translated := e'.translated
      fetched := e'.fetched }) : e'.Unissued := by
  unfold Unissued at h ⊢
  rw [he, h]
  rfl

end OooInstr

/-- Nothing of the buffer has been issued. -/
def CoreBuffer.Unissued (b : CoreBuffer) : Prop := ∀ e ∈ b.entry, e.Unissued

namespace O3Cpu

/-- The arrays hold what is to be executed, each entry once. -/
structure Issue (s : O3Cpu) (is₀ is₁ : List Nat) : Prop where
  rte0 : (s.ready .rte0).Holds robSize is₀
  rte1 : (s.ready .rte1).Holds robSize is₁
  nodup : (is₀ ++ is₁).Nodup
  mem : ∀ c, c ∈ is₀ ++ is₁ ↔ (s.rob.entryAt c).ToExecute

structure Board (s : O3Cpu) (w : Nat → Nat → Option Nat) (is₀ is₁ : List Nat) : Prop where
  scoreboard : Scoreboard s.rob w
  issue : Issue s is₀ is₁
  size : s.rob.size = robSize

structure Sound (records : List InputInstr) (s : O3Cpu) : Prop where
  pipelined : Pipelined records s
  board : ∃ w is₀ is₁, Board s w is₀ is₁
  logged : Logged records s
  ifetch : s.ifetchBuffer.Unissued
  decode : s.decodeBuffer.Unissued
  fault : s.fault ≠ some .readyToExecute

variable {records : List InputInstr} {s t : O3Cpu} {w : Nat → Nat → Option Nat}
  {is₀ is₁ : List Nat}

/-! ### What does not matter -/

theorem Issue.congr (h : Issue s is₀ is₁) (hready : ∀ a, a.ofMemory = false → t.ready a = s.ready a)
    (hrob : ∀ c, (t.rob.entryAt c).ToExecute ↔ (s.rob.entryAt c).ToExecute) : Issue t is₀ is₁ :=
  ⟨by rw [hready _ rfl]; exact h.rte0, by rw [hready _ rfl]; exact h.rte1, h.nodup,
    fun c => (h.mem c).trans (hrob c).symm⟩

theorem Logged.congr (h : Logged records s) (hlog : t.log = s.log)
    (hnum : t.numRetired = s.numRetired) (hocc : t.rob.occupancy = s.rob.occupancy)
    (hexecuted : ∀ p, (t.rob.nth p).executed = (s.rob.nth p).executed) : Logged records t := by
  have hhistory : t.history = s.history := by
    unfold history
    rw [hlog]
  refine ⟨?_, ?_, ?_, ?_⟩
  · rw [hnum, hhistory]
    exact h.past
  · rw [hocc, hnum, hhistory]
    intro p hp
    rw [hexecuted]
    exact h.present p hp
  · rw [hocc, hnum, hhistory]
    exact h.future
  · rw [hlog]
    exact h.flows

theorem toExecute_same {b b' : CoreBuffer} (h : b.SameSched b') (c : Nat) :
    (b'.entryAt c).ToExecute ↔ (b.entryAt c).ToExecute := by
  have hmemory := h.field OooInstr.isMemory (fun _ => rfl) c
  have hscheduled := h.field OooInstr.scheduled (fun _ => rfl) c
  have hready := h.field OooInstr.regReady (fun _ => rfl) c
  have hexecuted := h.field OooInstr.executed (fun _ => rfl) c
  exact ⟨fun ⟨a, b, c, d⟩ => ⟨hmemory ▸ a, hscheduled ▸ b, hready ▸ c, hexecuted ▸ d⟩,
    fun ⟨a, b, c, d⟩ => ⟨hmemory.trans a, hscheduled.trans b, hready.trans c, hexecuted.trans d⟩⟩

/-- What leaves the scoreboard as it is. -/
theorem Sound.frame (h : Sound records s) (hpipelined : Pipelined records t)
    (hrob : s.rob.SameSched t.rob)
    (hready : ∀ a, a.ofMemory = false → t.ready a = s.ready a) (hlog : t.log = s.log)
    (hnum : t.numRetired = s.numRetired) (hifetch : t.ifetchBuffer.Unissued)
    (hdecode : t.decodeBuffer.Unissued)
    (hfault : t.fault = some .readyToExecute → s.fault = some .readyToExecute) :
    Sound records t := by
  obtain ⟨w, is₀, is₁, hb⟩ := h.board
  exact {
    pipelined := hpipelined
    board := ⟨w, is₀, is₁, hb.scoreboard.same hrob,
      hb.issue.congr hready (toExecute_same hrob), hrob.size.trans hb.size⟩
    logged := h.logged.congr hlog hnum hrob.occupancy (hrob.nth OooInstr.executed fun _ => rfl)
    ifetch := hifetch
    decode := hdecode
    fault := fun hf => h.fault (hfault hf) }

theorem check_ne_readyToExecute {ok : Bool} {f : CoreFault} (hf : f ≠ .readyToExecute)
    (h : (check ok f s).fault = some .readyToExecute) : s.fault = some .readyToExecute := by
  rcases check_fault h with h | ⟨-, h⟩
  · exact h
  · exact absurd h.symm hf

theorem sound_check {ok : Bool} {f : CoreFault} (hf : f ≠ .readyToExecute)
    (hpipeline : f.ofPipeline = false) (hs : Sound records s) : Sound records (check ok f s) := by
  refine hs.frame (pipelined_check hpipeline hs.pipelined) ?_ (fun a _ => ?_)
    (check_frame log (fun _ _ => rfl) ..) (check_frame numRetired (fun _ _ => rfl) ..) ?_ ?_
    (check_ne_readyToExecute hf)
  · rw [check_frame rob (fun _ _ => rfl)]
    exact .refl _
  · rw [check_frame ready (fun _ _ => rfl)]
  · rw [check_frame ifetchBuffer (fun _ _ => rfl)]
    exact hs.ifetch
  · rw [check_frame decodeBuffer (fun _ _ => rfl)]
    exact hs.decode

theorem sound_memory (records : List InputInstr) : MemoryKeeps (Sound records) where
  check {s f} ok hf hs := sound_check (by rintro rfl; exact Bool.false_ne_true hf)
    (by cases f <;> first | rfl | cases hf) hs
  lq q hs := hs.frame ((pipelined_memory records).lq q hs.pipelined) (.refl _) (fun _ _ => rfl) rfl
    rfl hs.ifetch hs.decode id
  sq i f hf hs := hs.frame ((pipelined_memory records).sq i f hf hs.pipelined) (.refl _)
    (fun _ _ => rfl) rfl rfl hs.ifetch hs.decode id
  rob i f hf hs := hs.frame ((pipelined_memory records).rob i f hf hs.pipelined)
    (.modify fun e => (congrArg OooInstr.sched (hf e)).trans rfl) (fun _ _ => rfl) rfl rfl hs.ifetch
    hs.decode id
  ready {s a} r ha hs := hs.frame ((pipelined_memory records).ready r ha hs.pipelined) (.refl _)
    (fun a' ha' => Function.update_of_ne (by rintro rfl; rw [ha] at ha'; cases ha') ..) rfl rfl
    hs.ifetch hs.decode id
  inflight n hs := hs.frame ((pipelined_memory records).inflight n hs.pipelined) (.refl _)
    (fun _ _ => rfl) rfl rfl hs.ifetch hs.decode id
  searched n hs := hs.frame ((pipelined_memory records).searched n hs.pipelined) (.refl _)
    (fun _ _ => rfl) rfl rfl hs.ifetch hs.decode id

theorem sameSched_memory (b : CoreBuffer) : MemoryKeeps fun s => b.SameSched s.rob where
  check ok _ hs := by
    rw [check_frame rob (fun _ _ => rfl)]
    exact hs
  lq _ hs := hs
  sq _ _ _ hs := hs
  rob _ _ hf hs := hs.trans (.modify fun e => (congrArg OooInstr.sched (hf e)).trans rfl)
  ready _ _ hs := hs
  inflight _ hs := hs
  searched _ hs := hs

theorem enterStore_sound (robIndex j : Nat) (hs : Sound records s) :
    Sound records (s.enterStore robIndex j) :=
  hs.frame (enterStore_pipelined robIndex j hs.pipelined) (.modify fun _ => rfl) (fun _ _ => rfl)
    rfl rfl hs.ifetch hs.decode id

theorem addStoreQueue_sound (robIndex j : Nat) (hs : Sound records s) :
    Sound records (s.addStoreQueue robIndex j) := by
  have hchecked : Sound records
      (check ((s.sq.entryAt s.sq.tail).virtualAddress = 0) .storeQueue s) :=
    sound_check CoreFault.noConfusion rfl hs
  have hentered := enterStore_sound robIndex j hchecked
  refine (sound_memory records).ready _ rfl (hentered.frame ?_ (.refl _) (fun _ _ => rfl) rfl rfl
    hentered.ifetch hentered.decode id)
  exact hentered.pipelined.frame rfl rfl (fun _ => id) rfl rfl rfl rfl

theorem addStoreQueue_same (b : CoreBuffer) (robIndex j : Nat) (hs : b.SameSched s.rob) :
    b.SameSched (s.addStoreQueue robIndex j).rob := by
  have hchecked := (sameSched_memory b).sq (s := check ((s.sq.entryAt s.sq.tail).virtualAddress = 0)
    .storeQueue s) 0 id (fun _ => rfl) (by rwa [check_frame rob (fun _ _ => rfl)])
  exact hchecked.trans (.modify fun _ => rfl)

/-! ## Where an entry is -/

/-- A cell in use is one from the head to the tail. -/
theorem Sound.live (h : Sound records s) {c : Nat} (hc : (s.rob.entryAt c).scheduled ≠ .idle) :
    c < s.rob.entry.length ∧ ∃ p < s.rob.occupancy, Ring.cell s.rob.size s.rob.head p = c := by
  obtain ⟨w, is₀, is₁, hb⟩ := h.board
  obtain ⟨ws, xs, ys, zs, hin⟩ := h.pipelined
  have hlt : c < s.rob.entry.length := by
    by_contra hge
    refine hc ?_
    unfold CoreBuffer.entryAt
    rw [List.getElem?_eq_none (Nat.le_of_not_lt hge)]
    rfl
  refine ⟨hlt, ?_⟩
  obtain ⟨p, hp, hcell⟩ := Ring.exists_cell hin.rob.ring.head_lt (hin.rob.length ▸ hlt)
  refine ⟨p, ?_, hcell⟩
  by_contra hdead
  refine hc ?_
  rw [← hcell]
  exact (hb.scoreboard.line.dead p (Nat.le_of_not_lt hdead) hp).1

theorem program_decode (hne : records ≠ []) (k : Nat) :
    ∃ r ∈ records, ∃ r', program records k = r.decode r' k := by
  obtain ⟨is, f, hread, hlen, -, hall⟩ :=
    (TraceFile.openTrace_at records).readInstrs hne (k + 1)
  obtain ⟨r, r', hr, -, hget⟩ := hall k (Nat.lt_succ_self k)
  have hprogram := readInstrs_program hread (Nat.lt_succ_self k) hne
  rw [hget, Nat.zero_add] at hprogram
  exact ⟨r, List.mem_of_getElem? hr, r', (Option.some.inj hprogram).symm⟩

theorem program_instrId (hne : records ≠ []) (k : Nat) : (program records k).instrId = k := by
  obtain ⟨r, -, r', h⟩ := program_decode hne k
  rw [h]
  rfl

/-- The reorder buffer holds the instructions behind those that have retired. -/
theorem Pipelined.entry (h : Pipelined records s) (hne : records ≠ []) {p : Nat}
    (hp : p < s.rob.occupancy) :
    (s.rob.nth p).asRead = program records (s.numRetired + p) := by
  obtain ⟨ws, xs, ys, zs, h⟩ := h
  have hlt := h.rob.ring.head_lt
  rw [h.rob.occupancy] at hp
  have hlive := h.rob.ring.live p hp
  rw [CoreBuffer.getElem?_map_asRead (h.rob.length.symm ▸ Ring.cell_lt hlt p)] at hlive
  have hlen : s.numRetired + p < (ws ++ xs ++ ys ++ zs).length := by
    rw [h.numRetired]
    simp only [List.length_append]
    omega
  have hget : (ws ++ xs ++ ys ++ zs)[s.numRetired + p]? = some (s.rob.nth p).asRead := by
    have hbefore : s.numRetired + p < (ws ++ xs).length := by
      rw [List.length_append, h.numRetired]
      omega
    rw [List.append_assoc, List.getElem?_append_left hbefore, h.numRetired,
      List.getElem?_append_right (Nat.le_add_right _ _), Nat.add_sub_cancel_left]
    exact hlive.symm
  have hread := h.read
  have hat := (TraceFile.openTrace_at records).readInstrs hne s.file.instrUniqueId
  obtain ⟨is, f, hread', hlength, -⟩ := hat
  obtain rfl := (Prod.mk.inj (Option.some.inj (hread'.symm.trans hread))).1
  have hprogram := readInstrs_program hread (hlength ▸ hlen) hne
  exact Option.some.inj (hget.symm.trans hprogram)

theorem Pipelined.instrId (h : Pipelined records s) (hne : records ≠ []) {p : Nat}
    (hp : p < s.rob.occupancy) : (s.rob.nth p).instrId = s.numRetired + p :=
  (congrArg OooInstr.instrId (h.entry hne hp)).trans (program_instrId hne _)

/-- **What an instruction takes its registers from has completed** when it has
them. -/
theorem Sound.feeders (h : Sound records s) (hne : records ≠ []) {p : Nat}
    (hp : p < s.rob.occupancy) (hscheduled : (s.rob.nth p).scheduled ≠ .idle)
    (hready : (s.rob.nth p).regReady = true) (k : Nat)
    (hfeeds : Feeds records k (s.numRetired + p)) : .completed k ∈ s.log := by
  obtain ⟨w, is₀, is₁, hb⟩ := h.board
  obtain ⟨j, hj, hsource, hk, hwrites, hlast⟩ := hfeeds
  rw [← h.pipelined.entry hne hp] at hsource hwrites hlast
  by_cases hpast : k < s.numRetired
  · refine completed_mem ?_
    rw [h.logged.past k hpast]
    exact List.mem_cons_of_mem _ List.mem_cons_self
  · obtain ⟨p', rfl⟩ := Nat.exists_eq_add_of_le (Nat.le_of_not_lt hpast)
    have hpp : p' < p := Nat.lt_of_add_lt_add_left hk
    rw [← h.pipelined.entry hne (hpp.trans hp)] at hwrites
    have hknown := hb.scoreboard.line.known p' p hpp hp hscheduled j hj hsource hwrites
      fun m hpm hmp => by
        have hm := hlast (s.numRetired + m) (by omega) (by omega)
        rwa [← h.pipelined.entry hne (hmp.trans hp)] at hm
    rcases hknown with hdone | hwaits
    · refine completed_mem ?_
      rw [h.logged.present p' (hpp.trans hp), hdone]
      exact List.mem_cons_of_mem _ List.mem_cons_self
    · have hnone := waiting_eq_zero.mp (hb.scoreboard.linked.ready _ hready) j hj
      exact absurd (hwaits.symm.trans hnone) (Option.some_ne_none _)

/-! ## Events -/

/-- One more stage of the instruction at the place `p`. -/
theorem Logged.event (h : Logged records s) {e : CoreEvent} {x : Stage} {p : Nat}
    (hp : p < s.rob.occupancy)
    (he : ∀ id, e.stage id = if id = s.numRetired + p then some x else none)
    (hlog : t.log = s.log ++ [e]) (hnum : t.numRetired = s.numRetired)
    (hocc : t.rob.occupancy = s.rob.occupancy)
    (hexecuted : stages (t.rob.nth p).executed = stages (s.rob.nth p).executed ++ [x])
    (hothers : ∀ p' < s.rob.occupancy, p' ≠ p →
      (t.rob.nth p').executed = (s.rob.nth p').executed)
    (hflows : Flows records t.log) : Logged records t := by
  have hhistory : ∀ id, t.history id =
      s.history id ++ (if id = s.numRetired + p then some x else none).toList := by
    intro id
    rw [← he id, ← history_note e s id]
    unfold history note
    rw [hlog]
  refine ⟨fun id hid => ?_, fun p' hp' => ?_, fun p' hp' => ?_, hflows⟩
  · rw [hnum] at hid
    rw [hhistory, if_neg (by omega), h.past id hid]
    rfl
  · rw [hocc] at hp'
    rw [hnum, hhistory, h.present p' hp']
    by_cases hpp : p' = p
    · subst hpp
      rw [if_pos rfl, hexecuted]
      rfl
    · rw [if_neg (by omega), hothers p' hp' hpp]
      exact List.append_nil _
  · rw [hocc] at hp'
    rw [hnum, hhistory, h.future p' hp', if_neg (by omega)]
    rfl

/-- What happens to the entry at the place `p` leaves the other places alone. -/
theorem modify_nth_ne {b : CoreBuffer} (hlt : b.head < b.size) {c p p' : Nat}
    {f : OooInstr → OooInstr} (hp : p < b.size) (hp' : p' < b.size) (hne : p' ≠ p)
    (hc : Ring.cell b.size b.head p = c) : (b.modify c f).nth p' = b.nth p' :=
  CoreBuffer.entryAt_modify_ne fun hcc => hne (Ring.cell_inj hlt hp' hp (hcc.symm.trans hc.symm))

/-- An instruction starts whose registers are there. -/
theorem Sound.start (h : Sound records s) (hne : records ≠ []) {c : Nat} {f : OooInstr → OooInstr}
    (hready : (s.rob.entryAt c).regReady = true) (hidle : (s.rob.entryAt c).executed = .idle)
    (hscheduled : (s.rob.entryAt c).scheduled ≠ .idle)
    (hf : f (s.rob.entryAt c) = { s.rob.entryAt c with
      eventCycle := (f (s.rob.entryAt c)).eventCycle
      scheduled := .completed
      executed := .inflight })
    (hrob : t.rob = s.rob.modify c f)
    (hlog : t.log = s.log ++ [.started (s.rob.entryAt c).instrId])
    (hnum : t.numRetired = s.numRetired) :
    Logged records t ∧ ∀ w, Scoreboard s.rob w → Scoreboard t.rob w := by
  obtain ⟨hlt, p, hp, hcell⟩ := h.live hscheduled
  obtain ⟨ws, xs, ys, zs, hin⟩ := h.pipelined
  have hocc : s.rob.occupancy ≤ s.rob.size := hin.rob.occupancy ▸ hin.rob.le_size
  have hnth : s.rob.nth p = s.rob.entryAt c := by
    unfold CoreBuffer.nth
    rw [hcell]
  have hid : (s.rob.entryAt c).instrId = s.numRetired + p := by
    rw [← hnth]
    exact h.pipelined.instrId hne hp
  constructor
  · refine h.logged.event (x := .started) hp (fun id => ?_) hlog hnum (by rw [hrob]; rfl) ?_
      (fun p' hp' hpp => ?_) ?_
    · rw [hid]
      exact if_congr eq_comm rfl rfl
    · have hself : (s.rob.modify c f).nth p = f (s.rob.entryAt c) := by
        unfold CoreBuffer.nth
        change (s.rob.modify c f).entryAt (Ring.cell s.rob.size s.rob.head p) = _
        rw [hcell, CoreBuffer.entryAt_modify_self hlt]
      rw [hrob, hself, hnth, hf, hidle]
      rfl
    · rw [hrob, modify_nth_ne hin.rob.ring.head_lt (hp.trans_le hocc) (hp'.trans_le hocc) hpp hcell]
    · rw [hlog]
      refine h.logged.flows.append fun id hev k hfeeds => ?_
      have hidp : id = s.numRetired + p := (CoreEvent.started.inj hev).symm.trans hid
      subst hidp
      exact h.feeders hne hp (hnth ▸ hscheduled) (hnth ▸ hready) k hfeeds
  · intro w hw
    rw [hrob]
    exact hw.execute hlt hready hidle hscheduled hf

/-! ## Memory instructions -/

theorem doMemoryScheduling_sound (hne : records ≠ []) (i : Nat) (hs : Sound records s)
    (hmemory : (s.rob.entryAt i).isMemory = true) (hready : (s.rob.entryAt i).regReady = true)
    (hscheduled : (s.rob.entryAt i).scheduled = .inflight) :
    Sound records (s.doMemoryScheduling i) := by
  have hpipelined := doMemoryScheduling_pipelined i hs.pipelined
  have hadded : Sound records (s.checkAndAddLsq i).2 :=
    (sound_memory records).checkAndAddLsq (fun hs _ _ _ _ _ => addStoreQueue_sound _ _ hs) i hs
  have hsame : s.rob.SameSched (s.checkAndAddLsq i).2.rob :=
    (sameSched_memory s.rob).checkAndAddLsq
      (fun hs _ _ _ _ _ => addStoreQueue_same _ _ _ hs) i (.refl _)
  rw [← hsame.field OooInstr.isMemory fun _ => rfl] at hmemory
  rw [← hsame.field OooInstr.regReady fun _ => rfl] at hready
  rw [← hsame.field OooInstr.scheduled fun _ => rfl] at hscheduled
  unfold doMemoryScheduling at hpipelined ⊢
  generalize s.checkAndAddLsq i = q at *
  refine (sound_memory records).searched _ ?_
  dsimp only at hpipelined ⊢
  split at hpipelined
  · rename_i hzero
    rw [if_pos hzero]
    obtain ⟨w, is₀, is₁, hb⟩ := hadded.board
    have hidle : (q.2.rob.entryAt i).executed = .idle := by
      by_contra hexecuted
      have hcompleted := (hb.scoreboard.flags.memory i hmemory).mpr hexecuted
      rw [hscheduled] at hcompleted
      exact Returned.noConfusion hcompleted
    have hself : (q.2.rob.entryAt i).markScheduled =
        { q.2.rob.entryAt i with scheduled := .completed, executed := .inflight } := by
      unfold OooInstr.markScheduled
      rw [if_pos hidle]
    obtain ⟨hlogged, hboard⟩ := hadded.start hne hready hidle
      (by rw [hscheduled]; exact Returned.noConfusion) (by rw [hself])
      (t := modifyRob i OooInstr.markScheduled (note (.started (q.2.rob.entryAt i).instrId) q.2))
      rfl rfl rfl
    have hother : ∀ c, ((q.2.rob.modify i OooInstr.markScheduled).entryAt c).ToExecute ↔
        (q.2.rob.entryAt c).ToExecute := by
      intro c
      by_cases hc : i = c
      · subst hc
        have hstill : ((q.2.rob.modify i OooInstr.markScheduled).entryAt i).isMemory = true :=
          (CoreBuffer.modify_field OooInstr.isMemory rfl i).trans hmemory
        exact ⟨fun h => absurd (h.plain.symm.trans hstill) Bool.false_ne_true,
          fun h => absurd (h.plain.symm.trans hmemory) Bool.false_ne_true⟩
      · rw [CoreBuffer.entryAt_modify_ne hc]
    exact {
      pipelined := hpipelined.frame rfl rfl (fun _ => id) rfl rfl rfl rfl
      board := ⟨w, is₀, is₁, hboard w hb.scoreboard, hb.issue.congr (fun _ _ => rfl) hother,
        hb.size⟩
      logged := hlogged
      ifetch := hadded.ifetch
      decode := hadded.decode
      fault := hadded.fault }
  · rename_i hzero
    rw [if_neg hzero]
    exact hadded

/-! ## Execution -/

theorem popReady_self (a : ReadyName) (s : O3Cpu) :
    (popReady a s).ready a = (s.ready a).pop a.size := Function.update_self ..

theorem popReady_ne {a a' : ReadyName} (h : a' ≠ a) (s : O3Cpu) :
    (popReady a s).ready a' = s.ready a' := Function.update_of_ne h ..

theorem pushReady_self (a : ReadyName) (c : Nat) (s : O3Cpu) :
    (pushReady a c s).ready a = (s.ready a).push a.size c := Function.update_self ..

theorem pushReady_ne {a a' : ReadyName} (h : a' ≠ a) (c : Nat) (s : O3Cpu) :
    (pushReady a c s).ready a' = s.ready a' := Function.update_of_ne h ..

theorem Issue.front (h : Issue s is₀ is₁) {a : ReadyName} (ha : a.ofMemory = false) {c : Nat}
    (hfront : (s.ready a).front = some c) : (s.rob.entryAt c).ToExecute := by
  refine (h.mem c).mp ?_
  cases a with
  | rte0 =>
      rw [h.rte0.front_eq] at hfront
      exact List.mem_append_left _ (List.mem_of_mem_head? (Option.mem_def.mpr hfront))
  | rte1 =>
      rw [h.rte1.front_eq] at hfront
      exact List.mem_append_right _ (List.mem_of_mem_head? (Option.mem_def.mpr hfront))
  | rtl0 | rtl1 | rts0 | rts1 => cases ha

/-- What is taken from an array is no longer to be executed. -/
theorem Issue.pop (h : Issue s is₀ is₁) {a : ReadyName} (ha : a.ofMemory = false) {c : Nat}
    (hfront : (s.ready a).front = some c) (hready : t.ready = s.ready)
    (hrob : ∀ d, (t.rob.entryAt d).ToExecute ↔ (s.rob.entryAt d).ToExecute ∧ d ≠ c) :
    ∃ is₀' is₁', Issue (popReady a t) is₀' is₁' := by
  cases a with
  | rte0 =>
      rw [h.rte0.front_eq] at hfront
      obtain ⟨is, rfl⟩ := List.head?_eq_some_iff.mp hfront
      have hnodup := h.nodup
      rw [List.cons_append, List.nodup_cons] at hnodup
      refine ⟨is, is₁, ?_, ?_, hnodup.2, fun d => ?_⟩
      · rw [popReady_self, hready]
        exact h.rte0.pop
      · rw [popReady_ne ReadyName.noConfusion, hready]
        exact h.rte1
      · rw [show (popReady .rte0 t).rob = t.rob from rfl, hrob d, ← h.mem d, List.cons_append,
          List.mem_cons]
        constructor
        · exact fun hd => ⟨.inr hd, by rintro rfl; exact hnodup.1 hd⟩
        · exact fun hd => hd.1.resolve_left hd.2
  | rte1 =>
      rw [h.rte1.front_eq] at hfront
      obtain ⟨is, rfl⟩ := List.head?_eq_some_iff.mp hfront
      have hnodup := h.nodup
      rw [List.nodup_middle, List.nodup_cons] at hnodup
      refine ⟨is₀, is, ?_, ?_, hnodup.2, fun d => ?_⟩
      · rw [popReady_ne ReadyName.noConfusion, hready]
        exact h.rte0
      · rw [popReady_self, hready]
        exact h.rte1.pop
      · rw [show (popReady .rte1 t).rob = t.rob from rfl, hrob d, ← h.mem d, List.mem_append,
          List.mem_append, List.mem_cons]
        constructor
        · exact fun hd => ⟨hd.imp_right .inr, by
            rintro rfl
            exact hnodup.1 (List.mem_append.mpr hd)⟩
        · exact fun hd => hd.1.imp_right fun hc => hc.resolve_left hd.2
  | rtl0 | rtl1 | rts0 | rts1 => cases ha

theorem doExecution_sound (hne : records ≠ []) (hs : Sound records s) {a : ReadyName}
    (ha : a.ofMemory = false) {c : Nat} (hfront : (s.ready a).front = some c) :
    Sound records (popReady a (s.doExecution c)) := by
  have hregisters := pipelined_registers records
  have hpipelined : Pipelined records (popReady a (s.doExecution c)) :=
    hregisters.ready _ ha (hregisters.regExecutions _ (hregisters.rob _ _ ⟨rfl, fun _ => id⟩
      (hregisters.note rfl hs.pipelined)))
  obtain ⟨w, is₀, is₁, hb⟩ := hs.board
  have hexecute := hb.issue.front ha hfront
  obtain ⟨hlogged, hboard⟩ := hs.start hne hexecute.ready hexecute.idle
    (by rw [hexecute.scheduled]; exact Returned.noConfusion)
    (f := fun e => { e with executed := .inflight }.addLatency execLatency s.currentCoreCycle)
    (by unfold OooInstr.addLatency; rw [hexecute.scheduled]) (t := popReady a (s.doExecution c))
    rfl rfl rfl
  have hlt : c < s.rob.entry.length := (hs.live (by
    rw [hexecute.scheduled]
    exact Returned.noConfusion)).1
  obtain ⟨is₀', is₁', hissue⟩ := hb.issue.pop (t := s.doExecution c) ha hfront rfl fun d => by
    by_cases hd : c = d
    · subst hd
      have hself : ((s.doExecution c).rob.entryAt c).executed = .inflight :=
        congrArg OooInstr.executed (CoreBuffer.entryAt_modify_self hlt)
      exact ⟨fun h => absurd (hself.symm.trans h.idle) Returned.noConfusion,
        fun h => absurd rfl h.2⟩
    · rw [show (s.doExecution c).rob.entryAt d = s.rob.entryAt d from
        CoreBuffer.entryAt_modify_ne hd]
      exact ⟨fun h => ⟨h, Ne.symm hd⟩, And.left⟩
  exact {
    pipelined := hpipelined
    board := ⟨w, is₀', is₁', hboard w hb.scoreboard, hissue, hb.size⟩
    logged := hlogged
    ifetch := hs.ifetch
    decode := hs.decode
    fault := hs.fault }

theorem executeInstruction_sound (hne : records ≠ []) (hs : Sound records s) :
    Sound records s.executeInstruction := by
  have hstep : ∀ a : ReadyName, a.ofMemory = false → ∀ fuel i s, Sound records s →
      (s.ready a).front = some i → (executeStep fuel i s).Leaves a (Sound records) := by
    intro a ha fuel i s hs hfront
    unfold executeStep
    split
    · exact doExecution_sound hne hs ha hfront
    · exact hs
  unfold executeInstruction
  split
  · exact hs
  · exact drain_keeps (hstep .rte1 rfl) _ _ (drain_keeps (hstep .rte0 rfl) _ _ hs)

/-! ## Scheduling -/

theorem Sound.lt_robSize (h : Sound records s) {c : Nat}
    (hc : (s.rob.entryAt c).scheduled ≠ .idle) : c < robSize := by
  obtain ⟨w, is₀, is₁, hb⟩ := h.board
  obtain ⟨ws, xs, ys, zs, hin⟩ := h.pipelined
  rw [← hb.size, ← hin.rob.length]
  exact (h.live hc).1

/-- **There is always room** for an entry that is not in the arrays. -/
theorem Issue.room (h : Issue s is₀ is₁) (hbound : ∀ d, (s.rob.entryAt d).ToExecute → d < robSize)
    {c : Nat} (hc : c < robSize) (hnew : ¬(s.rob.entryAt c).ToExecute) :
    (is₀ ++ is₁).length < robSize := by
  have hnodup : (c :: (is₀ ++ is₁)).Nodup :=
    List.nodup_cons.mpr ⟨fun hmem => hnew ((h.mem c).mp hmem), h.nodup⟩
  have hsub : c :: (is₀ ++ is₁) ⊆ List.range robSize := by
    intro d hd
    rcases List.mem_cons.mp hd with rfl | hd
    · exact List.mem_range.mpr hc
    · exact List.mem_range.mpr (hbound d ((h.mem d).mp hd))
  have hle := (List.subperm_of_subset hnodup hsub).length_le
  rwa [List.length_cons, List.length_range] at hle

theorem Issue.push (h : Issue s is₀ is₁) (hbound : ∀ d, (s.rob.entryAt d).ToExecute → d < robSize)
    {a : ReadyName} (ha : a.ofMemory = false) {c : Nat} (hc : c < robSize)
    (hnew : ¬(s.rob.entryAt c).ToExecute) (hready : t.ready = s.ready)
    (hrob : ∀ d, (t.rob.entryAt d).ToExecute ↔ d = c ∨ (s.rob.entryAt d).ToExecute) :
    t.addReady a c = pushReady a c t ∧ ∃ is₀' is₁', Issue (pushReady a c t) is₀' is₁' := by
  have hroom := h.room hbound hc hnew
  rw [List.length_append] at hroom
  have hnot : c ∉ is₀ ++ is₁ := fun hmem => hnew ((h.mem c).mp hmem)
  cases a with
  | rte0 =>
      have hoccupied := h.rte0.not_occupied (by omega)
      refine ⟨?_, is₀ ++ [c], is₁, ?_, ?_, ?_, fun d => ?_⟩
      · unfold addReady
        rw [check_of (by rw [hready, hoccupied]; rfl)]
      · rw [pushReady_self, hready]
        exact h.rte0.push (by omega)
      · rw [pushReady_ne ReadyName.noConfusion, hready]
        exact h.rte1
      · rw [List.append_assoc, List.singleton_append, List.nodup_middle, List.nodup_cons]
        exact ⟨hnot, h.nodup⟩
      · rw [show (pushReady .rte0 c t).rob = t.rob from rfl, hrob d, ← h.mem d]
        simp only [List.mem_append, List.mem_singleton]
        tauto
  | rte1 =>
      have hoccupied := h.rte1.not_occupied (by omega)
      refine ⟨?_, is₀, is₁ ++ [c], ?_, ?_, ?_, fun d => ?_⟩
      · unfold addReady
        rw [check_of (by rw [hready, hoccupied]; rfl)]
      · rw [pushReady_ne ReadyName.noConfusion, hready]
        exact h.rte0
      · rw [pushReady_self, hready]
        exact h.rte1.push (by omega)
      · rw [← List.append_assoc, List.nodup_append_comm, List.singleton_append, List.nodup_cons]
        exact ⟨hnot, h.nodup⟩
      · rw [show (pushReady .rte1 c t).rob = t.rob from rfl, hrob d, ← h.mem d]
        simp only [List.mem_append, List.mem_singleton]
        tauto
  | rtl0 | rtl1 | rts0 | rts1 => cases ha

/-- The last step of `do_scheduling`. -/
theorem doScheduling_eq {b : CoreBuffer} {c : Nat}
    (hfound : s.findProducers c = { s with rob := b }) :
    ∃ f : OooInstr → OooInstr, (∀ e, f e = { e with
        eventCycle := (f e).eventCycle
        scheduled := if (b.entryAt c).isMemory then .inflight else .completed }) ∧
      s.doScheduling c =
        if (b.entryAt c).isMemory = false ∧ ((b.modify c f).entryAt c).regReady = true then
          addReady .rte1 c { s with rob := b.modify c f }
        else { s with rob := b.modify c f } := by
  cases hm : (b.entryAt c).isMemory with
  | true =>
      refine ⟨fun e => { e with scheduled := .inflight }, fun e => rfl, ?_⟩
      rw [if_neg (fun h => Bool.false_ne_true h.1.symm)]
      unfold doScheduling
      dsimp only
      rw [hfound]
      dsimp only
      rw [if_pos hm]
      rfl
  | false =>
      refine ⟨fun e => { e with scheduled := .completed }.addLatency schedulingLatency
        s.currentCoreCycle, fun e => rfl, ?_⟩
      unfold doScheduling
      dsimp only
      rw [hfound]
      dsimp only
      rw [if_neg (by rw [hm]; exact Bool.false_ne_true)]
      refine if_congr ?_ rfl rfl
      exact (and_iff_right rfl).symm

theorem findProducers_found (hb : Scoreboard s.rob w) {c : Nat} (hc : c < s.rob.entry.length)
    (hn : Next s.rob c) :
    ∃ b w', s.findProducers c = { s with rob := b } ∧
      Found (s.rob.modify c fun e => { e with regReady := true }) b w w' c s.rob.head
        numInstrSources := by
  have hfresh := hb.flags.fresh c hn.idle
  have hzero : waiting numInstrSources w c = 0 := by
    have hcount := hb.linked.count c
    rw [hfresh.numRegDependent] at hcount
    exact Int.natCast_eq_zero.mp hcount.symm
  have hself : (s.rob.modify c fun e => { e with regReady := true }).entryAt c =
      { s.rob.entryAt c with regReady := true } := CoreBuffer.entryAt_modify_self hc
  obtain ⟨b, w', heq, hfound⟩ := regDependency_found
    (s := modifyRob c (fun e => { e with regReady := true }) s) (hb.linked.markReady hzero)
    hb.recorded.markReady hn.head (CoreBuffer.modify_entry_length.symm ▸ hc)
    (congrArg OooInstr.regReady hself)
    fun j => (congrArg (fun e => e.regRAWChecked[j]?.getD false) hself).trans (hfresh.checked j)
  refine ⟨_, w', ?_, hfound.setNextSchedule (if c = b.size - 1 then 0 else c + 1)⟩
  unfold findProducers
  dsimp only
  rw [heq]
  rfl

theorem doScheduling_sound (hs : Sound records s) {c : Nat} (hn : Next s.rob c) :
    Sound records (s.doScheduling c) ∧ (s.doScheduling c).rob.head = s.rob.head ∧
      (s.doScheduling c).rob.size = s.rob.size ∧
      ((s.doScheduling c).rob.entryAt c).scheduled ≠ .idle ∧
      ∀ d, d ≠ c → ((s.doScheduling c).rob.entryAt d).scheduled = (s.rob.entryAt d).scheduled := by
  obtain ⟨w, is₀, is₁, hb⟩ := hs.board
  obtain ⟨ws, xs, ys, zs, hin⟩ := hs.pipelined
  have hc : c < s.rob.entry.length := hin.rob.length.symm ▸ hn.lt
  obtain ⟨b, w', hfind, hfound⟩ := findProducers_found hb.scoreboard hc hn
  obtain ⟨f, hf, heq⟩ := doScheduling_eq hfind
  have hmemory : (b.entryAt c).isMemory = (s.rob.entryAt c).isMemory :=
    (hfound.tied.field OooInstr.isMemory (fun _ _ _ _ _ _ _ _ => rfl) c).trans
      (CoreBuffer.modify_field OooInstr.isMemory rfl c)
  have hlen : c < b.entry.length := by
    rw [hfound.tied.length, CoreBuffer.modify_entry_length]
    exact hc
  have hsched : Scheduling s.rob b (b.modify c f) w w' c := {
    found := hfound
    size := rfl
    head := rfl
    occupancy := rfl
    nextFetch := rfl
    length := CoreBuffer.modify_entry_length
    others := fun d hd => CoreBuffer.entryAt_modify_ne (Ne.symm hd)
    self := by
      rw [CoreBuffer.entryAt_modify_self hlen, hf, ← hmemory] }
  generalize b.modify c f = b' at hsched heq
  rw [hmemory] at heq
  have hpipelined := (pipelined_registers records).doScheduling c hs.pipelined
  have hboard := hsched.scoreboard hb.scoreboard hn hin.rob
  have hnew : ¬(s.rob.entryAt c).ToExecute := fun h =>
    absurd (h.scheduled.symm.trans hn.idle) Returned.noConfusion
  have hother : ∀ d, d ≠ c → ((b'.entryAt d).ToExecute ↔ (s.rob.entryAt d).ToExecute) := by
    intro d hd
    have hm := hsched.other OooInstr.isMemory (fun _ _ _ _ => rfl) hd
    have hsc := hsched.other OooInstr.scheduled (fun _ _ _ _ => rfl) hd
    have hr := hsched.other OooInstr.regReady (fun _ _ _ _ => rfl) hd
    have he := hsched.other OooInstr.executed (fun _ _ _ _ => rfl) hd
    exact ⟨fun ⟨a, b, c, d⟩ => ⟨hm ▸ a, hsc ▸ b, hr ▸ c, he ▸ d⟩,
      fun ⟨a, b, c, d⟩ => ⟨hm.trans a, hsc.trans b, hr.trans c, he.trans d⟩⟩
  have hself : (b'.entryAt c).ToExecute ↔
      (s.rob.entryAt c).isMemory = false ∧ (b'.entryAt c).regReady = true := by
    have hm := hsched.field OooInstr.isMemory (fun _ _ _ _ _ _ _ _ _ _ => rfl) c
    have he := hsched.field OooInstr.executed (fun _ _ _ _ _ _ _ _ _ _ => rfl) c
    refine ⟨fun h => ⟨hm ▸ h.plain, h.ready⟩, fun h => ⟨hm.trans h.1, ?_, h.2, ?_⟩⟩
    · rw [hsched.scheduled_self, if_neg (by rw [h.1]; exact Bool.false_ne_true)]
    · exact he.trans (hb.scoreboard.flags.fresh c hn.idle).executed
  have hlogged : Logged records { s with rob := b' } :=
    hs.logged.congr rfl rfl hsched.occupancy_eq
      (hsched.nth_field OooInstr.executed fun _ _ _ _ _ _ _ _ _ _ => rfl)
  have hne : (b'.entryAt c).scheduled ≠ .idle := by
    rw [hsched.scheduled_self]
    split <;> exact Returned.noConfusion
  have hrest : b'.head = s.rob.head ∧ b'.size = s.rob.size ∧ (b'.entryAt c).scheduled ≠ .idle ∧
      ∀ d, d ≠ c → (b'.entryAt d).scheduled = (s.rob.entryAt d).scheduled :=
    ⟨hsched.head_eq, hsched.size_eq, hne, fun d hd => hsched.other _ (fun _ _ _ _ => rfl) hd⟩
  by_cases hready : (s.rob.entryAt c).isMemory = false ∧ (b'.entryAt c).regReady = true
  · -- to the array of what is ready at once
    have hbound : ∀ d, (s.rob.entryAt d).ToExecute → d < robSize := fun d hd =>
      hs.lt_robSize (by rw [hd.scheduled]; exact Returned.noConfusion)
    obtain ⟨hadd, is₀', is₁', hissue⟩ := hb.issue.push (a := .rte1) (c := c)
      (t := { s with rob := b' }) hbound rfl (hb.size ▸ hn.lt) hnew rfl fun d => by
        by_cases hd : d = c
        · subst hd
          exact ⟨fun _ => .inl rfl, fun _ => hself.mpr hready⟩
        · exact (hother d hd).trans ⟨.inr, fun h => h.resolve_left hd⟩
    rw [heq, if_pos hready, hadd] at hpipelined ⊢
    exact ⟨{
      pipelined := hpipelined
      board := ⟨w', is₀', is₁', hboard, hissue, hsched.size_eq.trans hb.size⟩
      logged := hlogged.congr rfl rfl rfl fun _ => rfl
      ifetch := hs.ifetch
      decode := hs.decode
      fault := hs.fault }, hrest⟩
  · rw [heq, if_neg hready] at hpipelined ⊢
    exact ⟨{
      pipelined := hpipelined
      board := ⟨w', is₀, is₁, hboard, hb.issue.congr (fun _ _ => rfl) fun d => by
        by_cases hd : d = c
        · subst hd
          exact ⟨fun h => absurd (hself.mp h) hready, fun h => absurd h hnew⟩
        · exact hother d hd, hsched.size_eq.trans hb.size⟩
      logged := hlogged
      ifetch := hs.ifetch
      decode := hs.decode
      fault := hs.fault }, hrest⟩

/-- The loop from the head on: what it has come by is scheduled. -/
theorem scheduleFrom_sound (n : Nat) {i : Nat} (hs : Sound records s) (hhead : s.rob.head ≤ i)
    (hn : i + n = s.rob.size)
    (hbefore : ∀ d, s.rob.head ≤ d → d < i → (s.rob.entryAt d).scheduled ≠ .idle) :
    Sound records (scheduleFrom (List.range' i n) s) := by
  induction n generalizing i s with
  | zero => exact hs
  | succ n ih =>
      rw [List.range'_succ]
      unfold scheduleFrom
      dsimp only
      split
      · exact hs
      · rename_i hgo
        rw [not_or, not_not] at hgo
        have hsearched : ∀ {t : O3Cpu}, Sound records t → ∀ n,
            Sound records { t with numSearched := n } := fun ht n =>
          (sound_memory records).searched n ht
        split
        · rename_i hidle
          obtain ⟨hsound, hh, hsize, hself, hother⟩ := doScheduling_sound hs
            ⟨hhead, by omega, hidle, hgo.1, hbefore⟩
          refine ih (hsearched hsound _) ?_ ?_ fun d hd hdi => ?_
          · change (s.doScheduling i).rob.head ≤ i + 1
            omega
          · change i + 1 + n = (s.doScheduling i).rob.size
            omega
          · change ((s.doScheduling i).rob.entryAt d).scheduled ≠ .idle
            change (s.doScheduling i).rob.head ≤ d at hd
            by_cases hdc : d = i
            · rw [hdc]
              exact hself
            · rw [hother d hdc]
              exact hbefore d (by omega) (by omega)
        · rename_i hdone
          refine ih (hsearched hs _) ?_ ?_ fun d hd hdi => ?_
          · change s.rob.head ≤ i + 1
            omega
          · change i + 1 + n = s.rob.size
            omega
          · change (s.rob.entryAt d).scheduled ≠ .idle
            by_cases hdc : d = i
            · rw [hdc]
              exact hdone
            · exact hbefore d hd (by omega)

theorem scheduleInstruction_sound (hs : Sound records s) : Sound records s.scheduleInstruction := by
  obtain ⟨w, is₀, is₁, hb⟩ := hs.board
  obtain ⟨ws, xs, ys, zs, hin⟩ := hs.pipelined
  have hlt := hin.rob.ring.head_lt
  unfold scheduleInstruction
  split
  · exact hs
  · rw [hb.scoreboard.line.nextFetch, Ring.scan, if_neg (Nat.not_lt_zero _), List.range_zero,
      List.append_nil]
    refine scheduleFrom_sound _ ((sound_memory records).searched 0 hs) le_rfl
      (Nat.add_sub_cancel' hlt.le) fun d hd hdi => ?_
    exact absurd hd (Nat.not_le_of_lt hdi)

/-! ## Completion -/

/-- The entry `c` has completed, and `R` is what still waits for it. -/
structure Settling (records : List InputInstr) (s : O3Cpu) (c : Nat) (R : Nat → Nat → Prop) :
    Prop where
  pipelined : Pipelined records s
  board : ∃ w is₀ is₁, Completing s.rob w c R ∧ Issue s is₀ is₁ ∧ s.rob.size = robSize
  logged : Logged records s
  ifetch : s.ifetchBuffer.Unissued
  decode : s.decodeBuffer.Unissued
  fault : s.fault ≠ some .readyToExecute

theorem Settling.congr {c : Nat} {R R' : Nat → Nat → Prop} (h : Settling records s c R)
    (hR : ∀ d j, R d j ↔ R' d j) : Settling records s c R' := by
  obtain ⟨w, is₀, is₁, hb, hrest⟩ := h.board
  exact ⟨h.pipelined, ⟨w, is₀, is₁, hb.congr hR, hrest⟩, h.logged, h.ifetch, h.decode, h.fault⟩

theorem Settling.finish {c : Nat} {R : Nat → Nat → Prop} (h : Settling records s c R)
    (hR : ∀ d j, ¬R d j) : Sound records s := by
  obtain ⟨w, is₀, is₁, hb, hissue, hsize⟩ := h.board
  exact ⟨h.pipelined, ⟨w, is₀, is₁, hb.finish hR, hissue, hsize⟩, h.logged, h.ifetch, h.decode,
    h.fault⟩

theorem completeEntry_settling (hne : records ≠ []) (hs : Sound records s) {c : Nat}
    (hexecuted : (s.rob.entryAt c).executed = .inflight) :
    Settling records (s.completeEntry c) c fun d j => d ∈ (s.rob.entryAt c).indexDependOnMe j := by
  obtain ⟨w, is₀, is₁, hb⟩ := hs.board
  obtain ⟨ws, xs, ys, zs, hin⟩ := hs.pipelined
  have hscheduled : (s.rob.entryAt c).scheduled ≠ .idle := fun hidle => by
    have hfresh := (hb.scoreboard.flags.fresh c hidle).executed
    rw [hexecuted] at hfresh
    exact Returned.noConfusion hfresh
  obtain ⟨hlt, p, hp, hcell⟩ := hs.live hscheduled
  have hocc : s.rob.occupancy ≤ s.rob.size := hin.rob.occupancy ▸ hin.rob.le_size
  have hnth : s.rob.nth p = s.rob.entryAt c := by
    unfold CoreBuffer.nth
    rw [hcell]
  have hid : (s.rob.entryAt c).instrId = s.numRetired + p := by
    rw [← hnth]
    exact hs.pipelined.instrId hne hp
  have hpipelined := (pipelined_registers records).completeEntry c hs.pipelined
  have hrob : (s.completeEntry c).rob = s.rob.modify c fun e => { e with executed := .completed } := by
    unfold completeEntry
    dsimp only
    split <;> rfl
  have hlog : (s.completeEntry c).log = s.log ++ [.completed (s.rob.entryAt c).instrId] := by
    unfold completeEntry
    dsimp only
    split <;> rfl
  have hself : (s.completeEntry c).rob.nth p = { s.rob.entryAt c with executed := .completed } := by
    rw [hrob]
    unfold CoreBuffer.nth
    change (s.rob.modify c _).entryAt (Ring.cell s.rob.size s.rob.head p) = _
    rw [hcell, CoreBuffer.entryAt_modify_self hlt]
  have hframe : ∀ {β : Type} (v : O3Cpu → β) (_ : ∀ (t : O3Cpu) m r rob log, v { t with
      inflightMemExecutions := m, inflightRegExecutions := r, rob := rob, log := log } = v t),
      v (s.completeEntry c) = v s := by
    intro β v hv
    unfold completeEntry
    dsimp only
    split
    · exact hv s _ s.inflightRegExecutions _ _
    · exact hv s s.inflightMemExecutions _ _ _
  exact {
    pipelined := hpipelined
    board := by
      refine ⟨w, is₀, is₁, ?_, hb.issue.congr (fun a _ => ?_) fun d => ?_, ?_⟩
      · rw [hrob]
        exact hb.scoreboard.complete hlt hexecuted
      · exact congrFun (hframe O3Cpu.ready fun _ _ _ _ _ => rfl) a
      · rw [hrob]
        by_cases hd : c = d
        · subst hd
          rw [CoreBuffer.entryAt_modify_self hlt]
          exact ⟨fun h => absurd h.idle Returned.noConfusion,
            fun h => absurd (hexecuted.symm.trans h.idle) Returned.noConfusion⟩
        · rw [CoreBuffer.entryAt_modify_ne hd]
      · rw [hrob]
        exact hb.size
    logged := by
      refine hs.logged.event (x := .completed) hp (fun id => ?_) hlog
        (hframe O3Cpu.numRetired fun _ _ _ _ _ => rfl) (by rw [hrob]; rfl) ?_ (fun p' hp' hpp => ?_) ?_
      · rw [hid]
        exact if_congr eq_comm rfl rfl
      · rw [hself, hnth, hexecuted]
        rfl
      · rw [hrob, modify_nth_ne hin.rob.ring.head_lt (hp.trans_le hocc) (hp'.trans_le hocc) hpp hcell]
      · rw [hlog]
        exact hs.logged.flows.append fun id h => CoreEvent.noConfusion h
    ifetch := by
      rw [hframe O3Cpu.ifetchBuffer fun _ _ _ _ _ => rfl]
      exact hs.ifetch
    decode := by
      rw [hframe O3Cpu.decodeBuffer fun _ _ _ _ _ => rfl]
      exact hs.decode
    fault := by
      rw [hframe O3Cpu.fault fun _ _ _ _ _ => rfl]
      exact hs.fault }

theorem completeEntry_rob (c : Nat) (s : O3Cpu) :
    (s.completeEntry c).rob = s.rob.modify c fun e => { e with executed := .completed } := by
  unfold completeEntry
  dsimp only
  split <;> rfl

/-- The entry has one more of its registers; with the last one it is ready. -/
def receive (e : OooInstr) : OooInstr :=
  if e.numRegDependent - 1 = 0 then
    { e with
      numRegDependent := e.numRegDependent - 1
      regReady := true
      scheduled := if e.isMemory then .inflight else .completed }
  else { e with numRegDependent := e.numRegDependent - 1 }

theorem modify_congr {b : CoreBuffer} {d : Nat} {f g : OooInstr → OooInstr}
    (h : f (b.entryAt d) = g (b.entryAt d)) : b.modify d f = b.modify d g := by
  unfold CoreBuffer.modify
  congr 1
  refine List.ext_getElem? fun n => ?_
  by_cases hn : d = n
  · subst hn
    rw [List.getElem?_modify_eq, List.getElem?_modify_eq]
    unfold CoreBuffer.entryAt at h
    cases hb : b.entry[d]? with
    | none => rfl
    | some e =>
        rw [hb] at h
        exact congrArg some h
  · rw [List.getElem?_modify_ne _ _ hn, List.getElem?_modify_ne _ _ hn]

theorem modify_modify {b : CoreBuffer} {d : Nat} {f g : OooInstr → OooInstr} :
    (b.modify d f).modify d g = b.modify d (g ∘ f) := by
  unfold CoreBuffer.modify
  rw [List.modify_modify_eq]

theorem releaseOne_eq {d : Nat} (hd : d < s.rob.entry.length) :
    s.releaseOne d =
      if (s.rob.entryAt d).numRegDependent - 1 = 0 ∧ (s.rob.entryAt d).isMemory = false then
        addReady .rte0 d { s with rob := s.rob.modify d receive }
      else { s with rob := s.rob.modify d receive } := by
  have hless : (s.rob.modify d fun e => { e with numRegDependent := e.numRegDependent - 1 }).entryAt d =
      { s.rob.entryAt d with numRegDependent := (s.rob.entryAt d).numRegDependent - 1 } :=
    CoreBuffer.entryAt_modify_self hd
  unfold releaseOne wake modifyRob
  dsimp only
  rw [hless, modify_modify, CoreBuffer.entryAt_modify_self hd, modify_modify, modify_modify]
  dsimp only [Function.comp_apply]
  by_cases hzero : (s.rob.entryAt d).numRegDependent - 1 = 0
  · rw [if_pos hzero]
    by_cases hm : (s.rob.entryAt d).isMemory = true
    · rw [if_pos hm, if_neg fun h => Bool.false_ne_true (h.2.symm.trans hm)]
      refine congrArg (fun b => { s with rob := b }) (modify_congr ?_)
      rw [receive, if_pos hzero, if_pos hm]
      rfl
    · rw [if_neg hm, if_pos ⟨hzero, Bool.eq_false_iff.mpr hm⟩]
      refine congrArg (fun b => addReady .rte0 d { s with rob := b }) (modify_congr ?_)
      rw [receive, if_pos hzero, if_neg hm]
      rfl
  · rw [if_neg hzero, if_neg fun h => hzero h.1]
    refine congrArg (fun b => { s with rob := b }) (modify_congr ?_)
    rw [receive, if_neg hzero]

/-- What a register that has come leaves as it is. -/
theorem receive_eq (e : OooInstr) : receive e = { e with
    numRegDependent := e.numRegDependent - 1
    regReady := (receive e).regReady
    scheduled := (receive e).scheduled } := by
  unfold receive
  split <;> rfl

theorem receive_ready {e : OooInstr} (hnot : e.regReady = false) :
    (receive e).regReady = true ↔ e.numRegDependent - 1 = 0 := by
  unfold receive
  split
  · rename_i hzero
    exact iff_of_true rfl hzero
  · rename_i hzero
    exact iff_of_false (by rw [hnot]; exact Bool.false_ne_true) hzero

theorem receive_scheduled {b : CoreBuffer} {d : Nat} (hf : Flags b)
    (hidle : (b.entryAt d).scheduled ≠ .idle) (hexecuted : (b.entryAt d).executed = .idle) :
    (receive (b.entryAt d)).scheduled = (b.entryAt d).scheduled := by
  unfold receive
  split
  · cases hm : (b.entryAt d).isMemory with
    | true =>
        have hmemory := hf.memory d hm
        cases hsc : (b.entryAt d).scheduled with
        | idle => exact absurd hsc hidle
        | inflight => rfl
        | completed => exact absurd hexecuted (hmemory.mp hsc)
    | false =>
        have hplain := hf.plain d hm
        cases hsc : (b.entryAt d).scheduled with
        | idle => exact absurd hsc hidle
        | inflight => exact absurd hsc hplain
        | completed => rfl
  · rfl

/-- One register of an entry that waits for `c` has come. -/
theorem releaseOne_settling {c d j : Nat} {R : Nat → Nat → Prop} (hs : Settling records s c R)
    (hR : R d j) :
    Settling records (s.releaseOne d) c (fun d' j' => R d' j' ∧ ¬(d' = d ∧ j' = j)) ∧
      ∀ q i, ((s.releaseOne d).rob.entryAt q).indexDependOnMe i =
        (s.rob.entryAt q).indexDependOnMe i := by
  obtain ⟨w, is₀, is₁, hb, hissue, hsize⟩ := hs.board
  obtain ⟨ws, xs, ys, zs, hin⟩ := hs.pipelined
  have hw := (hb.self d j).mpr hR
  obtain ⟨-, hd, hj⟩ := hb.linked.slot hw
  obtain ⟨hnot, hexecuted, hidle⟩ := waits_idle hb.linked hb.flags hw
  have hpipelined := (pipelined_registers records).releaseOne d hs.pipelined
  have hself : (s.rob.modify d receive).entryAt d = receive (s.rob.entryAt d) :=
    CoreBuffer.entryAt_modify_self hd
  have hready := receive_ready hnot
  have hboard := hb.released receive_eq hR (receive_scheduled hb.flags hidle hexecuted) hready
  have hother : ∀ q, q ≠ d → (((s.rob.modify d receive).entryAt q).ToExecute ↔
      (s.rob.entryAt q).ToExecute) := fun q hq => by
    rw [CoreBuffer.entryAt_modify_ne (Ne.symm hq)]
  have hwas : ¬(s.rob.entryAt d).ToExecute := fun h =>
    Bool.false_ne_true (hnot.symm.trans h.ready)
  have hlogged : Logged records { s with rob := s.rob.modify d receive } :=
    hs.logged.congr rfl rfl rfl
      (CoreBuffer.modify_nth OooInstr.executed (by rw [receive_eq]))
  have hindex : ∀ q i, ((s.rob.modify d receive).entryAt q).indexDependOnMe i =
      (s.rob.entryAt q).indexDependOnMe i := fun q i =>
    CoreBuffer.modify_field (OooInstr.indexDependOnMe · i) (by rw [receive_eq]; rfl) q
  by_cases hlast : (s.rob.entryAt d).numRegDependent - 1 = 0 ∧ (s.rob.entryAt d).isMemory = false
  · -- the entry can be executed
    have hbound : ∀ q, (s.rob.entryAt q).ToExecute → q < robSize := by
      intro q hq
      rw [← hsize, ← hin.rob.length]
      by_contra hge
      have hblank : s.rob.entryAt q = {} := by
        unfold CoreBuffer.entryAt
        rw [List.getElem?_eq_none (Nat.le_of_not_lt hge)]
        rfl
      have hsc := hq.scheduled
      rw [hblank] at hsc
      exact Returned.noConfusion hsc
    obtain ⟨hadd, is₀', is₁', hissue'⟩ := hissue.push (a := .rte0) (c := d)
      (t := { s with rob := s.rob.modify d receive }) hbound rfl
      (by rw [← hsize, ← hin.rob.length]; exact hd) hwas rfl fun q => by
        by_cases hq : q = d
        · subst hq
          refine ⟨fun _ => .inl rfl, fun _ => ?_⟩
          rw [hself]
          refine ⟨?_, ?_, hready.mpr hlast.1, ?_⟩
          · rw [receive_eq]
            exact hlast.2
          · unfold receive
            rw [if_pos hlast.1, hlast.2]
            rfl
          · rw [receive_eq]
            exact hexecuted
        · exact (hother q hq).trans ⟨.inr, fun h => h.resolve_left hq⟩
    rw [releaseOne_eq hd, if_pos hlast, hadd] at hpipelined ⊢
    exact ⟨{
      pipelined := hpipelined
      board := ⟨_, is₀', is₁', hboard, hissue', hsize⟩
      logged := hlogged.congr rfl rfl rfl fun _ => rfl
      ifetch := hs.ifetch
      decode := hs.decode
      fault := hs.fault }, hindex⟩
  · rw [releaseOne_eq hd, if_neg hlast] at hpipelined ⊢
    exact ⟨{
      pipelined := hpipelined
      board := ⟨_, is₀, is₁, hboard, hissue.congr (fun _ _ => rfl) fun q => by
        by_cases hq : q = d
        · subst hq
          refine iff_of_false (fun h => ?_) hwas
          rw [show (({ s with rob := s.rob.modify q receive } : O3Cpu).rob.entryAt q) =
            receive (s.rob.entryAt q) from hself] at h
          refine hlast ⟨hready.mp h.ready, ?_⟩
          have hplain := h.plain
          rwa [receive_eq] at hplain
        · exact hother q hq, hsize⟩
      logged := hlogged
      ifetch := hs.ifetch
      decode := hs.decode
      fault := hs.fault }, hindex⟩

/-- The sources of one dependent of `c`; the dependents in `rest` are to come. -/
theorem releaseSources_settling {c i : Nat} {idx : Nat → List Nat} {rest : List Nat} (hi : i ∉ rest)
    (n : Nat) (hs : Settling records s c fun d j => (d ∈ rest ∨ d = i) ∧ d ∈ idx j)
    (hidx : ∀ j, (s.rob.entryAt c).indexDependOnMe j = idx j) :
    Settling records ((List.range n).foldl (releaseSource c i) s) c
        (fun d j => (d ∈ rest ∨ d = i ∧ n ≤ j) ∧ d ∈ idx j) ∧
      ∀ j, (((List.range n).foldl (releaseSource c i) s).rob.entryAt c).indexDependOnMe j =
        idx j := by
  induction n with
  | zero =>
      refine ⟨hs.congr fun d j => ?_, hidx⟩
      simp only [Nat.zero_le, and_true]
  | succ n ih =>
      rw [List.range_succ, List.foldl_append, List.foldl_cons, List.foldl_nil]
      obtain ⟨hsettling, hsame⟩ := ih
      generalize (List.range n).foldl (releaseSource c i) s = t at *
      unfold releaseSource
      rw [hsame]
      split
      · rename_i hmem
        obtain ⟨hreleased, hkept⟩ := releaseOne_settling hsettling ⟨.inr ⟨rfl, le_rfl⟩, hmem⟩
        refine ⟨hreleased.congr fun d j => ?_, fun j => (hkept c j).trans (hsame j)⟩
        constructor
        · rintro ⟨⟨hrest | ⟨hd, hj⟩, hdj⟩, hne⟩
          · exact ⟨.inl hrest, hdj⟩
          · exact ⟨.inr ⟨hd, Nat.lt_of_le_of_ne hj fun h => hne ⟨hd, h.symm⟩⟩, hdj⟩
        · rintro ⟨hrest | ⟨hd, hj⟩, hdj⟩
          · exact ⟨⟨.inl hrest, hdj⟩, fun h => hi (h.1 ▸ hrest)⟩
          · exact ⟨⟨.inr ⟨hd, Nat.le_of_succ_le hj⟩, hdj⟩, fun h => Nat.ne_of_gt hj h.2⟩
      · rename_i hmem
        refine ⟨hsettling.congr fun d j => ?_, hsame⟩
        constructor
        · rintro ⟨hrest | ⟨hd, hj⟩, hdj⟩
          · exact ⟨.inl hrest, hdj⟩
          · refine ⟨.inr ⟨hd, Nat.lt_of_le_of_ne hj ?_⟩, hdj⟩
            rintro rfl
            exact hmem (hd ▸ hdj)
        · rintro ⟨hrest | ⟨hd, hj⟩, hdj⟩
          · exact ⟨.inl hrest, hdj⟩
          · exact ⟨.inr ⟨hd, Nat.le_of_succ_le hj⟩, hdj⟩

/-- All of the dependents. -/
theorem releaseAll_settling {c : Nat} {idx : Nat → List Nat}
    (hsized : ∀ d j, d ∈ idx j → j < numInstrSources) (is : List Nat) (hnodup : is.Nodup)
    (hs : Settling records s c fun d j => d ∈ is ∧ d ∈ idx j)
    (hidx : ∀ j, (s.rob.entryAt c).indexDependOnMe j = idx j) :
    Sound records (is.foldl (fun s i =>
      (List.range numInstrSources).foldl (releaseSource c i) s) s) := by
  induction is generalizing s with
  | nil => exact hs.finish fun d j h => List.not_mem_nil h.1
  | cons i is ih =>
      rw [List.nodup_cons] at hnodup
      have hcome : Settling records s c fun d j => (d ∈ is ∨ d = i) ∧ d ∈ idx j :=
        hs.congr fun d j => and_congr_left fun _ => by rw [List.mem_cons, or_comm]
      obtain ⟨hsettling, hsame⟩ := releaseSources_settling hnodup.1 numInstrSources hcome hidx
      rw [List.foldl_cons]
      refine ih hnodup.2 (hsettling.congr fun d j => ?_) hsame
      refine and_congr_left fun hdj => ⟨fun h => h.resolve_right fun hd => ?_, .inl⟩
      exact absurd (hsized d j hdj) (Nat.not_lt.mpr hd.2)

/-- **`reg_RAW_release` lets go of all that wait.** -/
theorem regRAWRelease_sound {c : Nat}
    (hs : Settling records s c fun d j => d ∈ (s.rob.entryAt c).indexDependOnMe j) :
    Sound records (s.regRAWRelease c) := by
  obtain ⟨w, is₀, is₁, hb, -⟩ := hs.board
  have hsized := hb.linked.sized c
  refine releaseAll_settling (fun d j => hsized.lt_of_mem) _ (hb.linked.nodup c)
    (hs.congr fun d j => ?_) fun _ => rfl
  refine ⟨fun hdj => ⟨?_, hdj⟩, And.right⟩
  exact (hb.linked.instrs c d).mpr ⟨j, hsized.lt_of_mem hdj, hdj⟩

theorem completeExecution_sound (hne : records ≠ []) (hs : Sound records s) (c : Nat) :
    Sound records (s.completeExecution c) := by
  unfold completeExecution
  dsimp only
  split
  · rename_i hgo
    have hsettling := completeEntry_settling hne hs hgo.2.1
    have hindex : ∀ j, ((s.completeEntry c).rob.entryAt c).indexDependOnMe j =
        (s.rob.entryAt c).indexDependOnMe j := fun j => by
      rw [completeEntry_rob]
      exact CoreBuffer.modify_field (OooInstr.indexDependOnMe · j) rfl c
    have hreleased : Sound records (if (s.rob.entryAt c).regRAWProducer then
        (s.completeEntry c).regRAWRelease c else s.completeEntry c) := by
      split
      · exact regRAWRelease_sound (hsettling.congr fun d j => by rw [hindex])
      · rename_i hproducer
        refine hsettling.finish fun d j hdj => hproducer ?_
        obtain ⟨w, is₀, is₁, hb⟩ := hs.board
        refine hb.scoreboard.linked.producer c (List.ne_nil_of_mem (a := d) ?_)
        exact (hb.scoreboard.linked.instrs c d).mpr
          ⟨j, (hb.scoreboard.linked.sized c).lt_of_mem hdj, hdj⟩
    split
    · exact hreleased.frame ((pipelined_registers records).resume _ hreleased.pipelined) (.refl _)
        (fun _ _ => rfl) rfl rfl hreleased.ifetch hreleased.decode id
    · exact hreleased
  · exact hs

theorem completeExecutions_sound (hne : records ≠ []) (hs : Sound records s) :
    Sound records s.completeExecutions := by
  unfold completeExecutions
  split
  · exact foldl_keeps (P := Sound records) (fun _ c _ hs => completeExecution_sound hne hs c) hs
  · exact hs

end O3Cpu

end DramCache
