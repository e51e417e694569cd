import DramCache.Execution

/-!
# The life of an instruction

What fetching, dispatch and retirement do to the invariant of `DramCache.Execution`,
and what it says of every run: an instruction starts, completes and retires,
once each and in this order (`lifecycle`); it starts when the instructions its
registers come from have completed (`dataflow`); what is to be executed is in
one of the two arrays, once, for which there is always room
(`ready_to_execute`); and who waits is known to the one it waits for
(`no_lost_wakeup`).
-/

namespace DramCache

open Wakeup

/-! ## The front end -/

namespace CoreBuffer

variable {b : CoreBuffer} {i : OooInstr} {k : Nat} {p : OooInstr → Bool} {f : OooInstr → OooInstr}

theorem Unissued.entryAt (h : b.Unissued) (k : Nat) : (b.entryAt k).Unissued := by
  unfold CoreBuffer.entryAt
  cases hk : b.entry[k]? with
  | none => exact rfl
  | some e => exact h e (List.mem_of_getElem? hk)

theorem Unissued.modify (h : b.Unissued) (hf : ∀ e, e.Unissued → (f e).Unissued) :
    (b.modify k f).Unissued := by
  intro e he
  obtain ⟨n, hn⟩ := List.getElem?_of_mem he
  change (b.entry.modify k f)[n]? = some e at hn
  rw [List.getElem?_modify] at hn
  obtain ⟨e', he', rfl⟩ := Option.map_eq_some_iff.mp hn
  have hmem := h e' (List.mem_of_getElem? he')
  split
  · exact hf e' hmem
  · exact hmem

theorem Unissued.modifyAll (h : b.Unissued) (hf : ∀ e, e.Unissued → (f e).Unissued) :
    (b.modifyAll p f).Unissued := by
  intro e he
  obtain ⟨e', he', rfl⟩ := List.mem_map.mp he
  have hmem := h e' he'
  split
  · exact hf e' hmem
  · exact hmem

theorem Unissued.push (h : b.Unissued) (hi : i.Unissued) : (b.push i).Unissued := by
  intro e he
  rcases List.mem_or_eq_of_mem_set he with he | rfl
  · exact h e he
  · exact hi

theorem Unissued.pop (h : b.Unissued) : b.pop.Unissued := by
  intro e he
  rcases List.mem_or_eq_of_mem_set he with he | rfl
  · exact h e he
  · exact rfl

theorem unissued_new (size : Nat) : (new size).Unissued := by
  intro e he
  rw [List.eq_of_mem_replicate he]
  rfl

end CoreBuffer

namespace O3Cpu

/-- What fetching and decoding do keeps `P`, but for what they move from one
buffer to the next, and `STA`. -/
structure FrontKeeps (P : O3Cpu → Prop) : Prop where
  check : ∀ {s f} ok, f.ofPipeline = true → P s → P (check ok f s)
  ifetch : ∀ {s} b, (s.ifetchBuffer.Unissued → b.Unissued) → P s →
    b.size = s.ifetchBuffer.size → P { s with ifetchBuffer := b }
  decode : ∀ {s} b, (s.ifetchBuffer.Unissued → s.decodeBuffer.Unissued → b.Unissued) → P s →
    b.size = s.decodeBuffer.size → P { s with decodeBuffer := b }
  stall : ∀ {s} b, P s → P { s with fetchStall := b }
  resume : ∀ {s} n, P s → P { s with fetchResumeCycle := n }
  toRead : ∀ {s} n, P s → P { s with instrsToReadThisCycle := n }

namespace FrontKeeps

variable {P : O3Cpu → Prop} {s : O3Cpu} (h : FrontKeeps P)
include h

theorem addToIfetchBuffer {i : OooInstr} (hi : i.Unissued) (hs : P s) :
    P (s.addToIfetchBuffer i) :=
  h.ifetch _ (fun hb => hb.push (hi.fetching rfl)) (h.check _ rfl hs) rfl

theorem predictBranch (index : Nat) (prediction : UInt8) (hs : P s) :
    P (s.predictBranch index prediction) := by
  unfold O3Cpu.predictBranch
  dsimp only
  split
  · exact hs
  · split
    · split
      · exact h.ifetch _ (fun hb => hb.modify fun _ he => he.fetching rfl)
          (h.toRead 0 (h.stall true hs)) rfl
      · exact hs
    · split
      · exact h.toRead 0 hs
      · exact hs

theorem requestEntries (itlb l1i : Nat → Bool) (left index : Nat) (hs : P s) :
    P (s.requestEntries itlb l1i left index) := by
  induction left generalizing index s with
  | zero => exact hs
  | succ left ih =>
      unfold O3Cpu.requestEntries
      split
      · exact hs
      · have hpage : P (s.askItlb (itlb index) index) := by
          unfold askItlb
          dsimp only
          split
          · exact h.ifetch _ (fun hb => hb.modifyAll fun _ he => he.fetching rfl) hs rfl
          · exact hs
        refine ih _ ?_
        unfold askL1i
        dsimp only
        split
        · exact h.ifetch _ (fun hb => hb.modifyAll fun _ he => he.fetching rfl) hpage rfl
        · exact hpage

theorem addToDecodeBuffer (index : Nat) (hs : P s) :
    P (s.addToDecodeBuffer (s.ifetchBuffer.entryAt index)) := by
  refine h.decode _ (fun hi hd => hd.push ?_) (h.check _ rfl hs) rfl
  rw [check_frame ifetchBuffer (fun _ _ => rfl)] at hi
  exact (hi.entryAt index).fetching rfl

theorem sendToDecode (left : Nat) (hs : P s) : P (s.sendToDecode left) := by
  induction left generalizing s with
  | zero => exact hs
  | succ left ih =>
      unfold O3Cpu.sendToDecode
      dsimp only
      split
      · exact hs
      · split
        · split
          · exact ih (h.ifetch _ (fun hb => hb.pop) (h.addToDecodeBuffer _ hs) rfl)
          · exact hs
        · exact ih hs

theorem fetchInstruction (itlb l1i : Nat → Bool) (hs : P s) : P (s.fetchInstruction itlb l1i) := by
  have hstall : P s.endStall := by
    unfold endStall
    split
    · exact h.resume 0 (h.stall false hs)
    · exact hs
  unfold O3Cpu.fetchInstruction
  dsimp only
  split
  · exact hstall
  · exact h.sendToDecode _ (h.requestEntries _ _ _ _ hstall)

theorem completeInstrFetch (isItTlb : Bool) (ip : UInt64) (hs : P s) :
    P (s.completeInstrFetch isItTlb ip) := by
  unfold O3Cpu.completeInstrFetch
  split
  · exact h.ifetch _ (fun hb => hb.modifyAll fun _ he => he.fetching rfl) hs rfl
  · exact h.ifetch _ (fun hb => hb.modifyAll fun _ he => he.fetching rfl) hs rfl

theorem payDecode (left width index : Nat) (hs : P s) : P (s.payDecode left width index) := by
  induction left generalizing width index s with
  | zero => exact hs
  | succ left ih =>
      unfold O3Cpu.payDecode
      dsimp only
      split
      · exact hs
      · have hpaid : P (s.payLatency index) := by
          unfold payLatency
          split
          · exact h.decode _ (fun _ hd => hd.modify fun _ he => he.fetching rfl) hs rfl
          · exact hs
        generalize (if (s.decodeBuffer.entryAt index).eventCycle = 0 then width - 1 else width) = n
        split
        · exact hpaid
        · split
          · exact hpaid
          · exact ih _ _ hpaid

end FrontKeeps

/-- What fetching leaves alone. -/
structure Fetching (s s' : O3Cpu) : Prop where
  rob : s'.rob = s.rob
  ready : s'.ready = s.ready
  log : s'.log = s.log
  numRetired : s'.numRetired = s.numRetired
  fault : s'.fault = some .readyToExecute → s.fault = some .readyToExecute
  ifetch : s.ifetchBuffer.Unissued → s'.ifetchBuffer.Unissued
  decode : s.ifetchBuffer.Unissued → s.decodeBuffer.Unissued → s'.decodeBuffer.Unissued

variable {records : List InputInstr} {s s' s'' : O3Cpu}

namespace Fetching

theorem refl (s : O3Cpu) : Fetching s s := ⟨rfl, rfl, rfl, rfl, id, id, fun _ => id⟩

theorem trans (h : Fetching s s') (h' : Fetching s' s'') : Fetching s s'' :=
  ⟨h'.rob.trans h.rob, h'.ready.trans h.ready, h'.log.trans h.log,
    h'.numRetired.trans h.numRetired, fun hf => h.fault (h'.fault hf),
    fun hi => h'.ifetch (h.ifetch hi), fun hi hd => h'.decode (h.ifetch hi) (h.decode hi hd)⟩

theorem sound (h : Fetching s s') (hpipelined : Pipelined records s') (hs : Sound records s) :
    Sound records s' :=
  hs.frame hpipelined (h.rob ▸ .refl _) (fun a _ => congrFun h.ready a) h.log h.numRetired
    (h.ifetch hs.ifetch) (h.decode hs.ifetch hs.decode) h.fault

end Fetching

theorem fetching_check {ok : Bool} {f : CoreFault} (hf : f ≠ .readyToExecute) (s : O3Cpu) :
    Fetching s (check ok f s) where
  rob := check_frame rob (fun _ _ => rfl) ..
  ready := check_frame ready (fun _ _ => rfl) ..
  log := check_frame log (fun _ _ => rfl) ..
  numRetired := check_frame numRetired (fun _ _ => rfl) ..
  fault := check_ne_readyToExecute hf
  ifetch hi := by
    rw [check_frame ifetchBuffer (fun _ _ => rfl)]
    exact hi
  decode _ hd := by
    rw [check_frame decodeBuffer (fun _ _ => rfl)]
    exact hd

theorem fetching_front (s : O3Cpu) : FrontKeeps (Fetching s) where
  check ok hf hs := hs.trans (fetching_check (by rintro rfl; exact Bool.false_ne_true hf) _)
  ifetch b hb hs _ := hs.trans ⟨rfl, rfl, rfl, rfl, id, hb, fun _ => id⟩
  decode b hb hs _ := hs.trans ⟨rfl, rfl, rfl, rfl, id, id, hb⟩
  stall _ hs := hs.trans ⟨rfl, rfl, rfl, rfl, id, id, fun _ => id⟩
  resume _ hs := hs.trans ⟨rfl, rfl, rfl, rfl, id, id, fun _ => id⟩
  toRead _ hs := hs.trans ⟨rfl, rfl, rfl, rfl, id, id, fun _ => id⟩

/-! ### From the trace -/

theorem fetching_updateSta (instrId : Nat) (s : O3Cpu) : Fetching s (updateSta instrId s) :=
  (fetching_check CoreFault.noConfusion s).trans ⟨rfl, rfl, rfl, rfl, id, id, fun _ => id⟩

theorem readInstr_unissued {f f' : TraceFile} {i : OooInstr} (h : f.readInstr = some (i, f')) :
    i.Unissued := by
  have hread := (readInstr_spec h).2.1
  unfold OooInstr.Unissued
  rw [hread]

theorem fetching_readLoop (predict : Nat → UInt8) (fuel numReads : Nat) {s : O3Cpu}
    (h : readLoop predict fuel numReads s = some s') : Fetching s s' := by
  induction fuel generalizing numReads s with
  | zero => exact absurd h (Option.some_ne_none s').symm
  | succ fuel ih =>
      rw [readLoop] at h
      obtain ⟨q, hq, h⟩ := Option.bind_eq_some_iff.mp h
      have hstores : ∀ (ds : List UInt64) t, Fetching s t →
          Fetching s (ds.foldl (fun s _ => updateSta q.1.instrId s) t) := fun ds t ht =>
        foldl_keeps (P := Fetching s) (fun t _ _ ht => ht.trans (fetching_updateSta _ t)) ht
      have hread := hstores (q.1.destinationMemory.filter (· ≠ 0)) { s with file := q.2 }
        ⟨rfl, rfl, rfl, rfl, id, id, fun _ => id⟩
      dsimp only at h
      generalize (q.1.destinationMemory.filter (· ≠ 0)).foldl
        (fun s _ => updateSta q.1.instrId s) { s with file := q.2 } = t at hread h
      have hadded := (fetching_front s).predictBranch t.ifetchBuffer.tail (predict q.1.instrId)
        ((fetching_front s).addToIfetchBuffer (readInstr_unissued hq) hread)
      split at h
      · split at h
        · obtain rfl := Option.some.inj h
          exact hadded
        · exact hadded.trans (ih _ h)
      · exact hread.trans (ih _ h)

theorem fetching_readFromTrace {predict : Nat → UInt8} (h : s.readFromTrace predict = some s') :
    Fetching s s' :=
  ((fetching_front s).toRead fetchWidth (.refl s)).trans (fetching_readLoop predict fetchWidth 0 h)

/-! ## Dispatch -/

/-- One instruction more at the tail of the reorder buffer. -/
theorem Logged.push (h : Logged records s) {xs : List OooInstr} {e : OooInstr}
    (hring : s.rob.Holds xs) (hroom : s.rob.occupancy < s.rob.size) (hidle : e.executed = .idle)
    (hrob : s'.rob = s.rob.push e) (hlog : s'.log = s.log) (hnum : s'.numRetired = s.numRetired) :
    Logged records s' := by
  have hhistory : s'.history = s.history := by
    unfold history
    rw [hlog]
  refine ⟨?_, ?_, ?_, ?_⟩
  · rw [hnum, hhistory]
    exact h.past
  · rw [hrob, hnum, hhistory]
    intro p hp
    change p < s.rob.occupancy + 1 at hp
    by_cases hlast : p = s.rob.occupancy
    · rw [hlast, hring.push_nth_last, hidle]
      exact h.future _ le_rfl
    · rw [hring.push_nth hroom (by omega) hlast]
      exact h.present p (by omega)
  · rw [hrob, hnum, hhistory]
    intro p hp
    exact h.future p (Nat.le_of_succ_le hp)
  · rw [hlog]
    exact h.flows

/-- The arrays do not hold a cell that is overwritten. -/
theorem Issue.replace {is₀ is₁ : List Nat} (h : Issue s is₀ is₁) {c : Nat} {e : OooInstr}
    (hready : s'.ready = s.ready) (hentry : s'.rob.entry = s.rob.entry.set c e)
    (hwas : ¬(s.rob.entryAt c).ToExecute) (hidle : e.scheduled = .idle) : Issue s' is₀ is₁ := by
  refine h.congr (fun a _ => congrFun hready a) fun d => ?_
  unfold CoreBuffer.entryAt at hwas ⊢
  rw [hentry]
  by_cases hd : c = d
  · subst hd
    refine iff_of_false (fun hnew => ?_) hwas
    have hscheduled := hnew.scheduled
    rw [List.getElem?_set] at hscheduled
    split at hscheduled
    · split at hscheduled
      · exact Returned.noConfusion (hidle.symm.trans hscheduled)
      · exact Returned.noConfusion hscheduled
    · exact absurd rfl ‹_›
  · rw [List.getElem?_set_ne hd]

theorem InOrder.addToRob_eq {ws xs ys zs : List OooInstr} (h : InOrder records s ws xs ys zs)
    {e : OooInstr} (hip : e.ip ≠ 0) (hroom : s.rob.occupancy < s.rob.size) :
    s.addToRob e = { s with rob := s.rob.push { e with eventCycle := s.currentCoreCycle } } := by
  have hblank : (s.rob.entryAt s.rob.tail).instrId = 0 :=
    congrArg OooInstr.instrId (h.rob.tail_blank hroom)
  unfold O3Cpu.addToRob
  dsimp only
  rw [check_of (decide_eq_true hblank), check_of (decide_eq_true hip)]

theorem dispatchOne_sound (hs : Sound records s)
    (hip : (s.decodeBuffer.entryAt s.decodeBuffer.head).ip ≠ 0)
    (hroom : s.rob.occupancy < s.rob.size) :
    Sound records
      { s.addToRob (s.decodeBuffer.entryAt s.decodeBuffer.head) with
        decodeBuffer :=
          (s.addToRob (s.decodeBuffer.entryAt s.decodeBuffer.head)).decodeBuffer.pop } := by
  obtain ⟨w, is₀, is₁, hb⟩ := hs.board
  obtain ⟨ws, xs, ys, zs, hin⟩ := hs.pipelined
  have hpipelined := hin.addToRob hip hroom
  rw [hin.addToRob_eq hip hroom] at hpipelined ⊢
  have hunissued : OooInstr.Unissued { s.decodeBuffer.entryAt s.decodeBuffer.head with
      eventCycle := s.currentCoreCycle } := (hs.decode.entryAt _).fetching rfl
  obtain ⟨hfresh, hsized, hidle⟩ := hunissued.fresh
  generalize { s.decodeBuffer.entryAt s.decodeBuffer.head with
    eventCycle := s.currentCoreCycle } = e at *
  have hdead : (s.rob.entryAt s.rob.tail).scheduled = .idle := by
    rw [hin.rob.tail_cell]
    exact (hb.scoreboard.line.dead s.rob.occupancy le_rfl hroom).1
  exact {
    pipelined := hpipelined
    board := ⟨w, is₀, is₁, hb.scoreboard.push hin.rob hroom hfresh hsized hidle,
      hb.issue.replace (c := s.rob.tail) (e := e) rfl rfl
        (fun h => Returned.noConfusion (hdead.symm.trans h.scheduled)) hidle, hb.size⟩
    logged := hs.logged.push hin.rob hroom hfresh.executed rfl rfl rfl
    ifetch := hs.ifetch
    decode := hs.decode.pop
    fault := hs.fault }

theorem dispatch_sound (left : Nat) (hs : Sound records s) : Sound records (s.dispatch left) := by
  induction left generalizing s with
  | zero => exact hs
  | succ left ih =>
      unfold dispatch
      dsimp only
      split
      · exact hs
      · rename_i hip
        split
        · rename_i hroom
          exact ih (dispatchOne_sound hs hip hroom.1)
        · exact hs

/-! ## Retirement -/

/-- A store that is written is no stage of an instruction. -/
theorem Logged.written (h : Logged records s) (pkt : StorePacket) :
    Logged records (note (.written pkt) s) := by
  have hhistory : (note (.written pkt) s).history = s.history := by
    funext id
    rw [history_note]
    exact List.append_nil _
  refine ⟨?_, ?_, ?_, h.flows.append fun _ hid => CoreEvent.noConfusion hid⟩
  · rw [hhistory]
    exact h.past
  · rw [hhistory]
    exact h.present
  · rw [hhistory]
    exact h.future

theorem writeStores_sound (i : OooInstr) (hs : Sound records s) :
    Sound records (s.writeStores i) := by
  refine foldl_keeps (fun s d _ hs => ?_) hs
  split
  · obtain ⟨w, is₀, is₁, hb⟩ := hs.board
    exact {
      pipelined := pipelined_note rfl hs.pipelined
      board := ⟨w, is₀, is₁, hb.scoreboard, hb.issue.congr (fun _ _ => rfl) fun _ => Iff.rfl,
        hb.size⟩
      logged := hs.logged.written _
      ifetch := hs.ifetch
      decode := hs.decode
      fault := hs.fault }
  · exact hs

theorem releaseStoreQueue_sound (i : OooInstr) (hs : Sound records s) :
    Sound records (s.releaseStoreQueue i) := by
  refine foldl_keeps (fun s j _ hs => ?_) hs
  cases j with
  | none => exact hs
  | some j =>
      exact hs.frame (hs.pipelined.frame rfl rfl (fun _ => id) rfl rfl rfl rfl) (.refl _)
        (fun _ _ => rfl) rfl rfl hs.ifetch hs.decode id

/-- The first instruction of the reorder buffer retires. -/
theorem Logged.retire (h : Logged records s) {xs : List OooInstr} {x : OooInstr}
    (hring : s.rob.Holds (x :: xs)) (hid : (s.rob.entryAt s.rob.head).instrId = s.numRetired)
    (hdone : (s.rob.entryAt s.rob.head).executed = .completed) : Logged records s.releaseRob := by
  have hocc := hring.occupancy
  have hpop := hring.pop.occupancy
  have hbound := hring.le_size
  rw [List.length_cons] at hocc hbound
  have hhead : s.rob.nth 0 = s.rob.entryAt s.rob.head := by
    unfold CoreBuffer.nth
    rw [Ring.cell_zero hring.ring.head_lt]
  have hfirst := h.present 0 (by omega)
  rw [hhead, hdone, Nat.add_zero] at hfirst
  have hhistory : ∀ id, s.releaseRob.history id =
      s.history id ++ (if s.numRetired = id then some Stage.retired else none).toList := by
    intro id
    change (note (.retired (s.rob.entryAt s.rob.head)) s).history id = _
    rw [history_note, CoreEvent.stage, hid]
  refine ⟨fun id hlt => ?_, fun p hp => ?_, fun p hp => ?_, ?_⟩
  · change id < s.numRetired + 1 at hlt
    rw [hhistory]
    by_cases hlast : s.numRetired = id
    · rw [if_pos hlast, ← hlast, hfirst]
      rfl
    · rw [if_neg hlast, h.past id (by omega)]
      rfl
  · change p < s.rob.pop.occupancy at hp
    change s.releaseRob.history (s.numRetired + 1 + p) = stages (s.rob.pop.nth p).executed
    rw [hhistory, if_neg (by omega), hring.pop_nth (by omega)]
    have hnext := h.present (p + 1) (by omega)
    rw [show s.numRetired + 1 + p = s.numRetired + (p + 1) by omega, hnext]
    exact List.append_nil _
  · change s.rob.pop.occupancy ≤ p at hp
    change s.releaseRob.history (s.numRetired + 1 + p) = []
    rw [hhistory, if_neg (by omega)]
    have hnext := h.future (p + 1) (by omega)
    rw [show s.numRetired + 1 + p = s.numRetired + (p + 1) by omega, hnext]
    rfl
  · exact h.flows.append fun _ hid => CoreEvent.noConfusion hid

theorem releaseRob_sound (hne : records ≠ []) (hs : Sound records s)
    (hip : (s.rob.entryAt s.rob.head).ip ≠ 0)
    (hdone : (s.rob.entryAt s.rob.head).executed = .completed) : Sound records s.releaseRob := by
  obtain ⟨w, is₀, is₁, hb⟩ := hs.board
  obtain ⟨ws, xs, ys, zs, hin⟩ := hs.pipelined
  have hpipelined := hin.releaseRob hip
  obtain ⟨xs, rfl⟩ := hin.rob.eq_cons hip
  have hid : (s.rob.entryAt s.rob.head).instrId = s.numRetired := by
    have hfirst := hs.pipelined.instrId hne (p := 0) (by
      rw [hin.rob.occupancy]
      exact Nat.succ_pos _)
    unfold CoreBuffer.nth at hfirst
    rwa [Ring.cell_zero hin.rob.ring.head_lt] at hfirst
  exact {
    pipelined := hpipelined
    board := ⟨w, is₀, is₁, hb.scoreboard.pop hin.rob hdone,
      hb.issue.replace (c := s.rob.head) (e := {}) rfl rfl
        (fun h => Returned.noConfusion (hdone.symm.trans h.idle)) rfl, hb.size⟩
    logged := hs.logged.retire hin.rob hid hdone
    ifetch := hs.ifetch
    decode := hs.decode
    fault := hs.fault }

theorem retireFrom_sound (hne : records ≠ []) (room : Nat → Bool) (left : Nat)
    (hs : Sound records s) : Sound records (s.retireFrom room left) := by
  induction left generalizing s with
  | zero => exact hs
  | succ left ih =>
      unfold retireFrom
      dsimp only
      split
      · exact hs
      · rename_i hip
        split
        · exact hs
        · rename_i hdone
          split
          · exact hs
          · have hstores := releaseStoreQueue_sound (s.rob.entryAt s.rob.head)
              (writeStores_sound (s.rob.entryAt s.rob.head) hs)
            refine ih (releaseRob_sound hne hstores ?_ ?_)
            · rwa [releaseStoreQueue_rob, writeStores_rob]
            · rw [releaseStoreQueue_rob, writeStores_rob]
              exact not_not.mp hdone

/-! ## A run -/

theorem entryAt_new (size c : Nat) : (CoreBuffer.new size).entryAt c = {} := by
  unfold CoreBuffer.entryAt CoreBuffer.new
  dsimp only
  rw [List.getElem?_replicate]
  split <;> rfl

theorem waiting_none (d : Nat) : waiting numInstrSources (fun _ _ => (none : Option Nat)) d = 0 :=
  waiting_eq_zero.mpr fun _ _ => rfl

theorem scoreboard_new (size : Nat) : Scoreboard (.new size) fun _ _ => none := by
  have hblank := OooInstr.fresh_blank
  have hnth : ∀ p, (CoreBuffer.new size).nth p = {} := fun p => entryAt_new size _
  exact {
    linked := {
      slot := fun hw => absurd hw.symm (Option.some_ne_none _)
      checked := fun hw => absurd rfl hw
      count := fun d => by
        rw [entryAt_new, waiting_none]
        rfl
      ready := fun d _ => waiting_none d
      instrs := fun c d => by
        rw [entryAt_new]
        refine iff_of_false List.not_mem_nil fun ⟨j, _, hd⟩ => ?_
        rw [hblank.index j] at hd
        exact List.not_mem_nil hd
      nodup := fun c => by
        rw [entryAt_new]
        exact List.nodup_nil
      producer := fun c hc => by
        rw [entryAt_new] at hc
        exact absurd rfl hc
      sized := fun c => by
        rw [entryAt_new]
        exact OooInstr.sized_blank }
    recorded := fun c d j => by
      rw [entryAt_new, hblank.index j]
      exact iff_of_false (Option.some_ne_none c).symm fun h => List.not_mem_nil h.2
    flags := by
      refine ⟨fun c _ => ?_, fun c => ?_, fun c => ?_, fun c => ?_, fun c => ?_⟩ <;>
        rw [entryAt_new]
      · exact hblank
      · exact fun h => absurd h Bool.false_ne_true
      · exact fun _ => Returned.noConfusion
      · exact fun h => absurd rfl h
      · exact fun h => absurd rfl h
    line := by
      refine ⟨rfl, fun p _ _ => ?_, fun p q _ _ => ?_, fun p q _ _ => ?_,
        fun p q _ _ j hw => absurd hw.symm (Option.some_ne_none _)⟩
      · rw [hnth]
        exact ⟨rfl, Returned.noConfusion⟩
      · rw [hnth]
        exact fun h => absurd rfl h
      · rw [hnth q]
        exact fun h => absurd rfl h }

theorem init_sound (records : List InputInstr) : Sound records (init records) where
  pipelined := init_pipelined records
  board := by
    refine ⟨fun _ _ => none, [], [], scoreboard_new robSize, ⟨?_, ?_, List.nodup_nil, fun c => ?_⟩,
      rfl⟩
    · exact ReadyArray.holds_new (by decide)
    · exact ReadyArray.holds_new (by decide)
    · refine iff_of_false List.not_mem_nil fun h => ?_
      have hscheduled := h.scheduled
      rw [show (init records).rob.entryAt c = {} from entryAt_new robSize c] at hscheduled
      exact Returned.noConfusion hscheduled
  logged := by
    refine ⟨fun id h => absurd h (Nat.not_lt_zero id), fun p h => absurd h (Nat.not_lt_zero p),
      fun _ _ => rfl, fun l₁ l₂ id h => ?_⟩
    exact absurd h (List.append_ne_nil_of_right_ne_nil l₁ (List.cons_ne_nil _ l₂)).symm
  ifetch := CoreBuffer.unissued_new _
  decode := CoreBuffer.unissued_new _
  fault := (Option.some_ne_none _).symm

theorem step_sound (hne : records ≠ []) (op : CoreOp) (hs : Sound records s) :
    ∃ s', op.step s = some s' ∧ Sound records s' := by
  have hmemory := sound_memory records
  obtain ⟨s', hstep, hpipelined⟩ := step_pipelined hne op hs.pipelined
  refine ⟨s', hstep, ?_⟩
  have hclock : ∀ {t : O3Cpu}, Pipelined records t → t.rob = s.rob → t.ready = s.ready →
      t.log = s.log → t.numRetired = s.numRetired → t.ifetchBuffer = s.ifetchBuffer →
      t.decodeBuffer = s.decodeBuffer → t.fault = s.fault → Sound records t :=
    fun ht hrob hready hlog hnum hifetch hdecode hfault =>
      hs.frame ht (hrob ▸ .refl _) (fun a _ => congrFun hready a) hlog hnum (hifetch ▸ hs.ifetch)
        (hdecode ▸ hs.decode) fun hf => hfault ▸ hf
  cases op with
  | tick | warmup | finishWarmup =>
      obtain rfl := Option.some.inj hstep
      exact hclock hpipelined rfl rfl rfl rfl rfl rfl rfl
  | retireRob room =>
      obtain rfl := Option.some.inj hstep
      split
      · exact retireFrom_sound hne room retireWidth hs
      · exact hs
  | updateRob itlb l1i dtlb l1d =>
      obtain rfl := Option.some.inj hstep
      have hfetched : ∀ isItTlb ip t, Sound records t →
          Sound records (completeInstrFetch isItTlb ip t) := fun _ _ t ht =>
        ((fetching_front t).completeInstrFetch _ _ (.refl t)).sound
          (completeInstrFetch_pipelined _ _ ht.pipelined) ht
      refine completeExecutions_sound hne ?_
      refine elim_keeps (fun pkt _ hs => hmemory.completeDataFetch _ pkt hs) ?_
      refine elim_keeps (fun pkt _ hs => hmemory.completeDataFetch _ pkt hs) ?_
      exact elim_keeps (hfetched false) (elim_keeps (hfetched true) hs)
  | scheduleInstruction =>
      obtain rfl := Option.some.inj hstep
      split
      · exact scheduleInstruction_sound hs
      · exact hs
  | executeInstruction =>
      obtain rfl := Option.some.inj hstep
      exact executeInstruction_sound hne hs
  | scheduleMemoryInstruction =>
      obtain rfl := Option.some.inj hstep
      exact scheduleMemoryInstruction_keeps (fun _ n hs => hmemory.searched n hs)
        (fun _ i hs hm hr hsc => doMemoryScheduling_sound hne i hs hm hr hsc) hs
  | operateLsq stores loads data =>
      obtain rfl := Option.some.inj hstep
      exact hmemory.operateLsq stores loads data hs
  | decodeAndDispatch =>
      obtain rfl := Option.some.inj hstep
      split
      · have hdispatched := dispatch_sound decodeWidth hs
        exact ((fetching_front _).payDecode _ _ _ (.refl _)).sound
          (payDecode_pipelined _ _ _ hdispatched.pipelined) hdispatched
      · exact hs
  | fetchInstruction itlb l1i =>
      obtain rfl := Option.some.inj hstep
      exact ((fetching_front s).fetchInstruction itlb l1i (.refl s)).sound hpipelined hs
  | readFromTrace predict =>
      rw [CoreOp.step] at hstep
      split at hstep
      · exact (fetching_readFromTrace hstep).sound hpipelined hs
      · obtain rfl := Option.some.inj hstep
        exact hs

theorem run_sound (hne : records ≠ []) (ops : List CoreOp) :
    ∃ s, CoreOp.run ops (init records) = some s ∧ Sound records s :=
  CoreOp.run_keeps (fun op _ hs => step_sound hne op hs) ops (init_sound records)

/-- **The life of an instruction.** Whatever calls are made, an instruction
starts, completes and retires, once each and in this order, and the ones that
have retired are the first ones of the trace. -/
theorem lifecycle (hne : records ≠ []) (ops : List CoreOp) :
    ∃ s, CoreOp.run ops (init records) = some s ∧
      (∀ id, s.history id <+: [.started, .completed, .retired]) ∧
      ∀ id, .retired ∈ s.history id ↔ id < s.numRetired := by
  obtain ⟨s, hrun, hs⟩ := run_sound hne ops
  have hlater : ∀ p, ∃ r, s.history (s.numRetired + p) = stages r := by
    intro p
    by_cases hp : p < s.rob.occupancy
    · exact ⟨_, hs.logged.present p hp⟩
    · exact ⟨.idle, hs.logged.future p (Nat.le_of_not_lt hp)⟩
  refine ⟨s, hrun, fun id => ?_, fun id => ?_⟩ <;> by_cases hid : id < s.numRetired
  · exact ⟨[], (List.append_nil _).trans (hs.logged.past id hid)⟩
  · obtain ⟨p, rfl⟩ := Nat.exists_eq_add_of_le (Nat.le_of_not_lt hid)
    obtain ⟨r, hr⟩ := hlater p
    rw [hr]
    cases r with
    | idle => exact List.nil_prefix
    | inflight => exact ⟨[.completed, .retired], rfl⟩
    | completed => exact ⟨[.retired], rfl⟩
  · rw [hs.logged.past id hid]
    exact iff_of_true (by decide) hid
  · obtain ⟨p, rfl⟩ := Nat.exists_eq_add_of_le (Nat.le_of_not_lt hid)
    obtain ⟨r, hr⟩ := hlater p
    rw [hr]
    refine iff_of_false (fun hmem => ?_) hid
    cases r <;> simp [stages] at hmem

/-- After five cycles of the chain, two instructions have retired and the third
has completed. -/
theorem lifecycle_chain : ∃ s, CoreOp.run (chainCycles 5) (init chain) = some s ∧
    (∀ id, s.history id <+: [.started, .completed, .retired]) ∧
    (∀ id, .retired ∈ s.history id ↔ id < s.numRetired) ∧
    s.history 1 = [.started, .completed, .retired] ∧ s.history 2 = [.started, .completed] ∧
    s.history 3 = [.started] ∧ s.numRetired = 2 := by
  obtain ⟨s, hrun, hstages, hretired⟩ :=
    lifecycle chain_ne_nil (chainCycles 5)
  have hcheck : (CoreOp.run (chainCycles 5) (init chain)).map
      (fun s => (s.history 1, s.history 2, s.history 3, s.numRetired)) =
        some ([.started, .completed, .retired], [.started, .completed], [.started], 2) := by
    decide +kernel
  rw [hrun] at hcheck
  simp only [Option.map_some, Option.some.injEq, Prod.mk.injEq] at hcheck
  exact ⟨s, hrun, hstages, hretired, hcheck⟩

/-- **Data flow.** Whatever calls are made, when an instruction starts, the
instructions that its source registers come from in program order have
completed. -/
theorem dataflow (hne : records ≠ []) (ops : List CoreOp) :
    ∃ s, CoreOp.run ops (init records) = some s ∧ Flows records s.log := by
  obtain ⟨s, hrun, hs⟩ := run_sound hne ops
  exact ⟨s, hrun, hs.logged.flows⟩

/-- The third instruction of the chain's run starts behind the second, which
it takes a register from. -/
theorem dataflow_chain : ∃ s, CoreOp.run (chainCycles 5) (init chain) = some s ∧
    Flows chain s.log ∧ Feeds chain 1 2 ∧ .started 2 ∈ s.log := by
  obtain ⟨s, hrun, hflows⟩ := dataflow chain_ne_nil (chainCycles 5)
  have hfeeds : Feeds chain 1 2 :=
    ⟨0, by decide, by decide +kernel, by decide, by decide +kernel, fun m h h' => by omega⟩
  have hcheck : (CoreOp.run (chainCycles 5) (init chain)).map
      (fun s => decide (.started 2 ∈ s.log)) = some true := by
    decide +kernel
  rw [hrun] at hcheck
  exact ⟨s, hrun, hflows, hfeeds, of_decide_eq_true (Option.some.inj hcheck)⟩

/-- **What is ready.** The two arrays hold the entries that are to be executed
and no others, each of them once, and the assertion that there is room for the
next one does not fail. -/
theorem ready_to_execute (hne : records ≠ []) (ops : List CoreOp) :
    ∃ s is₀ is₁, CoreOp.run ops (init records) = some s ∧
      (s.ready .rte0).Holds robSize is₀ ∧ (s.ready .rte1).Holds robSize is₁ ∧
      (is₀ ++ is₁).Nodup ∧ (∀ c, c ∈ is₀ ++ is₁ ↔ (s.rob.entryAt c).ToExecute) ∧
      s.fault ≠ some .readyToExecute := by
  obtain ⟨s, hrun, hs⟩ := run_sound hne ops
  obtain ⟨w, is₀, is₁, hb⟩ := hs.board
  exact ⟨s, is₀, is₁, hrun, hb.issue.rte0, hb.issue.rte1, hb.issue.nodup, hb.issue.mem, hs.fault⟩

/-- After four cycles of the chain, two entries are to be executed. -/
theorem ready_to_execute_chain : ∃ s is₀ is₁,
    CoreOp.run (chainCycles 4) (init chain) = some s ∧
      (s.ready .rte0).Holds robSize is₀ ∧ (s.ready .rte1).Holds robSize is₁ ∧
      (is₀ ++ is₁).Nodup ∧ (∀ c, c ∈ is₀ ++ is₁ ↔ (s.rob.entryAt c).ToExecute) ∧
      s.fault ≠ some .readyToExecute ∧ 2 ∈ is₀ ++ is₁ ∧ 5 ∈ is₀ ++ is₁ := by
  obtain ⟨s, is₀, is₁, hrun, h₀, h₁, hnodup, hmem, hfault⟩ :=
    ready_to_execute chain_ne_nil (chainCycles 4)
  have hcheck : (CoreOp.run (chainCycles 4) (init chain)).map (fun s =>
      [2, 5].map fun c => ((s.rob.entryAt c).isMemory, (s.rob.entryAt c).scheduled,
        (s.rob.entryAt c).regReady, (s.rob.entryAt c).executed)) =
        some [(false, .completed, true, .idle), (false, .completed, true, .idle)] := by
    decide +kernel
  rw [hrun] at hcheck
  simp only [Option.map_some, Option.some.injEq, List.map_cons, List.map_nil, List.cons.injEq,
    Prod.mk.injEq, and_true] at hcheck
  obtain ⟨⟨hp₂, hs₂, hr₂, he₂⟩, hp₅, hs₅, hr₅, he₅⟩ := hcheck
  exact ⟨s, is₀, is₁, hrun, h₀, h₁, hnodup, hmem, hfault, (hmem 2).mpr ⟨hp₂, hs₂, hr₂, he₂⟩,
    (hmem 5).mpr ⟨hp₅, hs₅, hr₅, he₅⟩⟩

/-- **No wake-up is lost.** An entry that is scheduled and has not all of its
registers is in the set of a producer that has not completed; and the entry at
the head has them all. -/
theorem no_lost_wakeup (hne : records ≠ []) (ops : List CoreOp) :
    ∃ s, CoreOp.run ops (init records) = some s ∧
      (∀ d, (s.rob.entryAt d).scheduled ≠ .idle → (s.rob.entryAt d).regReady = false →
        ∃ c j, (s.rob.entryAt c).executed ≠ .completed ∧
          d ∈ (s.rob.entryAt c).indexDependOnMe j) ∧
      ((s.rob.entryAt s.rob.head).scheduled ≠ .idle →
        (s.rob.entryAt s.rob.head).regReady = true) := by
  obtain ⟨s, hrun, hs⟩ := run_sound hne ops
  obtain ⟨w, is₀, is₁, hb⟩ := hs.board
  obtain ⟨ws, xs, ys, zs, hin⟩ := hs.pipelined
  have hlt := hin.rob.ring.head_lt
  refine ⟨s, hrun, fun d hscheduled hready => ?_, fun hscheduled => ?_⟩
  · by_contra hnone
    refine Bool.false_ne_true (hready.symm.trans ((hb.scoreboard.ready_iff hscheduled).mpr ?_))
    intro j _
    refine Option.eq_none_iff_forall_not_mem.mpr fun c hc => hnone ⟨c, j, ?_⟩
    exact (hb.scoreboard.recorded c d j).mp hc
  · refine (hb.scoreboard.ready_iff hscheduled).mpr fun j _ => ?_
    refine Option.eq_none_iff_forall_not_mem.mpr fun c hc => ?_
    have hc' := (hb.scoreboard.linked.slot hc).1
    obtain ⟨p, hp, rfl⟩ := Ring.exists_cell hlt (hin.rob.length ▸ hc')
    refine Nat.not_lt_zero p (hb.scoreboard.line.older p 0 hp (Nat.zero_lt_of_lt hlt) j ?_)
    rw [Ring.cell_zero hlt]
    exact hc

/-- After four cycles of the chain, the store waits for a register; the entry at
the head is scheduled, too. -/
theorem no_lost_wakeup_chain : ∃ s, CoreOp.run (chainCycles 4) (init chain) = some s ∧
    (∀ d, (s.rob.entryAt d).scheduled ≠ .idle → (s.rob.entryAt d).regReady = false →
      ∃ c j, (s.rob.entryAt c).executed ≠ .completed ∧
        d ∈ (s.rob.entryAt c).indexDependOnMe j) ∧
    ((s.rob.entryAt s.rob.head).scheduled ≠ .idle →
      (s.rob.entryAt s.rob.head).regReady = true) ∧
    (s.rob.entryAt 3).scheduled = .inflight ∧ (s.rob.entryAt 3).regReady = false ∧
    (s.rob.entryAt s.rob.head).scheduled = .completed := by
  obtain ⟨s, hrun, hwaits, hhead⟩ :=
    no_lost_wakeup chain_ne_nil (chainCycles 4)
  have hcheck : (CoreOp.run (chainCycles 4) (init chain)).map (fun s =>
      ((s.rob.entryAt 3).scheduled, (s.rob.entryAt 3).regReady,
        (s.rob.entryAt s.rob.head).scheduled)) = some (.inflight, false, .completed) := by
    decide +kernel
  rw [hrun] at hcheck
  simp only [Option.map_some, Option.some.injEq, Prod.mk.injEq] at hcheck
  exact ⟨s, hrun, hwaits, hhead, hcheck⟩

end O3Cpu

end DramCache
