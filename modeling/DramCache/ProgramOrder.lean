import DramCache.CoreSteps

/-!
# Program order

From the trace to retirement no instruction is lost, doubled or overtaken:
what has retired, and then what the reorder buffer, the decode buffer and the
fetch buffer hold, from the head of each, is what has been read of the trace.
Each buffer is a ring (`DramCache.Ring`), up to what the stages write into an
instruction.
-/

namespace DramCache

/-- The instruction as it has been read. -/
def OooInstr.asRead (i : OooInstr) : OooInstr :=
  { instrId := i.instrId
    ip := i.ip
    isBranch := i.isBranch
    isMemory := i.isMemory
    branchTaken := i.branchTaken
    branchType := i.branchType
    branchTarget := i.branchTarget
    numMemOps := i.destinationMemory.countP (· ≠ 0) + i.sourceMemory.countP (· ≠ 0)
    destinationRegisters := i.destinationRegisters
    sourceRegisters := i.sourceRegisters
    destinationMemory := i.destinationMemory
    sourceMemory := i.sourceMemory }

theorem OooInstr.SameButMemory.asRead {e e' : OooInstr} (h : e.SameButMemory e') :
    e'.asRead = e.asRead :=
  (congrArg OooInstr.asRead h).trans rfl

theorem OooInstr.SameButRegisters.asRead {e e' : OooInstr} (h : e.SameButRegisters e') :
    e'.asRead = e.asRead :=
  (congrArg OooInstr.asRead h.1).trans rfl

/-! ## Buffers as rings -/

namespace CoreBuffer

variable {b : CoreBuffer} {x i : OooInstr} {xs : List OooInstr}

/-- What is in the buffer, from its head. -/
def contents (b : CoreBuffer) : List OooInstr :=
  (List.range b.occupancy).map fun i => b.entryAt (Ring.cell b.size b.head i)

/-- These instructions are in the buffer. -/
structure Holds (b : CoreBuffer) (xs : List OooInstr) : Prop where
  ring : Ring.Holds b.size b.head b.tail (b.entry.map OooInstr.asRead) (OooInstr.asRead {}) xs
  occupancy : b.occupancy = xs.length

theorem getElem?_map_asRead {k : Nat} (hk : k < b.entry.length) :
    (b.entry.map OooInstr.asRead)[k]? = some (b.entryAt k).asRead := by
  rw [List.getElem?_map, entryAt, List.getElem?_eq_getElem hk]
  rfl

theorem holds_new {size : Nat} (hpos : 0 < size) : (new size).Holds [] := by
  refine ⟨?_, rfl⟩
  have h : Ring.Holds size 0 0 (List.replicate size (OooInstr.asRead {})) _ [] :=
    Ring.holds_nil hpos
  rwa [← List.map_replicate] at h

namespace Holds

theorem length (h : b.Holds xs) : b.entry.length = b.size := by
  rw [← h.ring.length, List.length_map]

theorem le_size (h : b.Holds xs) : xs.length ≤ b.size := h.ring.bound

/-- Only what it was read as matters. -/
theorem of_map {b' : CoreBuffer} (h : b.Holds xs) (hsize : b'.size = b.size)
    (hhead : b'.head = b.head) (htail : b'.tail = b.tail) (hocc : b'.occupancy = b.occupancy)
    (hmap : b'.entry.map OooInstr.asRead = b.entry.map OooInstr.asRead) : b'.Holds xs :=
  ⟨by rw [hsize, hhead, htail, hmap]; exact h.ring, hocc.trans h.occupancy⟩

theorem modify {k : Nat} {f : OooInstr → OooInstr} (h : b.Holds xs)
    (hf : (f (b.entryAt k)).asRead = (b.entryAt k).asRead) : (b.modify k f).Holds xs := by
  refine h.of_map rfl rfl rfl rfl (List.ext_getElem? fun n => ?_)
  rw [List.getElem?_map, List.getElem?_map]
  change Option.map _ (b.entry.modify k f)[n]? = _
  by_cases hn : k = n
  · subst hn
    rw [List.getElem?_modify_eq]
    unfold entryAt at hf
    cases hb : b.entry[k]? with
    | none => rfl
    | some e =>
        rw [hb] at hf
        exact congrArg some hf
  · rw [List.getElem?_modify_ne _ _ hn]

theorem modifyAll {p : OooInstr → Bool} {f : OooInstr → OooInstr} (h : b.Holds xs)
    (hf : ∀ e, (f e).asRead = e.asRead) : (b.modifyAll p f).Holds xs := by
  refine h.of_map rfl rfl rfl rfl ?_
  change List.map OooInstr.asRead (b.entry.map _) = _
  rw [List.map_map]
  refine List.map_congr_left fun e _ => ?_
  rw [Function.comp_apply]
  split
  · exact hf e
  · rfl

theorem push (h : b.Holds xs) (hroom : b.occupancy < b.size) : (b.push i).Holds (xs ++ [i.asRead]) := by
  rw [h.occupancy] at hroom
  refine ⟨?_, ?_⟩
  · have hring := h.ring.push (x := i.asRead) hroom
    rwa [← List.map_set] at hring
  · rw [List.length_append, List.length_singleton, ← h.occupancy]
    rfl

theorem pop (h : b.Holds (x :: xs)) : b.pop.Holds xs := by
  refine ⟨?_, ?_⟩
  · have hring := h.ring.pop
    rwa [← List.map_set] at hring
  · have hocc := h.occupancy
    rw [List.length_cons] at hocc
    change dec32 b.occupancy = _
    rw [hocc]
    rfl

/-- What is at the head. -/
theorem front (h : b.Holds xs) : (b.entryAt b.head).asRead = xs.headD (OooInstr.asRead {}) := by
  have hhead := h.ring.head_lt
  have hcell := Ring.cell_zero hhead
  have hget := getElem?_map_asRead (h.length.symm ▸ hhead)
  cases xs with
  | nil =>
      have hdead := h.ring.dead 0 (Nat.zero_lt_of_lt hhead) le_rfl
      rw [hcell, hget] at hdead
      exact Option.some.inj hdead
  | cons x xs =>
      have hlive := h.ring.live 0 (Nat.succ_pos _)
      rw [hcell, hget] at hlive
      exact Option.some.inj hlive

/-- Where the head is an instruction, it is the first one. -/
theorem eq_cons (h : b.Holds xs) (hip : (b.entryAt b.head).ip ≠ 0) :
    ∃ ys, xs = (b.entryAt b.head).asRead :: ys := by
  have hfront := h.front
  cases xs with
  | nil => exact absurd (congrArg OooInstr.ip hfront) hip
  | cons x xs => exact ⟨xs, by rw [hfront]; rfl⟩

theorem tail_blank (h : b.Holds xs) (hroom : b.occupancy < b.size) :
    (b.entryAt b.tail).asRead = OooInstr.asRead {} := by
  rw [h.occupancy] at hroom
  have hdead := h.ring.dead xs.length hroom le_rfl
  rw [← h.ring.tail_eq, getElem?_map_asRead] at hdead
  · exact Option.some.inj hdead
  · rw [h.length, h.ring.tail_eq]
    exact Ring.cell_lt h.ring.head_lt _

theorem map_contents (h : b.Holds xs) : b.contents.map OooInstr.asRead = xs := by
  refine List.ext_getElem? fun n => ?_
  unfold contents
  rw [List.map_map, List.getElem?_map, h.occupancy]
  by_cases hn : n < xs.length
  · rw [List.getElem?_range hn, ← h.ring.live n hn, getElem?_map_asRead]
    · rfl
    · rw [h.length]
      exact Ring.cell_lt h.ring.head_lt _
  · rw [List.getElem?_eq_none (by simpa using hn), List.getElem?_eq_none (by simpa using hn)]
    rfl

end Holds

end CoreBuffer

/-! ## What has retired -/

/-- The instruction, if this is its retirement. -/
def CoreEvent.retiredInstr : CoreEvent → Option OooInstr
  | retired i => some i
  | _ => none

/-- The assertions on the buffers between the trace and retirement. -/
def CoreFault.ofPipeline : CoreFault → Bool
  | robNotEmpty | robIpZero | ifetchNotEmpty | decodeNotEmpty => true
  | _ => false

namespace O3Cpu

/-- What has retired, in this order. -/
def retired (s : O3Cpu) : List OooInstr := s.log.filterMap CoreEvent.retiredInstr

theorem retired_note {e : CoreEvent} (s : O3Cpu) :
    (note e s).retired = s.retired ++ e.retiredInstr.toList := by
  unfold retired note
  rw [List.filterMap_append]
  cases e <;> rfl

/-- An assertion that holds changes nothing. -/
theorem check_of {ok : Bool} (h : ok = true) (f : CoreFault) (s : O3Cpu) : check ok f s = s := by
  rw [check, if_pos h]

theorem check_fault {ok : Bool} {f g : CoreFault} {s : O3Cpu}
    (h : (check ok f s).fault = some g) : s.fault = some g ∨ ok = false ∧ g = f := by
  cases ok with
  | true => exact .inl h
  | false =>
      cases hs : s.fault with
      | none =>
          rw [check, if_neg Bool.false_ne_true, hs] at h
          exact .inr ⟨rfl, (Option.some.inj h).symm⟩
      | some g' =>
          rw [check, if_neg Bool.false_ne_true, hs] at h
          exact .inl h

/-- What an assertion on something else leaves as it is. -/
theorem check_frame {β : Type*} (v : O3Cpu → β) (hv : ∀ s f, v { s with fault := f } = v s)
    (ok : Bool) (f : CoreFault) (s : O3Cpu) : v (check ok f s) = v s := by
  unfold check
  split
  · rfl
  · exact hv s _

/-! ## The pipeline -/

/-- What has retired, and what the reorder buffer, the decode buffer and the
fetch buffer hold, is what has been read. -/
structure InOrder (records : List InputInstr) (s : O3Cpu) (ws xs ys zs : List OooInstr) : Prop where
  done : s.retired.map OooInstr.asRead = ws
  numRetired : s.numRetired = ws.length
  rob : s.rob.Holds xs
  decode : s.decodeBuffer.Holds ys
  ifetch : s.ifetchBuffer.Holds zs
  read : (TraceFile.openTrace records).readInstrs s.file.instrUniqueId =
    some (ws ++ xs ++ ys ++ zs, s.file)
  fault : ∀ f, s.fault = some f → f.ofPipeline = false

def Pipelined (records : List InputInstr) (s : O3Cpu) : Prop :=
  ∃ ws xs ys zs, InOrder records s ws xs ys zs

variable {records : List InputInstr} {s : O3Cpu} {ws xs ys zs : List OooInstr}

theorem init_pipelined (records : List InputInstr) : Pipelined records (init records) :=
  ⟨[], [], [], [], rfl, rfl, CoreBuffer.holds_new (by decide), CoreBuffer.holds_new (by decide),
    CoreBuffer.holds_new (by decide), rfl, fun f hf => absurd hf (Option.some_ne_none f).symm⟩

/-- The observations the property is about. -/
theorem InOrder.of_eq {s' : O3Cpu} (h : InOrder records s ws xs ys zs)
    (hretired : s'.retired = s.retired) (hnum : s'.numRetired = s.numRetired)
    (hrob : s.rob.Holds xs → s'.rob.Holds xs) (hdecode : s'.decodeBuffer = s.decodeBuffer)
    (hifetch : s'.ifetchBuffer = s.ifetchBuffer) (hfile : s'.file = s.file)
    (hfault : ∀ f, s'.fault = some f → s.fault = some f ∨ f.ofPipeline = false) :
    InOrder records s' ws xs ys zs :=
  ⟨hretired ▸ h.done, hnum ▸ h.numRetired, hrob h.rob, hdecode ▸ h.decode, hifetch ▸ h.ifetch,
    hfile ▸ h.read, fun f hf => (hfault f hf).elim (h.fault f) id⟩

theorem pipelined_check {ok : Bool} {f : CoreFault} (hf : f.ofPipeline = false)
    (h : Pipelined records s) : Pipelined records (check ok f s) := by
  obtain ⟨ws, xs, ys, zs, h⟩ := h
  refine ⟨ws, xs, ys, zs, h.of_eq (check_frame retired (fun _ _ => rfl) ..)
    (check_frame numRetired (fun _ _ => rfl) ..) (fun hrob => ?_)
    (check_frame decodeBuffer (fun _ _ => rfl) ..) (check_frame ifetchBuffer (fun _ _ => rfl) ..)
    (check_frame file (fun _ _ => rfl) ..) fun g hg => ?_⟩
  · rwa [check_frame O3Cpu.rob (fun _ _ => rfl)]
  · rcases check_fault hg with hg | ⟨-, rfl⟩
    · exact .inl hg
    · exact .inr hf

/-- What leaves all of it as it is. -/
theorem Pipelined.frame {s' : O3Cpu} (h : Pipelined records s) (hlog : s'.log = s.log)
    (hnum : s'.numRetired = s.numRetired)
    (hrob : ∀ is, s.rob.Holds is → s'.rob.Holds is) (hdecode : s'.decodeBuffer = s.decodeBuffer)
    (hifetch : s'.ifetchBuffer = s.ifetchBuffer) (hfile : s'.file = s.file)
    (hfault : s'.fault = s.fault) : Pipelined records s' := by
  obtain ⟨ws, xs, ys, zs, h⟩ := h
  exact ⟨ws, xs, ys, zs, h.of_eq (congrArg (List.filterMap CoreEvent.retiredInstr) hlog)
    hnum (hrob _) hdecode hifetch hfile fun f hf => .inl (hfault ▸ hf)⟩

theorem pipelined_note {e : CoreEvent} (he : e.retiredInstr = none) (h : Pipelined records s) :
    Pipelined records (note e s) := by
  obtain ⟨ws, xs, ys, zs, h⟩ := h
  refine ⟨ws, xs, ys, zs, h.of_eq ?_ rfl id rfl rfl rfl fun _ => .inl⟩
  rw [retired_note, he]
  exact List.append_nil _

theorem pipelined_memory (records : List InputInstr) : MemoryKeeps (Pipelined records) where
  check ok hf hs := pipelined_check (by cases ‹CoreFault› <;> first | rfl | cases hf) hs
  lq _ hs := hs.frame rfl rfl (fun _ => id) rfl rfl rfl rfl
  sq _ _ _ hs := hs.frame rfl rfl (fun _ => id) rfl rfl rfl rfl
  rob _ _ hf hs := hs.frame rfl rfl (fun _ h => h.modify (hf _).asRead) rfl rfl rfl rfl
  ready _ _ hs := hs.frame rfl rfl (fun _ => id) rfl rfl rfl rfl
  inflight _ hs := hs.frame rfl rfl (fun _ => id) rfl rfl rfl rfl
  searched _ hs := hs.frame rfl rfl (fun _ => id) rfl rfl rfl rfl

theorem pipelined_registers (records : List InputInstr) : RegisterKeeps (Pipelined records) where
  check _ hs := pipelined_check rfl hs
  rob _ _ hf hs := hs.frame rfl rfl (fun _ h => h.modify hf.asRead) rfl rfl rfl rfl
  ready _ _ hs := hs.frame rfl rfl (fun _ => id) rfl rfl rfl rfl
  nextSchedule _ hs := hs.frame rfl rfl (fun _ h => h.of_map rfl rfl rfl rfl rfl) rfl rfl rfl rfl
  searched _ hs := hs.frame rfl rfl (fun _ => id) rfl rfl rfl rfl
  regExecutions _ hs := hs.frame rfl rfl (fun _ => id) rfl rfl rfl rfl
  memExecutions _ hs := hs.frame rfl rfl (fun _ => id) rfl rfl rfl rfl
  resume _ hs := hs.frame rfl rfl (fun _ => id) rfl rfl rfl rfl
  note he hs := pipelined_note (by cases ‹CoreEvent› <;> first | rfl | cases he) hs

/-! ### From the trace -/

/-- One more instruction is read. -/
theorem readInstrs_succ {f f' f'' : TraceFile} {is : List OooInstr} {i : OooInstr} {n : Nat}
    (h : f.readInstrs n = some (is, f')) (hi : f'.readInstr = some (i, f'')) :
    f.readInstrs (n + 1) = some (is ++ [i], f'') := by
  induction n generalizing f is with
  | zero =>
      obtain ⟨rfl, rfl⟩ := Prod.mk.inj (Option.some.inj h)
      rw [TraceFile.readInstrs, hi]
      rfl
  | succ n ih =>
      rw [TraceFile.readInstrs] at h
      obtain ⟨q, hq, h⟩ := Option.bind_eq_some_iff.mp h
      obtain ⟨q', hq', h⟩ := Option.bind_eq_some_iff.mp h
      obtain ⟨rfl, rfl⟩ := Prod.mk.inj (Option.some.inj h)
      rw [TraceFile.readInstrs, hq]
      change (q.2.readInstrs (n + 1)).bind _ = _
      rw [ih hq']
      rfl

theorem readInstr_spec {f f' : TraceFile} {i : OooInstr} (h : f.readInstr = some (i, f')) :
    i.instrId = f.instrUniqueId ∧ i.asRead = i ∧ f'.instrUniqueId = f.instrUniqueId + 1 := by
  obtain ⟨q, hq, h⟩ := Option.map_eq_some_iff.mp h
  obtain ⟨rfl, rfl⟩ := Prod.mk.inj h
  have hid : q.2.instrUniqueId = f.instrUniqueId := by
    unfold TraceFile.fread at hq
    split at hq
    · cases hq
      rfl
    · split at hq
      · cases hq
        rfl
      · cases hq
  exact ⟨hid, rfl, congrArg (· + 1) hid⟩

/-- There is always a next instruction. -/
theorem InOrder.exists_readInstr (h : InOrder records s ws xs ys zs) (hne : records ≠ []) :
    ∃ i f, s.file.readInstr = some (i, f) := by
  obtain ⟨is, f, hread, -, hat, -⟩ :=
    (TraceFile.openTrace_at records).readInstrs hne s.file.instrUniqueId
  obtain rfl := (Prod.mk.inj (Option.some.inj (hread.symm.trans h.read))).2
  obtain ⟨r, r', f', -, -, hi, -⟩ := hat.readInstr hne
  exact ⟨_, f', hi⟩

/-- The instruction goes to the fetch buffer; `f` is the file it was read from. -/
theorem InOrder.addToIfetchBuffer {f : TraceFile} {i : OooInstr}
    (h : InOrder records { s with file := f } ws xs ys zs) (hi : f.readInstr = some (i, s.file))
    (hroom : s.ifetchBuffer.occupancy < s.ifetchBuffer.size) :
    InOrder records (s.addToIfetchBuffer i) ws xs ys (zs ++ [i]) := by
  obtain ⟨-, hasRead, hnext⟩ := readInstr_spec hi
  have hblank : (s.ifetchBuffer.entryAt s.ifetchBuffer.tail).instrId = 0 :=
    congrArg OooInstr.instrId (h.ifetch.tail_blank hroom)
  unfold O3Cpu.addToIfetchBuffer
  rw [check_of (decide_eq_true hblank)]
  refine ⟨h.done, h.numRetired, h.rob, h.decode, ?_, ?_, h.fault⟩
  · have hpush := h.ifetch.push (i := { i with
      eventCycle := s.currentCoreCycle, translated := .completed, fetched := .idle }) hroom
    rwa [show OooInstr.asRead { i with
      eventCycle := s.currentCoreCycle, translated := .completed, fetched := .idle } = i from
        hasRead] at hpush
  · rw [← List.append_assoc]
    change (TraceFile.openTrace records).readInstrs s.file.instrUniqueId = _
    rw [hnext]
    exact readInstrs_succ h.read hi

theorem predictBranch_pipelined {index : Nat} {prediction : UInt8} (hs : Pipelined records s) :
    Pipelined records (s.predictBranch index prediction) := by
  unfold predictBranch
  dsimp only
  split
  · exact hs
  · split
    · split
      · obtain ⟨ws, xs, ys, zs, h⟩ := hs
        exact ⟨ws, xs, ys, zs, h.done, h.numRetired, h.rob, h.decode, h.ifetch.modify rfl, h.read,
          h.fault⟩
      · exact hs
    · split
      · exact hs.frame rfl rfl (fun _ => id) rfl rfl rfl rfl
      · exact hs

/-- The stores of the instruction are in `STA`. -/
theorem foldl_updateSta_keeps {P : O3Cpu → Prop} (hcheck : ∀ {s} ok, P s → P (check ok .sta s))
    (hsta : ∀ {s} sta tail, P s → P { s with sta := sta, staTail := tail }) {α : Type*}
    (as : List α) (instrId : Nat) {s : O3Cpu} (hs : P s) :
    P (as.foldl (fun s _ => updateSta instrId s) s) :=
  foldl_keeps (fun _ _ _ hs => hsta _ _ (hcheck _ hs)) hs

theorem predictBranch_instrsToRead (index : Nat) (prediction : UInt8) (s : O3Cpu) :
    (s.predictBranch index prediction).instrsToReadThisCycle ≤ s.instrsToReadThisCycle := by
  unfold predictBranch
  dsimp only
  split
  · exact le_rfl
  · split
    · split
      · exact Nat.zero_le _
      · exact le_rfl
    · split
      · exact Nat.zero_le _
      · exact le_rfl

theorem Pipelined.ifetch_le (h : Pipelined records s) :
    s.ifetchBuffer.occupancy ≤ s.ifetchBuffer.size := by
  obtain ⟨ws, xs, ys, zs, h⟩ := h
  rw [h.ifetch.occupancy]
  exact h.ifetch.le_size

/-- One instruction more in the fetch buffer. -/
theorem Pipelined.readStep (h : Pipelined records s) (hne : records ≠ [])
    (hroom : s.ifetchBuffer.occupancy < s.ifetchBuffer.size) :
    ∃ i f, s.file.readInstr = some (i, f) ∧
      ∃ t, (i.destinationMemory.filter (· ≠ 0)).foldl (fun s _ => updateSta i.instrId s)
          { s with file := f } = t ∧
        t.ifetchBuffer = s.ifetchBuffer ∧ t.instrsToReadThisCycle = s.instrsToReadThisCycle ∧
        Pipelined records (t.addToIfetchBuffer i) := by
  obtain ⟨ws, xs, ys, zs, h⟩ := h
  obtain ⟨i, f, hi⟩ := h.exists_readInstr hne
  refine ⟨i, f, hi, _, rfl, ?_⟩
  let P : O3Cpu → Prop := fun t => t.ifetchBuffer = s.ifetchBuffer ∧
    t.instrsToReadThisCycle = s.instrsToReadThisCycle ∧ t.file = f ∧
    InOrder records { t with file := s.file } ws xs ys zs
  have hP : P ((i.destinationMemory.filter (· ≠ 0)).foldl (fun s _ => updateSta i.instrId s)
      { s with file := f }) := by
    refine foldl_updateSta_keeps (P := P) (fun {t} ok ht => ?_) (fun _ _ ht => ?_) _ _
      ⟨rfl, rfl, rfl, h⟩
    · obtain ⟨hbuf, hinstrs, hfile, ht⟩ := ht
      refine ⟨(check_frame ifetchBuffer (fun _ _ => rfl) ..).trans hbuf,
        (check_frame instrsToReadThisCycle (fun _ _ => rfl) ..).trans hinstrs,
        (check_frame O3Cpu.file (fun _ _ => rfl) ..).trans hfile, ?_⟩
      refine ht.of_eq (check_frame retired (fun _ _ => rfl) ok .sta t)
        (check_frame numRetired (fun _ _ => rfl) ok .sta t) (fun hrob => ?_)
        (check_frame decodeBuffer (fun _ _ => rfl) ok .sta t)
        (check_frame ifetchBuffer (fun _ _ => rfl) ok .sta t) rfl fun g hg => ?_
      · change (check ok .sta t).rob.Holds xs
        rw [check_frame O3Cpu.rob (fun _ _ => rfl)]
        exact hrob
      · rcases check_fault (s := t) hg with hg | ⟨-, rfl⟩
        · exact .inl hg
        · exact .inr rfl
    · exact ⟨ht.1, ht.2.1, ht.2.2.1, ht.2.2.2.of_eq rfl rfl id rfl rfl rfl fun _ => .inl⟩
  obtain ⟨hbuf, hinstrs, hfile, ht⟩ := hP
  exact ⟨hbuf, hinstrs, ws, xs, ys, zs ++ [i],
    ht.addToIfetchBuffer (by rw [hfile]; exact hi) (by rw [hbuf]; exact hroom)⟩

/-- **The loop comes to an end**: every instruction that is read finds room,
and there are no more than `FETCH_WIDTH` of them. -/
theorem readLoop_pipelined (hne : records ≠ []) (predict : Nat → UInt8) (fuel numReads : Nat)
    {s : O3Cpu} (hs : Pipelined records s)
    (hroom : s.ifetchBuffer.occupancy < s.ifetchBuffer.size)
    (hwidth : s.instrsToReadThisCycle ≤ fetchWidth) (hfuel : fetchWidth ≤ fuel + numReads)
    (hreads : numReads < fetchWidth) :
    ∃ s', readLoop predict fuel numReads s = some s' ∧ Pipelined records s' := by
  induction fuel generalizing numReads s with
  | zero => omega
  | succ fuel ih =>
      obtain ⟨i, f, hi, t, ht, hbuf, hinstrs, hadded⟩ := hs.readStep hne hroom
      have hread : Pipelined records ((t.addToIfetchBuffer i).predictBranch t.ifetchBuffer.tail
          (predict i.instrId)) := predictBranch_pipelined hadded
      have hless := predictBranch_instrsToRead t.ifetchBuffer.tail (predict i.instrId)
        (t.addToIfetchBuffer i)
      have hadd : (t.addToIfetchBuffer i).instrsToReadThisCycle = t.instrsToReadThisCycle :=
        check_frame instrsToReadThisCycle (fun _ _ => rfl) ..
      rw [readLoop, hi, Option.bind_some]
      dsimp only
      rw [ht, if_pos (by rw [hbuf]; exact hroom)]
      split
      · exact ⟨_, rfl, hread⟩
      · rename_i hmore
        rw [not_or, not_le] at hmore
        exact ih (numReads + 1) hread (lt_of_le_of_ne hread.ifetch_le hmore.2) (by omega)
          (by omega) (by omega)

theorem readFromTrace_pipelined (hne : records ≠ []) (predict : Nat → UInt8)
    (hs : Pipelined records s) (hroom : s.ifetchBuffer.occupancy < s.ifetchBuffer.size) :
    ∃ s', s.readFromTrace predict = some s' ∧ Pipelined records s' :=
  readLoop_pipelined hne predict fetchWidth 0
    (hs.frame rfl rfl (fun _ => id) rfl rfl rfl rfl) hroom le_rfl le_rfl (by decide)

/-! ### Fetch and decode -/

/-- What is written into the entries of the fetch buffer. -/
theorem Pipelined.ifetch (h : Pipelined records s) {b : CoreBuffer}
    (hb : ∀ is, s.ifetchBuffer.Holds is → b.Holds is) :
    Pipelined records { s with ifetchBuffer := b } := by
  obtain ⟨ws, xs, ys, zs, h⟩ := h
  exact ⟨ws, xs, ys, zs, h.done, h.numRetired, h.rob, h.decode, hb _ h.ifetch, h.read, h.fault⟩

theorem requestPage_pipelined (ip : UInt64) (hs : Pipelined records s) :
    Pipelined records (s.requestPage ip) :=
  hs.ifetch fun _ h => h.modifyAll fun _ => rfl

theorem requestLine_pipelined (ip : UInt64) (hs : Pipelined records s) :
    Pipelined records (s.requestLine ip) :=
  hs.ifetch fun _ h => h.modifyAll fun _ => rfl

theorem requestEntries_pipelined (itlb l1i : Nat → Bool) (left index : Nat)
    (hs : Pipelined records s) : Pipelined records (s.requestEntries itlb l1i left index) := by
  induction left generalizing index s with
  | zero => exact hs
  | succ left ih =>
      unfold requestEntries
      split
      · exact hs
      · refine ih _ ?_
        have hpage : Pipelined records (s.askItlb (itlb index) index) := by
          unfold askItlb
          dsimp only
          split
          · exact requestPage_pipelined _ hs
          · exact hs
        unfold askL1i
        dsimp only
        split
        · exact requestLine_pipelined _ hpage
        · exact hpage

theorem completeInstrFetch_pipelined (isItTlb : Bool) (ip : UInt64) (hs : Pipelined records s) :
    Pipelined records (s.completeInstrFetch isItTlb ip) := by
  unfold completeInstrFetch
  split
  · exact hs.ifetch fun _ h => h.modifyAll fun _ => rfl
  · exact hs.ifetch fun _ h => h.modifyAll fun _ => rfl

/-- The first instruction of the fetch buffer becomes the last of the decode
buffer. -/
theorem InOrder.addToDecodeBuffer (h : InOrder records s ws xs ys zs)
    (hip : (s.ifetchBuffer.entryAt s.ifetchBuffer.head).ip ≠ 0)
    (hroom : s.decodeBuffer.occupancy < s.decodeBuffer.size) :
    Pipelined records
      { s.addToDecodeBuffer (s.ifetchBuffer.entryAt s.ifetchBuffer.head) with
        ifetchBuffer :=
          (s.addToDecodeBuffer (s.ifetchBuffer.entryAt s.ifetchBuffer.head)).ifetchBuffer.pop } := by
  obtain ⟨zs, rfl⟩ := h.ifetch.eq_cons hip
  have hblank : (s.decodeBuffer.entryAt s.decodeBuffer.tail).instrId = 0 :=
    congrArg OooInstr.instrId (h.decode.tail_blank hroom)
  unfold O3Cpu.addToDecodeBuffer
  rw [check_of (decide_eq_true hblank)]
  have hread := h.read
  rw [← List.singleton_append, ← List.append_assoc, List.append_assoc (ws ++ xs)] at hread
  exact ⟨ws, xs, ys ++ [(s.ifetchBuffer.entryAt s.ifetchBuffer.head).asRead], zs, h.done,
    h.numRetired, h.rob, h.decode.push hroom, h.ifetch.pop, hread, h.fault⟩

theorem sendToDecode_pipelined (left : Nat) (hs : Pipelined records s) :
    Pipelined records (s.sendToDecode left) := by
  induction left generalizing s with
  | zero => exact hs
  | succ left ih =>
      unfold sendToDecode
      dsimp only
      split
      · exact hs
      · rename_i hip
        split
        · split
          · rename_i hroom
            obtain ⟨ws, xs, ys, zs, h⟩ := hs
            exact ih (h.addToDecodeBuffer hip hroom)
          · exact hs
        · exact ih hs

theorem fetchInstruction_pipelined (itlb l1i : Nat → Bool) (hs : Pipelined records s) :
    Pipelined records (s.fetchInstruction itlb l1i) := by
  have hstall : Pipelined records s.endStall := by
    unfold endStall
    split
    · exact hs.frame rfl rfl (fun _ => id) rfl rfl rfl rfl
    · exact hs
  unfold fetchInstruction
  dsimp only
  split
  · exact hstall
  · exact sendToDecode_pipelined _ (requestEntries_pipelined _ _ _ _ hstall)

/-- The first instruction of the decode buffer becomes the last of the reorder
buffer. -/
theorem InOrder.addToRob (h : InOrder records s ws xs ys zs)
    (hip : (s.decodeBuffer.entryAt s.decodeBuffer.head).ip ≠ 0)
    (hroom : s.rob.occupancy < s.rob.size) :
    Pipelined records
      { s.addToRob (s.decodeBuffer.entryAt s.decodeBuffer.head) with
        decodeBuffer :=
          (s.addToRob (s.decodeBuffer.entryAt s.decodeBuffer.head)).decodeBuffer.pop } := by
  obtain ⟨ys, rfl⟩ := h.decode.eq_cons hip
  have hblank : (s.rob.entryAt s.rob.tail).instrId = 0 :=
    congrArg OooInstr.instrId (h.rob.tail_blank hroom)
  unfold O3Cpu.addToRob
  dsimp only
  rw [check_of (decide_eq_true hblank), check_of (decide_eq_true hip)]
  have hread := h.read
  rw [← List.singleton_append, ← List.append_assoc, List.append_assoc ws] at hread
  exact ⟨ws, xs ++ [(s.decodeBuffer.entryAt s.decodeBuffer.head).asRead], ys, zs, h.done,
    h.numRetired, h.rob.push hroom, h.decode.pop, h.ifetch, hread, h.fault⟩

theorem dispatch_pipelined (left : Nat) (hs : Pipelined records s) :
    Pipelined records (s.dispatch left) := by
  induction left generalizing s with
  | zero => exact hs
  | succ left ih =>
      unfold dispatch
      dsimp only
      split
      · exact hs
      · rename_i hip
        split
        · rename_i hroom
          obtain ⟨ws, xs, ys, zs, h⟩ := hs
          exact ih (h.addToRob hip hroom.1)
        · exact hs

theorem payDecode_pipelined (left width index : Nat) (hs : Pipelined records s) :
    Pipelined records (s.payDecode left width index) := by
  induction left generalizing width index s with
  | zero => exact hs
  | succ left ih =>
      unfold payDecode
      dsimp only
      split
      · exact hs
      · rename_i hip
        have hpaid : Pipelined records (s.payLatency index) := by
          unfold payLatency
          split
          · obtain ⟨ws, xs, ys, zs, h⟩ := hs
            exact ⟨ws, xs, ys, zs, h.done, h.numRetired, h.rob, h.decode.modify rfl, h.ifetch,
              h.read, h.fault⟩
          · exact hs
        generalize (if (s.decodeBuffer.entryAt index).eventCycle = 0 then width - 1 else width) = w
        split
        · exact hpaid
        · split
          · exact hpaid
          · exact ih _ _ hpaid

/-! ### Retirement -/

theorem writeStores_pipelined (i : OooInstr) (hs : Pipelined records s) :
    Pipelined records (s.writeStores i) := by
  refine foldl_keeps (fun s d _ hs => ?_) hs
  split
  · exact pipelined_note rfl hs
  · exact hs

theorem releaseStoreQueue_pipelined (i : OooInstr) (hs : Pipelined records s) :
    Pipelined records (s.releaseStoreQueue i) := by
  refine foldl_keeps (fun s j _ hs => ?_) hs
  cases j with
  | none => exact hs
  | some j => exact hs.frame rfl rfl (fun _ => id) rfl rfl rfl rfl

/-- The first instruction of the reorder buffer is the next to retire. -/
theorem InOrder.releaseRob (h : InOrder records s ws xs ys zs)
    (hip : (s.rob.entryAt s.rob.head).ip ≠ 0) : Pipelined records s.releaseRob := by
  obtain ⟨xs, rfl⟩ := h.rob.eq_cons hip
  have hread := h.read
  rw [← List.singleton_append, ← List.append_assoc] at hread
  refine ⟨ws ++ [(s.rob.entryAt s.rob.head).asRead], xs, ys, zs, ?_, ?_, h.rob.pop, h.decode,
    h.ifetch, hread, h.fault⟩
  · rw [← h.done]
    change List.map _ (retired (note _ s)) = _
    rw [retired_note, List.map_append]
    rfl
  · rw [List.length_append, List.length_singleton, ← h.numRetired]
    rfl

/-- What the stores of the head leave of the reorder buffer. -/
theorem writeStores_rob (i : OooInstr) (s : O3Cpu) : (s.writeStores i).rob = s.rob := by
  refine foldl_keeps (P := fun t => t.rob = s.rob) (fun t d _ ht => ?_) rfl
  split
  · exact ht
  · exact ht

theorem releaseStoreQueue_rob (i : OooInstr) (s : O3Cpu) : (s.releaseStoreQueue i).rob = s.rob := by
  refine foldl_keeps (P := fun t => t.rob = s.rob) (fun t j _ ht => ?_) rfl
  cases j with
  | none => exact ht
  | some j => exact ht

theorem retireFrom_pipelined (room : Nat → Bool) (left : Nat) (hs : Pipelined records s) :
    Pipelined records (s.retireFrom room left) := by
  induction left generalizing s with
  | zero => exact hs
  | succ left ih =>
      unfold retireFrom
      dsimp only
      split
      · exact hs
      · rename_i hip
        split
        · exact hs
        · split
          · exact hs
          · obtain ⟨ws, xs, ys, zs, h⟩ := releaseStoreQueue_pipelined (s.rob.entryAt s.rob.head)
              (writeStores_pipelined (s.rob.entryAt s.rob.head) hs)
            refine ih (h.releaseRob ?_)
            rwa [releaseStoreQueue_rob, writeStores_rob]

/-! ### A run -/

theorem enterStore_pipelined (robIndex j : Nat) (hs : Pipelined records s) :
    Pipelined records (s.enterStore robIndex j) :=
  hs.frame rfl rfl (fun _ h => h.modify rfl) rfl rfl rfl rfl

theorem addStoreQueue_pipelined (robIndex j : Nat) (hs : Pipelined records s) :
    Pipelined records (s.addStoreQueue robIndex j) := by
  have hchecked : Pipelined records
      (check ((s.sq.entryAt s.sq.tail).virtualAddress = 0) .storeQueue s) := pipelined_check rfl hs
  have hentered := enterStore_pipelined robIndex j hchecked
  exact hentered.frame rfl rfl (fun _ => id) rfl rfl rfl rfl

theorem doMemoryScheduling_pipelined (i : Nat) (hs : Pipelined records s) :
    Pipelined records (s.doMemoryScheduling i) := by
  have hkeeps := pipelined_memory records
  have hadded : Pipelined records (s.checkAndAddLsq i).2 :=
    hkeeps.checkAndAddLsq (fun hs _ _ _ _ _ => addStoreQueue_pipelined _ _ hs) i hs
  unfold doMemoryScheduling
  generalize s.checkAndAddLsq i = q at hadded ⊢
  refine hkeeps.searched _ ?_
  dsimp only
  split
  · exact (pipelined_note rfl hadded).frame rfl rfl (fun _ h => h.modify rfl) rfl rfl rfl rfl
  · exact hadded

theorem step_pipelined (hne : records ≠ []) (op : CoreOp) (hs : Pipelined records s) :
    ∃ s', op.step s = some s' ∧ Pipelined records s' := by
  have hmemory := pipelined_memory records
  have hregisters := pipelined_registers records
  cases op with
  | tick => exact ⟨_, rfl, hs.frame rfl rfl (fun _ => id) rfl rfl rfl rfl⟩
  | warmup => exact ⟨_, rfl, hs.frame rfl rfl (fun _ => id) rfl rfl rfl rfl⟩
  | finishWarmup => exact ⟨_, rfl, hs.frame rfl rfl (fun _ => id) rfl rfl rfl rfl⟩
  | retireRob room =>
      refine ⟨_, rfl, ?_⟩
      split
      · exact retireFrom_pipelined room retireWidth hs
      · exact hs
  | updateRob itlb l1i dtlb l1d =>
      refine ⟨_, rfl, hregisters.completeExecutions ?_⟩
      refine elim_keeps (fun pkt _ hs => hmemory.completeDataFetch _ pkt hs) ?_
      refine elim_keeps (fun pkt _ hs => hmemory.completeDataFetch _ pkt hs) ?_
      refine elim_keeps (fun ip _ hs => completeInstrFetch_pipelined _ ip hs) ?_
      exact elim_keeps (fun ip _ hs => completeInstrFetch_pipelined _ ip hs) hs
  | scheduleInstruction =>
      refine ⟨_, rfl, ?_⟩
      split
      · exact hregisters.scheduleInstruction hs
      · exact hs
  | executeInstruction => exact ⟨_, rfl, hregisters.executeInstruction hs⟩
  | scheduleMemoryInstruction =>
      exact ⟨_, rfl, scheduleMemoryInstruction_keeps (fun _ n hs => hmemory.searched n hs)
        (fun _ i hs _ _ _ => doMemoryScheduling_pipelined i hs) hs⟩
  | operateLsq stores loads data => exact ⟨_, rfl, hmemory.operateLsq stores loads data hs⟩
  | decodeAndDispatch =>
      refine ⟨_, rfl, ?_⟩
      split
      · exact payDecode_pipelined _ _ _ (dispatch_pipelined _ hs)
      · exact hs
  | fetchInstruction itlb l1i => exact ⟨_, rfl, fetchInstruction_pipelined itlb l1i hs⟩
  | readFromTrace predict =>
      rw [CoreOp.step]
      split
      · rename_i hroom
        exact readFromTrace_pipelined hne predict hs hroom.1
      · exact ⟨s, rfl, hs⟩

/-- **Program order.** Whatever calls are made, and whatever the caches and
the branch predictor answer, every call returns; what has retired and what the
three buffers hold is what has been read of the trace, in its order; and no
assertion on the buffers fails. -/
theorem program_order (hne : records ≠ []) (ops : List CoreOp) :
    ∃ s, CoreOp.run ops (init records) = some s ∧
      (TraceFile.openTrace records).readInstrs s.file.instrUniqueId =
        some ((s.retired ++ s.rob.contents ++ s.decodeBuffer.contents ++
          s.ifetchBuffer.contents).map OooInstr.asRead, s.file) ∧
      s.numRetired = s.retired.length ∧
      ∀ f, s.fault = some f → f.ofPipeline = false := by
  obtain ⟨s, hrun, ws, xs, ys, zs, h⟩ := CoreOp.run_keeps
    (fun op _ hs => step_pipelined hne op hs) ops (init_pipelined records)
  refine ⟨s, hrun, ?_, ?_, h.fault⟩
  · rw [List.map_append, List.map_append, List.map_append, h.done, h.rob.map_contents,
      h.decode.map_contents, h.ifetch.map_contents]
    exact h.read
  · rw [h.numRetired, ← h.done, List.length_map]

/-- An instruction, one that takes a register from it, and a store that takes
one from the second. -/
def chain : List InputInstr :=
  [{ ip := 4, destinationRegisters := [1, 0] },
    { ip := 8, sourceRegisters := [1, 0, 0, 0], destinationRegisters := [2, 0] },
    { ip := 12, sourceRegisters := [2, 0, 0, 0], destinationMemory := [64, 0] }]

theorem chain_ne_nil : chain ≠ [] := List.cons_ne_nil _ _

/-- The first cycles of a run of the chain. -/
def chainCycles (n : Nat) : List CoreOp := (List.replicate n (CoreOp.cycle 4 true none)).flatten

/-- After five cycles, two instructions have retired and 16 are in the reorder
buffer. -/
theorem program_order_chain : ∃ s, CoreOp.run (chainCycles 5) (init chain) = some s ∧
    (TraceFile.openTrace chain).readInstrs s.file.instrUniqueId =
      some ((s.retired ++ s.rob.contents ++ s.decodeBuffer.contents ++
        s.ifetchBuffer.contents).map OooInstr.asRead, s.file) ∧
    s.numRetired = s.retired.length ∧ (∀ f, s.fault = some f → f.ofPipeline = false) ∧
    s.retired.map OooInstr.instrId = [0, 1] ∧ s.rob.occupancy = 16 := by
  obtain ⟨s, hrun, hread, hnum, hfault⟩ :=
    program_order chain_ne_nil (chainCycles 5)
  have hcheck : (CoreOp.run (chainCycles 5) (init chain)).map
      (fun s => (s.retired.map OooInstr.instrId, s.rob.occupancy)) = some ([0, 1], 16) := by
    decide +kernel
  rw [hrun] at hcheck
  obtain ⟨hretired, hocc⟩ := Prod.mk.inj (Option.some.inj hcheck)
  exact ⟨s, hrun, hread, hnum, hfault, hretired, hocc⟩

end O3Cpu

end DramCache
