import DramCache.Llc

/-!
# Instructions

The records of a trace (`input_instr`) and what the core makes of them
(`ooo_model_instr`): the loop body of `read_from_trace` up to the fetch buffer,
with the kind of a branch inferred from the registers it names. The file is
opened anew at its end, so a trace of one record or more never runs out.

`knob_cloudsuite` is off. The translation of the address and what only the
caches read are left out.
-/

namespace DramCache

def regStackPointer : UInt8 := 6

def regFlags : UInt8 := 25

def regInstructionPointer : UInt8 := 26

/-- `NUM_INSTR_DESTINATIONS`, which is `MAX_INSTR_DESTINATIONS` here. -/
def numInstrDestinations : Nat := 2

def numInstrSources : Nat := 4

inductive BranchType where
  | notBranch
  | branchDirectJump
  | branchIndirect
  | branchConditional
  | branchDirectCall
  | branchIndirectCall
  | branchReturn
  | branchOther
deriving Repr, DecidableEq

/-- A record of a trace. -/
structure InputInstr where
  ip : UInt64 := 0
  isBranch : UInt8 := 0
  branchTaken : UInt8 := 0
  destinationRegisters : List UInt8 := List.replicate numInstrDestinations 0
  sourceRegisters : List UInt8 := List.replicate numInstrSources 0
  destinationMemory : List UInt64 := List.replicate numInstrDestinations 0
  sourceMemory : List UInt64 := List.replicate numInstrSources 0
deriving DecidableEq

/-- An instruction in the core. The sets of reorder-buffer indices are the
ascending lists that `ITERATE_SET` goes through; `none` is an index of
`UINT32_MAX`. -/
structure OooInstr where
  instrId : Nat := 0
  ip : UInt64 := 0
  producerId : Nat := 0
  eventCycle : Nat := 0
  isBranch : UInt8 := 0
  isMemory : Bool := false
  branchTaken : UInt8 := 0
  branchMispredicted : Bool := false
  branchType : BranchType := .notBranch
  branchTarget : UInt64 := 0
  translated : Returned := .idle
  fetched : Returned := .idle
  scheduled : Returned := .idle
  executed : Returned := .idle
  regReady : Bool := false
  regRAWProducer : Bool := false
  isProducer : Bool := false
  numMemOps : Int := 0
  numRegDependent : Int := 0
  destinationRegisters : List UInt8 := List.replicate numInstrDestinations 0
  sourceRegisters : List UInt8 := List.replicate numInstrSources 0
  destinationMemory : List UInt64 := List.replicate numInstrDestinations 0
  sourceMemory : List UInt64 := List.replicate numInstrSources 0
  regRAWChecked : List Bool := List.replicate numInstrSources false
  registersInstrsDependOnMe : List Nat := []
  registersIndexDependOnMe : List (List Nat) := List.replicate numInstrSources []
  memoryInstrsDependOnMe : List Nat := []
  sourceAdded : List Bool := List.replicate numInstrSources false
  destinationAdded : List Bool := List.replicate numInstrDestinations false
  lqIndex : List (Option Nat) := List.replicate numInstrSources none
  sqIndex : List (Option Nat) := List.replicate numInstrDestinations none
deriving DecidableEq

/-! ## The kind of a branch -/

namespace InputInstr

def readsSp (i : InputInstr) : Bool := i.sourceRegisters.any (· = regStackPointer)

def writesSp (i : InputInstr) : Bool := i.destinationRegisters.any (· = regStackPointer)

def readsFlags (i : InputInstr) : Bool := i.sourceRegisters.any (· = regFlags)

def readsIp (i : InputInstr) : Bool := i.sourceRegisters.any (· = regInstructionPointer)

def writesIp (i : InputInstr) : Bool := i.destinationRegisters.any (· = regInstructionPointer)

/-- The default case of the switch on a source register. -/
def readsOther (i : InputInstr) : Bool := i.sourceRegisters.any fun r =>
  r ≠ 0 && r ≠ regStackPointer && r ≠ regFlags && r ≠ regInstructionPointer

/-- "determine what kind of branch this is, if any". -/
def branchType (i : InputInstr) : BranchType :=
  if !i.readsSp && !i.readsFlags && i.writesIp && !i.readsOther then .branchDirectJump
  else if !i.readsSp && !i.readsFlags && i.writesIp && i.readsOther then .branchIndirect
  else if !i.readsSp && i.readsIp && !i.writesSp && i.writesIp && i.readsFlags && !i.readsOther then
    .branchConditional
  else if i.readsSp && i.readsIp && i.writesSp && i.writesIp && !i.readsFlags && !i.readsOther then
    .branchDirectCall
  else if i.readsSp && i.readsIp && i.writesSp && i.writesIp && !i.readsFlags && i.readsOther then
    .branchIndirectCall
  else if i.readsSp && !i.readsIp && i.writesSp && i.writesIp then .branchReturn
  else if i.writesIp then .branchOther
  else .notBranch

/-- Whoever does not write the instruction pointer is no branch. -/
theorem branchType_of_not_writesIp {i : InputInstr} (h : i.writesIp = false) :
    i.branchType = .notBranch := by
  simp only [branchType, h, Bool.and_false, Bool.false_and, Bool.false_eq_true, if_false]

/-- The record as an instruction of the core; `next` is the one behind it. -/
def decode (i next : InputInstr) (instrId : Nat) : OooInstr :=
  let kind := i.branchType
  let isBranch := if kind = .notBranch then i.isBranch else 1
  let branchTaken :=
    if kind = .notBranch ∨ kind = .branchConditional ∨ kind = .branchOther then i.branchTaken
    else 1
  let numMemOps := i.destinationMemory.countP (· ≠ 0) + i.sourceMemory.countP (· ≠ 0)
  { instrId := instrId
    ip := i.ip
    isBranch := isBranch
    branchTaken := branchTaken
    branchType := kind
    branchTarget := if isBranch = 1 ∧ branchTaken = 1 then next.ip else 0
    isMemory := 0 < numMemOps
    numMemOps := numMemOps
    destinationRegisters := i.destinationRegisters
    sourceRegisters := i.sourceRegisters
    destinationMemory := i.destinationMemory
    sourceMemory := i.sourceMemory }

end InputInstr

/-! ## The trace file -/

/-- The trace as `read_from_trace` comes by it. -/
structure TraceFile where
  trace : List InputInstr
  pending : List InputInstr
  currentInstr : InputInstr := {}
  nextInstr : InputInstr := {}
  instrUniqueId : Nat := 0
deriving DecidableEq

namespace TraceFile

/-- The file just opened. -/
def openTrace (trace : List InputInstr) : TraceFile := { trace := trace, pending := trace }

/-- One record, the first one again behind the last. `none` is a reader that
opens an empty file over and over. -/
def fread (f : TraceFile) : Option (InputInstr × TraceFile) :=
  match f.pending with
  | r :: rest => some (r, { f with pending := rest })
  | [] =>
      match f.trace with
      | r :: rest => some (r, { f with pending := rest })
      | [] => none

/-- The record that was read becomes `next_instr`, and the one before it
`current_instr`; the first one is both. -/
def accept (f : TraceFile) (r : InputInstr) : TraceFile :=
  { f with
    currentInstr := if f.instrUniqueId = 0 then r else f.nextInstr
    nextInstr := r
    instrUniqueId := f.instrUniqueId + 1 }

/-- The next instruction. -/
def readInstr (f : TraceFile) : Option (OooInstr × TraceFile) :=
  f.fread.map fun q =>
    ((q.2.accept q.1).currentInstr.decode q.1 q.2.instrUniqueId, q.2.accept q.1)

/-- The first instructions of a file, as many as asked for. -/
def readInstrs : Nat → TraceFile → Option (List OooInstr × TraceFile)
  | 0, f => some ([], f)
  | n + 1, f => do
      let (i, f) ← f.readInstr
      let (is, f) ← readInstrs n f
      pure (i :: is, f)

/-! ## What is read -/

variable {records : List InputInstr} {k : Nat} {f : TraceFile}

/-- The file after `k` instructions. -/
structure At (records : List InputInstr) (k : Nat) (f : TraceFile) : Prop where
  trace : f.trace = records
  instrUniqueId : f.instrUniqueId = k
  next : 0 < k → records[(k - 1) % records.length]? = some f.nextInstr
  pending : f.pending = records.drop (k % records.length) ∨
    k % records.length = 0 ∧ f.pending = []

theorem openTrace_at (records : List InputInstr) : At records 0 (openTrace records) :=
  ⟨rfl, rfl, fun h => absurd h (Nat.lt_irrefl 0), .inl (by rw [Nat.zero_mod]; rfl)⟩

theorem At.fread (h : At records k f) (hne : records ≠ []) :
    ∃ r, records[k % records.length]? = some r ∧
      f.fread = some (r, { f with pending := records.drop (k % records.length + 1) }) := by
  have hlt : k % records.length < records.length := Nat.mod_lt _ (List.length_pos_iff.mpr hne)
  have hdrop := List.drop_eq_getElem_cons hlt
  refine ⟨records[k % records.length], List.getElem?_eq_getElem hlt, ?_⟩
  rw [TraceFile.fread]
  rcases h.pending with hp | ⟨h0, hp⟩
  · rw [hp, hdrop]
  · -- the end of the file
    have htrace : f.trace = records[k % records.length] :: records.drop (k % records.length + 1) := by
      rw [h.trace, ← hdrop, h0, List.drop_zero]
    rw [hp, htrace]

/-- Behind the last record, the file is at its end instead of its start. -/
theorem drop_succ_mod (hne : records ≠ []) (k : Nat) :
    records.drop (k % records.length + 1) = records.drop ((k + 1) % records.length) ∨
      (k + 1) % records.length = 0 ∧ records.drop (k % records.length + 1) = [] := by
  have hlt : k % records.length < records.length := Nat.mod_lt _ (List.length_pos_iff.mpr hne)
  by_cases hend : k % records.length + 1 = records.length
  · right
    rw [← Nat.mod_add_mod, hend, Nat.mod_self, List.drop_length]
    exact ⟨rfl, rfl⟩
  · left
    rw [← Nat.mod_add_mod k, Nat.mod_eq_of_lt (by omega : k % records.length + 1 < _)]

/-- The next instruction is made of the record before, which for the first is
the first itself. -/
theorem At.readInstr (h : At records k f) (hne : records ≠ []) :
    ∃ r r' f', records[(k - 1) % records.length]? = some r ∧
      records[k % records.length]? = some r' ∧
      f.readInstr = some (r.decode r' k, f') ∧ At records (k + 1) f' := by
  obtain ⟨r', hr', hread⟩ := h.fread hne
  obtain rfl := h.instrUniqueId
  have hcurrent : records[(f.instrUniqueId - 1) % records.length]? =
      some (if f.instrUniqueId = 0 then r' else f.nextInstr) := by
    split
    · rename_i hk
      rw [← hr', hk]
    · rename_i hk
      exact h.next (Nat.pos_of_ne_zero hk)
  let f' : TraceFile := { f with pending := records.drop (f.instrUniqueId % records.length + 1) }
  refine ⟨_, r', f'.accept r', hcurrent, hr', ?_, ?_⟩
  · rw [TraceFile.readInstr, hread, Option.map_some]
    rfl
  · exact ⟨h.trace, rfl, fun _ => by rwa [Nat.add_sub_cancel], drop_succ_mod hne _⟩

theorem At.readInstrs (h : At records k f) (hne : records ≠ []) (n : Nat) :
    ∃ is f', f.readInstrs n = some (is, f') ∧ is.length = n ∧ At records (k + n) f' ∧
      ∀ j < n, ∃ r r', records[(k + j - 1) % records.length]? = some r ∧
        records[(k + j) % records.length]? = some r' ∧ is[j]? = some (r.decode r' (k + j)) := by
  induction n generalizing k f with
  | zero => exact ⟨[], f, rfl, rfl, h, fun j hj => absurd hj (Nat.not_lt_zero j)⟩
  | succ n ih =>
      obtain ⟨r, r', f₁, hr, hr', hread, h₁⟩ := h.readInstr hne
      obtain ⟨is, f', his, hlen, h', hall⟩ := ih h₁
      refine ⟨r.decode r' k :: is, f', ?_, congrArg (· + 1) hlen, ?_, fun j hj => ?_⟩
      · rw [TraceFile.readInstrs, hread]
        change (f₁.readInstrs n).bind _ = _
        rw [his]
        rfl
      · rwa [Nat.add_right_comm, Nat.add_assoc] at h'
      · cases j with
        | zero => exact ⟨r, r', hr, hr', rfl⟩
        | succ j =>
            obtain ⟨q, q', hq, hq', hj'⟩ := hall j (Nat.lt_of_succ_lt_succ hj)
            rw [Nat.add_right_comm, Nat.add_assoc] at hq hq' hj'
            exact ⟨q, q', hq, hq', hj'⟩

end TraceFile

end DramCache
