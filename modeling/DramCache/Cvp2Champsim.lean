import DramCache.CvpTrace
import DramCache.Instruction
import Mathlib.Data.List.Count

/-!
# From CVP-1 to ChampSim

`main` of `cvp_tracer/cvp2champsim.cc`: every record of a CVP-1 trace becomes a
record of a ChampSim trace. A branch is written as the registers its kind is
recognised by; data on a page that also holds code is moved to a page of its
own (`transform`).

The trace is a named file, opened once to find the pages of code and once
more to convert it. From standard input the first pass would consume it, and
close it.

`ct` is not initialised: what a non-branch has for `branch_taken` is open
(`garbage`). The register file kept "for fun" and everything printed are left
out.
-/

namespace DramCache

/-- The members of `OpType` that are ever assigned. -/
inductive OpType where
  | op
  | retUncond
  | jmpDirectUncond
  | jmpIndirectUncond
  | callDirectUncond
  | callIndirectUncond
  | jmpDirectCond
deriving Repr, DecidableEq

def regAx : UInt8 := 56

namespace CvpTrace

/-! ## Branches -/

/-- The type of the record; `none` is a failing `assert (t.target)`. -/
def opType (t : CvpTrace) : Option OpType :=
  if !t.type.isBranch then some .op
  else if t.type = .condBranchInstClass then some .jmpDirectCond
  else if t.target = 0 then none
  else
    let indirect := t.type = .uncondIndirectBranchInstClass
    let c : OpType :=
      if t.outputRegNames = [30] then if indirect then .callIndirectUncond else .callDirectUncond
      else if indirect then .jmpIndirectUncond else .jmpDirectUncond
    some (if t.inputRegNames = [30] then .retUncond else c)

/-- "OK now make a branch instruction out of this bad boy"; nothing is made of
the default case. -/
def branchInstr (t : CvpTrace) : OpType → InputInstr
  | .jmpDirectUncond =>
      { ip := t.pc, isBranch := 1, branchTaken := t.taken
        destinationRegisters := [regInstructionPointer, 0] }
  | .jmpDirectCond =>
      { ip := t.pc, isBranch := 1, branchTaken := t.taken
        destinationRegisters := [regInstructionPointer, 0]
        sourceRegisters := [regInstructionPointer, regFlags, 0, 0] }
  | .callIndirectUncond =>
      { ip := t.pc, isBranch := 1, branchTaken := 1
        destinationRegisters := [regInstructionPointer, regStackPointer]
        sourceRegisters := [regInstructionPointer, regStackPointer, regAx, 0] }
  | .callDirectUncond =>
      { ip := t.pc, isBranch := 1, branchTaken := 1
        destinationRegisters := [regInstructionPointer, regStackPointer]
        sourceRegisters := [regInstructionPointer, regStackPointer, 0, 0] }
  | .jmpIndirectUncond =>
      { ip := t.pc, isBranch := 1, branchTaken := 1
        destinationRegisters := [regInstructionPointer, 0]
        sourceRegisters := [regAx, 0, 0, 0] }
  | .retUncond =>
      { ip := t.pc, isBranch := 1, branchTaken := 1
        destinationRegisters := [regInstructionPointer, regStackPointer]
        sourceRegisters := [regStackPointer, 0, 0, 0] }
  | .op => { ip := t.pc }

/-! ## Other instructions -/

/-- The names that would make a branch of an instruction, and 0, which means
that there is none, are moved out of the way. -/
def rename (x : UInt8) : UInt8 :=
  let x := if x = regInstructionPointer then 64 else x
  let x := if x = regStackPointer then 65 else x
  let x := if x = regFlags then 66 else x
  if x = 0 then 67 else x

/-- Only the first output register is written, and the first four inputs. -/
def plainInstr (t : CvpTrace) (garbage : UInt8) : InputInstr :=
  { ip := t.pc
    branchTaken := garbage
    destinationRegisters := [rename (t.outputRegNames.headD 0), 0]
    sourceRegisters :=
      (t.inputRegNames.take numInstrSources).map rename ++
        List.replicate (numInstrSources - t.inputRegNames.length) 0 }

def plainLoad (t : CvpTrace) (garbage : UInt8) (a : UInt64) : InputInstr :=
  { t.plainInstr garbage with sourceMemory := [a, 0, 0, 0] }

def plainStore (t : CvpTrace) (garbage : UInt8) (a : UInt64) : InputInstr :=
  { t.plainInstr garbage with destinationMemory := [a, 0] }

end CvpTrace

/-! ## Pages -/

/-- `remapped_pages`, where 0 is a page that is not mapped, and `bump_page`. -/
structure Remap where
  remapped : Nat → Nat := fun _ => 0
  bumpPage : Nat := 0x1000

/-- "allocate a new page". -/
def Remap.allocate (s : Remap) (page newPage : Nat) : Remap where
  remapped := Function.update s.remapped page newPage
  bumpPage := newPage + 1

theorem Remap.allocate_self (s : Remap) (page newPage : Nat) :
    (s.allocate page newPage).remapped page = newPage := Function.update_self ..

theorem Remap.allocate_of_ne (s : Remap) {page p : Nat} (newPage : Nat) (h : p ≠ page) :
    (s.allocate page newPage).remapped p = s.remapped p := Function.update_of_ne h ..

/-- The page of an address. -/
def pageOf (a : UInt64) : Nat := (a >>> 12).toNat

/-- An address of this page, which is what 52 bits leave of the number. -/
def onPage (page : Nat) (a : UInt64) : UInt64 := UInt64.ofNat page <<< 12 ||| a &&& 0xfff

/-- The search for a page that is neither code nor data. -/
def freePage (used : List Nat) : Nat → Nat → Option Nat
  | 0, _ => none
  | fuel + 1, page => if page ∈ used then freePage used fuel (page + 1) else some page

/-- The pages `preprocess_file` finds. -/
structure PageUse where
  code : List Nat
  data : List Nat

def PageUse.all (u : PageUse) : List Nat := u.code ++ u.data

def preprocess (ts : List CvpTrace) : PageUse where
  code := ts.map fun t => pageOf t.pc
  data := (ts.filter fun t => t.type.isMemory).map fun t => pageOf t.ea

/-- "take an address representing data and make sure it doesn't overlap with
code". -/
def transform (u : PageUse) (s : Remap) (a : UInt64) : Option (Remap × UInt64) :=
  let page := pageOf a
  if page ∈ u.code then
    if s.remapped page = 0 then do
      let newPage ← freePage u.all (u.all.length + 1) s.bumpPage
      pure (s.allocate page newPage, onPage newPage a)
    else pure (s, onPage (s.remapped page) a)
  else pure (s, onPage page a)

/-! ## The conversion -/

namespace CvpTrace

/-- One record; `none` is a failing assertion. -/
def convert (u : PageUse) (garbage : UInt8) (s : Remap) (t : CvpTrace) :
    Option (Remap × InputInstr) :=
  t.opType.bind fun c =>
    if t.type.isBranch then some (s, t.branchInstr c)
    else if t.type = .loadInstClass then
      (transform u s t.ea).map fun q => (q.1, t.plainLoad garbage q.2)
    else if t.type = .storeInstClass then
      (transform u s t.ea).map fun q => (q.1, t.plainStore garbage q.2)
    else if t.type = .undefInstClass then none
    else some (s, t.plainInstr garbage)

/-- The records from the `n`-th on. -/
def convertFrom (u : PageUse) (garbage : Nat → UInt8) :
    Nat → Remap → List CvpTrace → Option (List InputInstr)
  | _, _, [] => some []
  | n, s, t :: ts =>
      (convert u (garbage n) s t).bind fun q =>
        (convertFrom u garbage (n + 1) q.1 ts).map (q.2 :: ·)

end CvpTrace

/-- The trace that is written for a trace. -/
def cvp2champsim (garbage : Nat → UInt8) (ts : List CvpTrace) : Option (List InputInstr) :=
  CvpTrace.convertFrom (preprocess ts) garbage 0 {} ts

namespace CvpTrace

/-- A call, a load from the page of its own code, and the return. -/
def callTrace : List CvpTrace :=
  [{ pc := 0x400000, target := 0x400100, taken := 1, type := .uncondDirectBranchInstClass
     outputRegNames := [30], outputRegValues := [(0x400004, 0)] },
   { pc := 0x400100, ea := 0x400018, accessSize := 8, type := .loadInstClass
     inputRegNames := [6], outputRegNames := [0], outputRegValues := [(7, 0)] },
   { pc := 0x400104, target := 0x400004, taken := 1, type := .uncondIndirectBranchInstClass
     inputRegNames := [30] }]

/-- The same for ChampSim. -/
def callInstrs : List InputInstr :=
  [{ ip := 0x400000, isBranch := 1, branchTaken := 1, destinationRegisters := [26, 6]
     sourceRegisters := [26, 6, 0, 0] },
   { ip := 0x400100, destinationRegisters := [67, 0], sourceRegisters := [65, 0, 0, 0]
     sourceMemory := [0x1000018, 0, 0, 0] },
   { ip := 0x400104, isBranch := 1, branchTaken := 1, destinationRegisters := [26, 6]
     sourceRegisters := [6, 0, 0, 0] }]

theorem cvp2champsim_call : cvp2champsim (fun _ => 0) callTrace = some callInstrs := by
  decide +kernel

end CvpTrace

/-! ## Branches come out as what they were -/

/-- What the core is to make of a type. -/
def OpType.kind : OpType → BranchType
  | .op => .notBranch
  | .retUncond => .branchReturn
  | .jmpDirectUncond => .branchDirectJump
  | .jmpIndirectUncond => .branchIndirect
  | .callDirectUncond => .branchDirectCall
  | .callIndirectUncond => .branchIndirectCall
  | .jmpDirectCond => .branchConditional

namespace CvpTrace

theorem branchInstr_kind (t : CvpTrace) (c : OpType) : (t.branchInstr c).branchType = c.kind := by
  cases c <;> rfl

theorem branchInstr_ip (t : CvpTrace) (c : OpType) : (t.branchInstr c).ip = t.pc := by
  cases c <;> rfl

/-- A name that is written says nothing of a branch. -/
theorem rename_plain (x : UInt8) : rename x ≠ regInstructionPointer ∧
    rename x ≠ regStackPointer ∧ rename x ≠ regFlags ∧ rename x ≠ 0 := by
  unfold rename
  dsimp only
  by_cases hip : x = regInstructionPointer
  · subst hip
    decide
  · rw [if_neg hip]
    by_cases hsp : x = regStackPointer
    · subst hsp
      decide
    · rw [if_neg hsp]
      by_cases hfl : x = regFlags
      · subst hfl
        decide
      · rw [if_neg hfl]
        by_cases h0 : x = 0
        · subst h0
          decide
        · rw [if_neg h0]
          exact ⟨hip, hsp, hfl, h0⟩

section Convert

variable {u : PageUse} {garbage : UInt8} {s s' : Remap} {t : CvpTrace} {ct : InputInstr}

/-- What becomes of a record. -/
inductive Converts (u : PageUse) (garbage : UInt8) (s : Remap) (t : CvpTrace) :
    Remap → InputInstr → Prop
  | branch (h : t.type.isBranch) {c : OpType} (hc : t.opType = some c) :
      Converts u garbage s t s (t.branchInstr c)
  | load (h : t.type = .loadInstClass) {s' : Remap} {a : UInt64}
      (ha : transform u s t.ea = some (s', a)) :
      Converts u garbage s t s' (t.plainLoad garbage a)
  | store (h : t.type = .storeInstClass) {s' : Remap} {a : UInt64}
      (ha : transform u s t.ea = some (s', a)) :
      Converts u garbage s t s' (t.plainStore garbage a)
  | other (hb : t.type.isBranch = false) (hm : t.type.isMemory = false)
      (hu : t.type ≠ .undefInstClass) : Converts u garbage s t s (t.plainInstr garbage)

theorem opType_plain (h : t.type.isBranch = false) : t.opType = some .op := by
  rw [opType, h]
  rfl

theorem convert_eq_some : convert u garbage s t = some (s', ct) ↔ Converts u garbage s t s' ct := by
  have hmem : ∀ f : UInt64 → InputInstr,
      (transform u s t.ea).map (fun q => (q.1, f q.2)) = some (s', ct) ↔
        ∃ a, transform u s t.ea = some (s', a) ∧ f a = ct := by
    intro f
    rw [Option.map_eq_some_iff]
    constructor
    · rintro ⟨⟨s₁, a⟩, ha, h⟩
      obtain ⟨rfl, rfl⟩ := Prod.mk.inj h
      exact ⟨a, ha, rfl⟩
    · rintro ⟨a, ha, rfl⟩
      exact ⟨(s', a), ha, rfl⟩
  rw [convert, Option.bind_eq_some_iff]
  constructor
  · rintro ⟨c, hc, h⟩
    by_cases hb : t.type.isBranch
    · rw [if_pos hb] at h
      obtain ⟨rfl, rfl⟩ := Prod.mk.inj (Option.some.inj h)
      exact .branch hb hc
    · rw [if_neg hb] at h
      by_cases hl : t.type = .loadInstClass
      · rw [if_pos hl] at h
        obtain ⟨a, ha, rfl⟩ := (hmem (t.plainLoad garbage)).mp h
        exact .load hl ha
      · rw [if_neg hl] at h
        by_cases hs : t.type = .storeInstClass
        · rw [if_pos hs] at h
          obtain ⟨a, ha, rfl⟩ := (hmem (t.plainStore garbage)).mp h
          exact .store hs ha
        · rw [if_neg hs] at h
          by_cases hu : t.type = .undefInstClass
          · rw [if_pos hu] at h
            cases h
          · rw [if_neg hu] at h
            obtain ⟨rfl, rfl⟩ := Prod.mk.inj (Option.some.inj h)
            refine .other (Bool.not_eq_true _ ▸ hb) ?_ hu
            rw [InstClass.isMemory, decide_eq_false hl, decide_eq_false hs, Bool.or_false]
  · intro h
    cases h with
    | branch hb hc => exact ⟨_, hc, if_pos hb⟩
    | load ht ha =>
        have hb : t.type.isBranch = false := by
          rw [ht]
          rfl
        refine ⟨_, opType_plain hb, ?_⟩
        rw [if_neg (ne_true_of_eq_false hb), if_pos ht]
        exact (hmem (t.plainLoad garbage)).mpr ⟨_, ha, rfl⟩
    | store ht ha =>
        have hb : t.type.isBranch = false := by
          rw [ht]
          rfl
        refine ⟨_, opType_plain hb, ?_⟩
        rw [if_neg (ne_true_of_eq_false hb), if_neg (by rw [ht]; decide), if_pos ht]
        exact (hmem (t.plainStore garbage)).mpr ⟨_, ha, rfl⟩
    | other hb hm hu =>
        rw [InstClass.isMemory, Bool.or_eq_false_iff, decide_eq_false_iff_not,
          decide_eq_false_iff_not] at hm
        refine ⟨_, opType_plain hb, ?_⟩
        rw [if_neg (ne_true_of_eq_false hb), if_neg hm.1, if_neg hm.2, if_neg hu]

end Convert

/-- What the core makes of a record with `t'` behind it in the trace. -/
structure ReadAs (t t' : CvpTrace) (i : OooInstr) : Prop where
  ip : i.ip = t.pc
  kind : ∃ c, t.opType = some c ∧ i.branchType = c.kind
  isBranch : i.isBranch = if t.type.isBranch then 1 else 0
  branchTaken : t.type.isBranch → i.branchTaken = if t.type = .condBranchInstClass then t.taken else 1
  branchTarget : i.branchTarget = if i.isBranch = 1 ∧ i.branchTaken = 1 then t'.pc else 0
  isMemory : i.isMemory → t.type.isMemory
  plain : t.type.isBranch = false → ∀ r ∈ i.destinationRegisters ++ i.sourceRegisters,
    r ≠ regInstructionPointer ∧ r ≠ regStackPointer ∧ r ≠ regFlags

theorem opType_branch {t : CvpTrace} {c : OpType} (hb : t.type.isBranch) (hc : t.opType = some c) :
    c ≠ .op ∧ (c = .jmpDirectCond ↔ t.type = .condBranchInstClass) := by
  rw [opType, hb, Bool.not_true, if_neg Bool.false_ne_true] at hc
  by_cases hcond : t.type = .condBranchInstClass
  · rw [if_pos hcond] at hc
    obtain rfl := Option.some.inj hc
    exact ⟨by decide, fun _ => hcond, fun _ => rfl⟩
  · rw [if_neg hcond] at hc
    split at hc
    · cases hc
    · obtain rfl := Option.some.inj hc
      refine ⟨?_, fun h => absurd h ?_, fun h => absurd h hcond⟩
      · split
        · decide
        · split <;> split <;> decide
      · split
        · decide
        · split <;> split <;> decide

section ReadAs

variable {u : PageUse} {garbage : UInt8} {s s' : Remap} {t t' : CvpTrace} {ct next : InputInstr}

theorem decode_branchTarget (hnext : next.ip = t'.pc) (k : Nat) :
    (ct.decode next k).branchTarget =
      if (ct.decode next k).isBranch = 1 ∧ (ct.decode next k).branchTaken = 1 then t'.pc else 0 := by
  rw [← hnext]
  rfl

/-- A memory instruction is one with an address that is not 0. -/
theorem decode_isMemory {k : Nat} (h : (ct.decode next k).isMemory) :
    ∃ a ∈ ct.destinationMemory ++ ct.sourceMemory, a ≠ 0 := by
  have hpos := of_decide_eq_true h
  rcases Nat.eq_zero_or_pos (ct.destinationMemory.countP (· ≠ 0)) with h0 | hd
  · rw [h0, Nat.zero_add, List.countP_pos_iff] at hpos
    obtain ⟨a, ha, hne⟩ := hpos
    exact ⟨a, List.mem_append_right _ ha, of_decide_eq_true hne⟩
  · obtain ⟨a, ha, hne⟩ := List.countP_pos_iff.mp hd
    exact ⟨a, List.mem_append_left _ ha, of_decide_eq_true hne⟩

/-- An instruction that is no branch. -/
theorem plain_readAs (hb : t.type.isBranch = false) (hip : ct.ip = t.pc) (hbr : ct.isBranch = 0)
    (hdest : ct.destinationRegisters = (t.plainInstr garbage).destinationRegisters)
    (hsrc : ct.sourceRegisters = (t.plainInstr garbage).sourceRegisters)
    (hmem : (∃ a ∈ ct.destinationMemory ++ ct.sourceMemory, a ≠ 0) → t.type.isMemory)
    (hnext : next.ip = t'.pc) (k : Nat) : ReadAs t t' (ct.decode next k) := by
  have hregs : ∀ r ∈ ct.destinationRegisters ++ ct.sourceRegisters,
      r ≠ regInstructionPointer ∧ r ≠ regStackPointer ∧ r ≠ regFlags := by
    intro r hr
    rw [hdest, hsrc, plainInstr] at hr
    simp only [List.cons_append, List.nil_append, List.mem_cons, List.mem_append, List.mem_map,
      List.mem_replicate] at hr
    rcases hr with rfl | rfl | ⟨x, -, rfl⟩ | ⟨-, rfl⟩
    · exact ⟨(rename_plain _).1, (rename_plain _).2.1, (rename_plain _).2.2.1⟩
    · decide
    · exact ⟨(rename_plain _).1, (rename_plain _).2.1, (rename_plain _).2.2.1⟩
    · decide
  have hkind : ct.branchType = .notBranch := by
    refine InputInstr.branchType_of_not_writesIp (List.any_eq_false.mpr fun r hr => ?_)
    exact decide_eq_false (hregs r (List.mem_append_left _ hr)).1 ▸ Bool.false_ne_true
  refine ⟨hip, ⟨.op, opType_plain hb, hkind⟩, ?_, fun h => ?_, decode_branchTarget hnext k,
    fun h => hmem (decode_isMemory h), fun _ => hregs⟩
  · change (if ct.branchType = .notBranch then ct.isBranch else 1) = _
    rw [if_pos hkind, hbr, hb]
    rfl
  · exact absurd h (ne_true_of_eq_false hb)

theorem Converts.readAs (h : Converts u garbage s t s' ct) (hnext : next.ip = t'.pc) (k : Nat) :
    ReadAs t t' (ct.decode next k) := by
  cases h with
  | branch hb hc =>
      rename_i c
      obtain ⟨hop, hcond⟩ := opType_branch hb hc
      refine ⟨branchInstr_ip t c, ⟨c, hc, branchInstr_kind t c⟩, ?_, fun _ => ?_,
        decode_branchTarget hnext k, fun h => ?_, fun h => ?_⟩
      · rw [hb]
        cases c <;> first | rfl | exact absurd rfl hop
      · cases c <;> first
          | exact absurd rfl hop
          | exact (if_pos (hcond.mp rfl)).symm
          | exact (if_neg (mt hcond.mpr (by decide))).symm
      · obtain ⟨a, ha, hne⟩ := decode_isMemory h
        refine absurd ?_ hne
        cases c <;> simpa [branchInstr, numInstrDestinations, numInstrSources] using ha
      · exact absurd hb (ne_true_of_eq_false h)
  | load ht ha =>
      rename_i a
      have hb : t.type.isBranch = false := by
        rw [ht]
        rfl
      refine @plain_readAs garbage t t' (t.plainLoad garbage a) next hb rfl rfl rfl rfl (fun _ => ?_)
        hnext k
      rw [ht]
      rfl
  | store ht ha =>
      rename_i a
      have hb : t.type.isBranch = false := by
        rw [ht]
        rfl
      refine @plain_readAs garbage t t' (t.plainStore garbage a) next hb rfl rfl rfl rfl (fun _ => ?_)
        hnext k
      rw [ht]
      rfl
  | other hb hm hu =>
      refine plain_readAs hb rfl rfl rfl rfl (fun ⟨a, ha, hne⟩ => absurd ?_ hne) hnext k
      simpa [plainInstr, numInstrDestinations, numInstrSources] using ha

end ReadAs

/-! ## Whole traces -/

section Trace

variable {u : PageUse} {garbage : Nat → UInt8} {n : Nat} {s : Remap} {ts : List CvpTrace}
  {cts : List InputInstr}

/-- Record by record. -/
theorem convertFrom_getElem (h : convertFrom u garbage n s ts = some cts) :
    cts.length = ts.length ∧ ∀ i t, ts[i]? = some t →
      ∃ s₁ s₂ ct, cts[i]? = some ct ∧ Converts u (garbage (n + i)) s₁ t s₂ ct := by
  induction ts generalizing n s cts with
  | nil =>
      obtain rfl := Option.some.inj h
      exact ⟨rfl, fun i t ht => by cases ht⟩
  | cons t ts ih =>
      obtain ⟨q, hq, h⟩ := Option.bind_eq_some_iff.mp h
      obtain ⟨cts', hcts', rfl⟩ := Option.map_eq_some_iff.mp h
      obtain ⟨hlen, hall⟩ := ih hcts'
      refine ⟨congrArg (· + 1) hlen, fun i t' ht' => ?_⟩
      cases i with
      | zero =>
          obtain rfl := Option.some.inj ht'
          exact ⟨s, q.1, q.2, rfl, convert_eq_some.mp hq⟩
      | succ i =>
          obtain ⟨s₁, s₂, ct, hct, hconv⟩ := hall i t' ht'
          rw [Nat.add_right_comm, Nat.add_assoc] at hconv
          exact ⟨s₁, s₂, ct, hct, hconv⟩

/-- **The converted trace runs the program of the original**: whatever is read
of it, and however often the file is read through, an instruction is the
record before it in the original trace, with the kind the record has there,
and a taken branch leads to the record behind. Only the first record comes
twice. -/
theorem cvp2champsim_instructions (h : cvp2champsim garbage ts = some cts) (hne : ts ≠ [])
    (count : Nat) :
    ∃ is f, (TraceFile.openTrace cts).readInstrs count = some (is, f) ∧ is.length = count ∧
      ∀ k < count, ∃ t t' i, ts[(k - 1) % ts.length]? = some t ∧
        ts[k % ts.length]? = some t' ∧ is[k]? = some i ∧ i.instrId = k ∧ ReadAs t t' i := by
  obtain ⟨hlen, hall⟩ := convertFrom_getElem h
  have hcts : cts ≠ [] := by
    rw [← List.length_pos_iff] at hne ⊢
    omega
  obtain ⟨is, f, hread, hislen, -, his⟩ := (TraceFile.openTrace_at cts).readInstrs hcts count
  refine ⟨is, f, hread, hislen, fun k hk => ?_⟩
  obtain ⟨r, r', hr, hr', hi⟩ := his k hk
  rw [Nat.zero_add] at hi
  rw [Nat.zero_add, hlen] at hr hr'
  obtain ⟨t, ht⟩ : ∃ t, ts[(k - 1) % ts.length]? = some t :=
    ⟨_, List.getElem?_eq_getElem (Nat.mod_lt _ (List.length_pos_iff.mpr hne))⟩
  obtain ⟨t', ht'⟩ : ∃ t', ts[k % ts.length]? = some t' :=
    ⟨_, List.getElem?_eq_getElem (Nat.mod_lt _ (List.length_pos_iff.mpr hne))⟩
  obtain ⟨_, _, ct, hct, hconv⟩ := hall _ t ht
  obtain ⟨_, _, ct', hct', hconv'⟩ := hall _ t' ht'
  rw [hr] at hct
  rw [hr'] at hct'
  obtain rfl := Option.some.inj hct
  obtain rfl := Option.some.inj hct'
  have hself : r'.ip = ({ t' with pc := r'.ip } : CvpTrace).pc := rfl
  have hip : r'.ip = t'.pc := (hconv'.readAs hself 0).ip
  exact ⟨t, t', _, ht, ht', hi, rfl, hconv.readAs hip k⟩

/-- Six instructions of it: the second time around starts with the call. -/
theorem cvp2champsim_instructions_call :
    callTrace ≠ [] ∧ ∃ is f, (TraceFile.openTrace callInstrs).readInstrs 6 = some (is, f) ∧
      is.length = 6 ∧ ∀ k < 6, ∃ t t' i, callTrace[(k - 1) % callTrace.length]? = some t ∧
        callTrace[k % callTrace.length]? = some t' ∧ is[k]? = some i ∧ i.instrId = k ∧
        ReadAs t t' i :=
  ⟨by decide, cvp2champsim_instructions cvp2champsim_call (by decide) 6⟩

end Trace

end CvpTrace

/-! ## Data keeps clear of code -/

theorem pageOf_eq (a : UInt64) : pageOf a = a.toNat / 4096 := by
  rw [pageOf, UInt64.toNat_shiftRight]
  exact Nat.shiftRight_eq_div_pow a.toNat 12

theorem pageOf_lt (a : UInt64) : pageOf a < 2 ^ 52 := by
  have ha := a.toNat_lt
  rw [pageOf_eq]
  omega

theorem toNat_onPage {page : Nat} (h : page < 2 ^ 52) (a : UInt64) :
    (onPage page a).toNat = page * 4096 + a.toNat % 4096 := by
  have hshift : (UInt64.ofNat page <<< 12).toNat = page <<< 12 := by
    rw [UInt64.toNat_shiftLeft, UInt64.toNat_ofNat', Nat.mod_eq_of_lt (by omega : page < 2 ^ 64)]
    exact Nat.mod_eq_of_lt (by
      change page <<< 12 < 2 ^ 64
      rw [Nat.shiftLeft_eq]
      omega)
  have hlow : (a &&& 0xfff).toNat = a.toNat % 2 ^ 12 := by
    rw [UInt64.toNat_and]
    exact Nat.and_two_pow_sub_one_eq_mod a.toNat 12
  rw [onPage, UInt64.toNat_or, hshift, hlow,
    ← Nat.shiftLeft_add_eq_or_of_lt (Nat.mod_lt _ (Nat.two_pow_pos 12)), Nat.shiftLeft_eq]

theorem pageOf_onPage {page : Nat} (h : page < 2 ^ 52) (a : UInt64) :
    pageOf (onPage page a) = page := by
  rw [pageOf_eq, toNat_onPage h]
  omega

theorem onPage_pageOf (a : UInt64) : onPage (pageOf a) a = a := by
  apply UInt64.toNat.inj
  rw [toNat_onPage (pageOf_lt a), pageOf_eq]
  omega

/-- Passing over a used page leaves one more behind. -/
theorem countP_lt_succ {used : List Nat} {page : Nat} (h : page ∈ used) :
    used.countP (· < page) + 1 ≤ used.countP (· < page + 1) := by
  induction used with
  | nil => cases h
  | cons q used ih =>
      have hmono : used.countP (· < page) ≤ used.countP (· < page + 1) :=
        List.countP_mono_left fun x _ hx =>
          decide_eq_true ((of_decide_eq_true hx).trans (Nat.lt_succ_self page))
      rw [List.countP_cons, List.countP_cons]
      rcases List.mem_cons.mp h with rfl | h
      · rw [if_neg (by simp), if_pos (by simp)]
        omega
      · have := ih h
        by_cases hq : q < page
        · rw [if_pos (decide_eq_true hq), if_pos (decide_eq_true (hq.trans (Nat.lt_succ_self _)))]
          omega
        · rw [if_neg (by simpa using hq)]
          split <;> omega

theorem freePage_isSome {used : List Nat} {fuel page : Nat}
    (h : used.length < fuel + used.countP (· < page)) : (freePage used fuel page).isSome := by
  induction fuel generalizing page with
  | zero =>
      have := used.countP_le_length (p := (· < page))
      omega
  | succ fuel ih =>
      rw [freePage]
      split
      · rename_i hmem
        have := countP_lt_succ hmem
        exact ih (by omega)
      · rfl

/-- What is found is free, and the pages passed over are used. -/
theorem freePage_eq_some {used : List Nat} {fuel page q : Nat}
    (h : freePage used fuel page = some q) :
    page ≤ q ∧ q ∉ used ∧ q + used.countP (· < page) ≤ page + used.countP (· < q) := by
  induction fuel generalizing page with
  | zero => cases h
  | succ fuel ih =>
      rw [freePage] at h
      split at h
      · rename_i hmem
        obtain ⟨hle, hfree, hcount⟩ := ih h
        have := countP_lt_succ hmem
        exact ⟨by omega, hfree, by omega⟩
      · rename_i hmem
        obtain rfl := Option.some.inj h
        exact ⟨le_rfl, hmem, le_rfl⟩

/-- Pages are moved to free ones, no two to the same, and the next free page
is not far: behind it are used pages and `allocs` that were given away. -/
structure Remap.Ok (u : PageUse) (allocs : Nat) (s : Remap) : Prop where
  free : ∀ p, s.remapped p ≠ 0 → s.remapped p ∉ u.all
  lt : ∀ p, s.remapped p ≠ 0 → s.remapped p < s.bumpPage
  inj : ∀ p q, s.remapped p ≠ 0 → s.remapped p = s.remapped q → p = q
  bound : s.bumpPage ≤ 0x1000 + u.all.countP (· < s.bumpPage) + allocs
  pos : 0 < s.bumpPage

/-- Where data of a page is. -/
def Remap.place (u : PageUse) (s : Remap) (p : Nat) : Nat := if p ∈ u.code then s.remapped p else p

/-- Pages stay where they have been moved. -/
def Remap.Extends (s s' : Remap) : Prop := ∀ p, s.remapped p ≠ 0 → s'.remapped p = s.remapped p

section Transform

variable {u : PageUse} {s s' : Remap} {allocs : Nat} {a a' : UInt64}

theorem Remap.ok_init (u : PageUse) : Remap.Ok u 0 {} where
  free p h := absurd rfl h
  lt p h := absurd rfl h
  inj p q h := absurd rfl h
  bound := Nat.le_add_right ..
  pos := by decide

theorem Remap.Ok.mono (h : s.Ok u allocs) {n : Nat} (hn : allocs ≤ n) : s.Ok u n :=
  { h with bound := h.bound.trans (by omega) }

theorem transform_isSome (u : PageUse) (s : Remap) (a : UInt64) : (transform u s a).isSome := by
  have hfree : (freePage u.all (u.all.length + 1) s.bumpPage).isSome :=
    freePage_isSome (by omega)
  obtain ⟨q, hq⟩ := Option.isSome_iff_exists.mp hfree
  unfold transform
  dsimp only
  split
  · split
    · rw [hq]
      rfl
    · rfl
  · rfl

/-- A page that is new is moved to the next free one. -/
theorem Remap.Ok.move (h : s.Ok u allocs) {p q : Nat}
    (hq : freePage u.all (u.all.length + 1) s.bumpPage = some q) :
    (s.allocate p q).Ok u (allocs + 1) := by
  obtain ⟨hle, hfree, hcount⟩ := freePage_eq_some hq
  have hpos := h.pos
  have hbound := h.bound
  have hold : ∀ r, s.remapped r ≠ 0 → s.remapped r < q := fun r hr => (h.lt r hr).trans_le hle
  refine ⟨fun r hr => ?_, fun r hr => ?_, fun r r' hr heq => ?_, ?_, Nat.succ_pos q⟩
  · by_cases hrp : r = p
    · rw [hrp, Remap.allocate_self]
      exact hfree
    · rw [Remap.allocate_of_ne s q hrp] at hr ⊢
      exact h.free r hr
  · by_cases hrp : r = p
    · rw [hrp, Remap.allocate_self]
      exact Nat.lt_succ_self q
    · rw [Remap.allocate_of_ne s q hrp] at hr ⊢
      exact (hold r hr).trans (Nat.lt_succ_self q)
  · by_cases hrp : r = p
    · by_cases hrp' : r' = p
      · rw [hrp, hrp']
      · rw [hrp, Remap.allocate_self, Remap.allocate_of_ne s q hrp'] at heq
        have := hold r' (by omega)
        omega
    · by_cases hrp' : r' = p
      · rw [Remap.allocate_of_ne s q hrp] at hr
        rw [hrp', Remap.allocate_self, Remap.allocate_of_ne s q hrp] at heq
        have := hold r hr
        omega
      · rw [Remap.allocate_of_ne s q hrp] at hr
        rw [Remap.allocate_of_ne s q hrp, Remap.allocate_of_ne s q hrp'] at heq
        exact h.inj r r' hr heq
  · have hmono : u.all.countP (· < q) ≤ u.all.countP (· < q + 1) :=
      List.countP_mono_left fun x _ hx =>
        decide_eq_true ((of_decide_eq_true hx).trans (Nat.lt_succ_self q))
    change q + 1 ≤ 0x1000 + u.all.countP (· < q + 1) + (allocs + 1)
    omega

/-- One address. -/
theorem Remap.Ok.transform (h : s.Ok u allocs) (ht : transform u s a = some (s', a')) :
    s'.Ok u (allocs + 1) ∧ s.Extends s' ∧ a' = onPage (s'.place u (pageOf a)) a ∧
      (pageOf a ∈ u.code → s'.remapped (pageOf a) ≠ 0) := by
  unfold DramCache.transform at ht
  dsimp only at ht
  by_cases hcode : pageOf a ∈ u.code
  · rw [if_pos hcode] at ht
    by_cases h0 : s.remapped (pageOf a) = 0
    · rw [if_pos h0] at ht
      obtain ⟨q, hq, ht⟩ := Option.bind_eq_some_iff.mp ht
      obtain ⟨rfl, rfl⟩ := Prod.mk.inj (Option.some.inj ht)
      have hle := (freePage_eq_some hq).1
      have hpos := h.pos
      refine ⟨h.move hq, fun p hp => ?_, ?_, fun _ => ?_⟩
      · exact Remap.allocate_of_ne s q fun heq => hp (heq ▸ h0)
      · rw [Remap.place, if_pos hcode, Remap.allocate_self]
      · rw [Remap.allocate_self]
        omega
    · rw [if_neg h0] at ht
      obtain ⟨rfl, rfl⟩ := Prod.mk.inj (Option.some.inj ht)
      refine ⟨h.mono (Nat.le_succ _), fun _ _ => rfl, ?_, fun _ => h0⟩
      rw [Remap.place, if_pos hcode]
  · rw [if_neg hcode] at ht
    obtain ⟨rfl, rfl⟩ := Prod.mk.inj (Option.some.inj ht)
    refine ⟨h.mono (Nat.le_succ _), fun _ _ => rfl, ?_, fun hc => absurd hc hcode⟩
    rw [Remap.place, if_neg hcode]

end Transform

namespace CvpTrace

/-- The address a memory instruction is left with. -/
def operand (t : CvpTrace) (ct : InputInstr) : UInt64 :=
  if t.type = .loadInstClass then ct.sourceMemory.headD 0 else ct.destinationMemory.headD 0

section Data

variable {u : PageUse} {garbage : Nat → UInt8} {n allocs : Nat} {s s' : Remap} {t : CvpTrace}
  {ts : List CvpTrace} {ct : InputInstr} {cts : List InputInstr}

/-- Where the data of a record is, once all pages have been given away. -/
def Placed (u : PageUse) (s : Remap) (t : CvpTrace) (ct : InputInstr) : Prop :=
  t.type.isMemory → operand t ct = onPage (s.place u (pageOf t.ea)) t.ea ∧
    (pageOf t.ea ∈ u.code → s.remapped (pageOf t.ea) ≠ 0)

theorem Placed.extend (h : Placed u s t ct) (hs : s.Extends s') : Placed u s' t ct := by
  intro hm
  obtain ⟨hop, hne⟩ := h hm
  by_cases hcode : pageOf t.ea ∈ u.code
  · have heq := hs _ (hne hcode)
    rw [Remap.place, if_pos hcode] at hop
    refine ⟨?_, fun _ => ?_⟩
    · rw [Remap.place, if_pos hcode, heq, hop]
    · rw [heq]
      exact hne hcode
  · rw [Remap.place, if_neg hcode] at hop
    refine ⟨?_, fun hc => absurd hc hcode⟩
    rw [Remap.place, if_neg hcode, hop]

/-- One record. -/
theorem Converts.placed {g : UInt8} (h : Converts u g s t s' ct) (hs : s.Ok u allocs) :
    s'.Ok u (allocs + 1) ∧ s.Extends s' ∧ Placed u s' t ct := by
  have hstay : s.Ok u (allocs + 1) ∧ s.Extends s := ⟨hs.mono (Nat.le_succ _), fun _ _ => rfl⟩
  cases h with
  | branch hb hc =>
      refine ⟨hstay.1, hstay.2, fun hm => ?_⟩
      rw [InstClass.isBranch_of_isMemory hm] at hb
      cases hb
  | load ht ha =>
      obtain ⟨hok, hext, hplace, hne⟩ := hs.transform ha
      refine ⟨hok, hext, fun _ => ⟨?_, hne⟩⟩
      rw [operand, if_pos ht]
      exact hplace
  | store ht ha =>
      obtain ⟨hok, hext, hplace, hne⟩ := hs.transform ha
      refine ⟨hok, hext, fun _ => ⟨?_, hne⟩⟩
      rw [operand, if_neg (by rw [ht]; decide)]
      exact hplace
  | other hb hm hu => exact ⟨hstay.1, hstay.2, fun hm' => absurd hm' (ne_true_of_eq_false hm)⟩

/-- All of them, from one final state of the map. -/
theorem convertFrom_placed (h : convertFrom u garbage n s ts = some cts) (hs : s.Ok u allocs) :
    ∃ s', s'.Ok u (allocs + ts.length) ∧ s.Extends s' ∧
      ∀ (i : Nat) (t : CvpTrace) (ct : InputInstr), ts[i]? = some t → cts[i]? = some ct →
        Placed u s' t ct := by
  induction ts generalizing n s allocs cts with
  | nil => exact ⟨s, hs, fun _ _ => rfl, fun i t ct ht => by cases ht⟩
  | cons t ts ih =>
      obtain ⟨q, hq, h⟩ := Option.bind_eq_some_iff.mp h
      obtain ⟨cts', hcts', rfl⟩ := Option.map_eq_some_iff.mp h
      obtain ⟨hok, hext, hplaced⟩ := (convert_eq_some.mp hq).placed hs
      obtain ⟨s', hok', hext', hall⟩ := ih hcts' hok
      refine ⟨s', ?_, fun p hp => ?_, fun i t' ct' ht' hct' => ?_⟩
      · rwa [Nat.add_right_comm, Nat.add_assoc] at hok'
      · rw [← hext p hp]
        exact hext' p (by rwa [hext p hp])
      · cases i with
        | zero =>
            obtain rfl := Option.some.inj ht'
            obtain rfl := Option.some.inj hct'
            exact hplaced.extend hext'
        | succ i => exact hall i t' ct' ht' hct'

/-- Two places are the same only for one page. -/
theorem place_inj (hs : s.Ok u allocs) {p q : Nat} (hp : p ∈ u.data) (hq : q ∈ u.data)
    (hp' : p ∈ u.code → s.remapped p ≠ 0) (hq' : q ∈ u.code → s.remapped q ≠ 0)
    (h : s.place u p = s.place u q) : p = q := by
  have hdata : ∀ {r}, r ∈ u.data → r ∈ u.all := fun hr => List.mem_append_right _ hr
  rw [Remap.place, Remap.place] at h
  by_cases hcp : p ∈ u.code
  · rw [if_pos hcp] at h
    by_cases hcq : q ∈ u.code
    · rw [if_pos hcq] at h
      exact hs.inj p q (hp' hcp) h
    · -- a page that was moved to is not one of the data
      rw [if_neg hcq] at h
      exact absurd (h ▸ hdata hq) (hs.free p (hp' hcp))
  · rw [if_neg hcp] at h
    by_cases hcq : q ∈ u.code
    · rw [if_pos hcq] at h
      exact absurd (h ▸ hdata hp) (hs.free q (hq' hcq))
    · rwa [if_neg hcq] at h

theorem place_lt (hs : s.Ok u allocs) (hsmall : 0x1000 + u.all.length + allocs ≤ 2 ^ 52)
    (a : UInt64) (hne : pageOf a ∈ u.code → s.remapped (pageOf a) ≠ 0) :
    s.place u (pageOf a) < 2 ^ 52 := by
  rw [Remap.place]
  split
  · rename_i hcode
    have hlt := hs.lt _ (hne hcode)
    have hbound := hs.bound
    have hcount := u.all.countP_le_length (p := (· < s.bumpPage))
    omega
  · exact pageOf_lt a

theorem mem_preprocess_data (ht : t ∈ ts) (hm : t.type.isMemory) :
    pageOf t.ea ∈ (preprocess ts).data :=
  List.mem_map_of_mem (List.mem_filter.mpr ⟨ht, hm⟩)

theorem length_preprocess_all (ts : List CvpTrace) : (preprocess ts).all.length ≤ 2 * ts.length := by
  have h := List.length_filter_le (fun t : CvpTrace => t.type.isMemory) ts
  rw [PageUse.all, List.length_append, preprocess, List.length_map, List.length_map]
  omega

/-- **Data keeps clear of code and of other data**: in a converted trace no
address of a load or store is on a page instructions were fetched from, two are
on one page exactly when they were before, the place in the page is the same,
and an address that did not touch code is as it was. -/
theorem cvp2champsim_data (h : cvp2champsim garbage ts = some cts)
    (hsmall : 0x1000 + 3 * ts.length ≤ 2 ^ 52) {i : Nat} (ht : ts[i]? = some t)
    (hct : cts[i]? = some ct) (hm : t.type.isMemory) :
    (∀ v ∈ ts, pageOf (operand t ct) ≠ pageOf v.pc) ∧
      (operand t ct).toNat % 4096 = t.ea.toNat % 4096 ∧
      ((∀ v ∈ ts, pageOf t.ea ≠ pageOf v.pc) → operand t ct = t.ea) ∧
      ∀ (j : Nat) (t' : CvpTrace) (ct' : InputInstr), ts[j]? = some t' → cts[j]? = some ct' →
        t'.type.isMemory → (pageOf (operand t ct) = pageOf (operand t' ct') ↔ pageOf t.ea = pageOf t'.ea) := by
  obtain ⟨s', hok, -, hall⟩ := convertFrom_placed h (Remap.ok_init _)
  have hlen := length_preprocess_all ts
  have hsmall' : 0x1000 + (preprocess ts).all.length + (0 + ts.length) ≤ 2 ^ 52 := by omega
  have hcode : ∀ {p}, p ∈ (preprocess ts).code ↔ ∃ v ∈ ts, pageOf v.pc = p := List.mem_map
  have hpage : ∀ (j : Nat) (t' : CvpTrace) (ct' : InputInstr), ts[j]? = some t' → cts[j]? = some ct' → t'.type.isMemory →
      pageOf (operand t' ct') = s'.place (preprocess ts) (pageOf t'.ea) := by
    intro j t' ct' ht' hct' hm'
    obtain ⟨hop, hne⟩ := hall j t' ct' ht' hct' hm'
    rw [hop, pageOf_onPage (place_lt hok hsmall' _ hne)]
  obtain ⟨hop, hne⟩ := hall i t ct ht hct hm
  have hlt := place_lt hok hsmall' _ hne
  refine ⟨fun v hv heq => ?_, ?_, fun hclear => ?_, fun j t' ct' ht' hct' hm' => ?_⟩
  · rw [hpage i t ct ht hct hm, Remap.place] at heq
    split at heq
    · rename_i hc
      exact hok.free _ (hne hc) (List.mem_append_left _ (hcode.mpr ⟨v, hv, heq.symm⟩))
    · rename_i hc
      exact hc (hcode.mpr ⟨v, hv, heq.symm⟩)
  · rw [hop, toNat_onPage hlt]
    omega
  · have hc : pageOf t.ea ∉ (preprocess ts).code := fun hc => by
      obtain ⟨v, hv, heq⟩ := hcode.mp hc
      exact hclear v hv heq.symm
    rw [hop, Remap.place, if_neg hc, onPage_pageOf]
  · rw [hpage i t ct ht hct hm, hpage j t' ct' ht' hct' hm']
    constructor
    · intro heq
      exact place_inj hok (mem_preprocess_data (List.mem_of_getElem? ht) hm)
        (mem_preprocess_data (List.mem_of_getElem? ht') hm') hne
        (hall j t' ct' ht' hct' hm').2 heq
    · intro heq
      rw [heq]

/-- The load reads from page `0x1000`, the first that is given away. -/
theorem cvp2champsim_data_load : ∃ t ct, callTrace[1]? = some t ∧ callInstrs[1]? = some ct ∧
    operand t ct = 0x1000018 ∧ (∀ v ∈ callTrace, pageOf (operand t ct) ≠ pageOf v.pc) :=
  ⟨_, _, rfl, rfl, by decide,
    (cvp2champsim_data cvp2champsim_call (by decide) (i := 1) rfl rfl (by decide)).1⟩

end Data

/-! ## Which traces can be converted -/

/-- No assertion of `main` fails on the record. -/
def Convertible (t : CvpTrace) : Prop :=
  t.type ≠ .undefInstClass ∧
    (t.type.isBranch → t.type = .condBranchInstClass ∨ t.target ≠ 0)

theorem convert_isSome {u : PageUse} {g : UInt8} {s : Remap} {t : CvpTrace} :
    (convert u g s t).isSome ↔ t.Convertible := by
  rw [Option.isSome_iff_exists]
  constructor
  · rintro ⟨⟨s', ct⟩, hq⟩
    have hne : t.opType.isSome := by
      obtain ⟨c, hc, -⟩ := Option.bind_eq_some_iff.mp hq
      rw [hc]
      rfl
    have htarget : t.type.isBranch → t.type = .condBranchInstClass ∨ t.target ≠ 0 := by
      intro hb
      by_contra hno
      obtain ⟨hcond, h0⟩ := not_or.mp hno
      rw [opType, hb, Bool.not_true, if_neg Bool.false_ne_true, if_neg hcond,
        if_pos (not_not.mp h0)] at hne
      cases hne
    refine ⟨fun hu => ?_, htarget⟩
    cases convert_eq_some.mp hq with
    | branch hb hc =>
        rw [hu] at hb
        cases hb
    | load ht ha =>
        rw [hu] at ht
        cases ht
    | store ht ha =>
        rw [hu] at ht
        cases ht
    | other hb hm hu' => exact hu' hu
  · rintro ⟨hu, hb⟩
    by_cases hbr : t.type.isBranch
    · have hop : t.opType.isSome := by
        rw [opType, hbr, Bool.not_true, if_neg Bool.false_ne_true]
        rcases hb hbr with hc | ht
        · rw [if_pos hc]
          rfl
        · rw [if_neg ht]
          split <;> rfl
      obtain ⟨c, hc⟩ := Option.isSome_iff_exists.mp hop
      exact ⟨_, convert_eq_some.mpr (.branch hbr hc)⟩
    · have hb' : t.type.isBranch = false := Bool.not_eq_true _ ▸ hbr
      obtain ⟨q, hq⟩ := Option.isSome_iff_exists.mp (transform_isSome u s t.ea)
      by_cases hl : t.type = .loadInstClass
      · exact ⟨_, convert_eq_some.mpr (.load hl hq)⟩
      · by_cases hs : t.type = .storeInstClass
        · exact ⟨_, convert_eq_some.mpr (.store hs hq)⟩
        · refine ⟨_, convert_eq_some.mpr (.other hb' ?_ hu)⟩
          rw [InstClass.isMemory, decide_eq_false hl, decide_eq_false hs, Bool.or_false]

theorem convertFrom_isSome {u : PageUse} {garbage : Nat → UInt8} {n : Nat} {s : Remap}
    {ts : List CvpTrace} :
    (convertFrom u garbage n s ts).isSome ↔ ∀ t ∈ ts, t.Convertible := by
  induction ts generalizing n s with
  | nil => exact iff_of_true rfl (List.forall_mem_nil _)
  | cons t ts ih =>
      rw [convertFrom, List.forall_mem_cons, ← convert_isSome (u := u) (g := garbage n) (s := s)]
      cases hq : convert u (garbage n) s t with
      | none => simp
      | some q => simp [ih]

/-- A trace is converted whole unless one of its records fails an assertion:
the search for a free page always comes to an end. -/
theorem cvp2champsim_isSome (garbage : Nat → UInt8) (ts : List CvpTrace) :
    (cvp2champsim garbage ts).isSome ↔ ∀ t ∈ ts, t.Convertible := convertFrom_isSome

end CvpTrace

end DramCache
