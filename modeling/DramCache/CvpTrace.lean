import DramCache.Wire

/-!
# CVP-1 traces

The records `cvp_tracer/cvp2champsim.cc` reads, with `trace::read`: a program
counter, a class, what the class has more, and the registers. The reader takes
exactly the encodings of well-formed records (`cvpTrace_accepts`), up to a rest
too short for a program counter.
-/

namespace DramCache

open Wire

/-- `InstClass`, as far as the enumeration goes; the type byte of a record is
not checked against it. -/
inductive InstClass where
  | aluInstClass
  | loadInstClass
  | storeInstClass
  | condBranchInstClass
  | uncondDirectBranchInstClass
  | uncondIndirectBranchInstClass
  | fpInstClass
  | slowAluInstClass
  | undefInstClass
  | unnamed (b : UInt8) (h : 8 < b.toNat)
deriving DecidableEq

namespace InstClass

def toByte : InstClass → UInt8
  | aluInstClass => 0
  | loadInstClass => 1
  | storeInstClass => 2
  | condBranchInstClass => 3
  | uncondDirectBranchInstClass => 4
  | uncondIndirectBranchInstClass => 5
  | fpInstClass => 6
  | slowAluInstClass => 7
  | undefInstClass => 8
  | unnamed b _ => b

def ofByte (b : UInt8) : InstClass :=
  if b = 0 then aluInstClass
  else if b = 1 then loadInstClass
  else if b = 2 then storeInstClass
  else if b = 3 then condBranchInstClass
  else if b = 4 then uncondDirectBranchInstClass
  else if b = 5 then uncondIndirectBranchInstClass
  else if b = 6 then fpInstClass
  else if b = 7 then slowAluInstClass
  else if h : 8 < b.toNat then unnamed b h
  else undefInstClass

theorem ofByte_toByte (t : InstClass) : ofByte t.toByte = t := by
  cases t with
  | unnamed b h =>
      have hne : ∀ n : UInt8, n.toNat ≤ 8 → b ≠ n := by
        rintro n hn rfl
        exact absurd h (Nat.not_lt.mpr hn)
      change ofByte b = _
      unfold ofByte
      rw [if_neg (hne 0 (by decide)), if_neg (hne 1 (by decide)), if_neg (hne 2 (by decide)),
        if_neg (hne 3 (by decide)), if_neg (hne 4 (by decide)), if_neg (hne 5 (by decide)),
        if_neg (hne 6 (by decide)), if_neg (hne 7 (by decide)), dif_pos h]
  | _ => rfl

theorem toByte_ofByte (b : UInt8) : (ofByte b).toByte = b := by
  unfold ofByte
  repeat'
    split
    · rename_i h
      first
        | exact h.symm
        | rfl
  rename_i h0 h1 h2 h3 h4 h5 h6 h7 h8
  have hlt : ∀ n : UInt8, b ≠ n → b.toNat ≠ n.toNat := fun n h hn => h (UInt8.toNat.inj hn)
  have hb : b.toNat = 8 := by
    have := hlt 0 h0
    have := hlt 1 h1
    have := hlt 2 h2
    have := hlt 3 h3
    have := hlt 4 h4
    have := hlt 5 h5
    have := hlt 6 h6
    have := hlt 7 h7
    simp only [UInt8.toNat_ofNat] at *
    omega
  exact (UInt8.toNat.inj hb).symm

/-- The classes `read` takes an effective address for. -/
def isMemory (t : InstClass) : Bool := t = loadInstClass || t = storeInstClass

/-- `is_branch`. -/
def isBranch (t : InstClass) : Bool :=
  t = uncondIndirectBranchInstClass || t = uncondDirectBranchInstClass || t = condBranchInstClass

theorem isBranch_of_isMemory {t : InstClass} (h : t.isMemory) : t.isBranch = false := by
  cases t <;> first | rfl | cases h

end InstClass

/-- `struct trace`. The arrays of register names and values are as long as
the counts before them say. -/
structure CvpTrace where
  pc : UInt64 := 0
  ea : UInt64 := 0
  target : UInt64 := 0
  accessSize : UInt8 := 0
  taken : UInt8 := 0
  type : InstClass := .undefInstClass
  inputRegNames : List UInt8 := []
  outputRegNames : List UInt8 := []
  outputRegValues : List (UInt64 × UInt64) := []
deriving DecidableEq

/-- Why `read` gives no record: it returns false, or an assertion fails. -/
inductive ReadStop where
  | endOfFile
  | assertion
deriving Repr, DecidableEq

namespace CvpTrace

/-! ## Reading -/

/-- The target of a taken branch; only a conditional one may fall through. -/
def readTarget (t : CvpTrace) : Reader ReadStop CvpTrace :=
  if t.taken ≠ 0 then do
    let target ← word64 .assertion
    pure { t with target := target }
  else if t.type = .condBranchInstClass then pure { t with target := t.pc + 4 }
  else throw .assertion

/-- The switch on the type. -/
def readClass (t : CvpTrace) : Reader ReadStop CvpTrace :=
  if t.type.isMemory then do
    let ea ← word64 .assertion
    let accessSize ← byte .assertion
    pure { t with ea := ea, accessSize := accessSize }
  else if t.type.isBranch then do
    let taken ← byte .assertion
    readTarget { t with taken := taken }
  else pure t

/-- A count and as many names. -/
def readRegNames : Reader ReadStop (List UInt8) := do
  let count ← byte .assertion
  bytes .assertion count.toNat

/-- Registers of 64 bits: the scalar ones and the flags. -/
def isScalar (name : UInt8) : Bool := name.toNat ≤ 31 || name.toNat = 64

def isSimd (name : UInt8) : Bool := 32 ≤ name.toNat && name.toNat < 64

def readValue (name : UInt8) : Reader ReadStop (UInt64 × UInt64) :=
  if isScalar name then do
    let value ← word64 .assertion
    pure (value, 0)
  else if isSimd name then do
    let low ← word64 .assertion
    let high ← word64 .assertion
    pure (low, high)
  else throw .assertion

def read : Reader ReadStop CvpTrace := do
  let pc ← word64 .endOfFile
  let type ← byte .assertion
  let t ← readClass { pc := pc, type := .ofByte type }
  let inputs ← readRegNames
  let outputs ← readRegNames
  let values ← each readValue outputs
  pure { t with inputRegNames := inputs, outputRegNames := outputs, outputRegValues := values }

/-! ## What a record looks like -/

def encodeClass (t : CvpTrace) : List UInt8 :=
  if t.type.isMemory then toBytes 8 t.ea.toNat ++ [t.accessSize]
  else if t.type.isBranch then
    if t.taken ≠ 0 then t.taken :: toBytes 8 t.target.toNat else [t.taken]
  else []

def encodeRegNames (names : List UInt8) : List UInt8 := UInt8.ofNat names.length :: names

def encodeValue (name : UInt8) (value : UInt64 × UInt64) : List UInt8 :=
  if isScalar name then toBytes 8 value.1.toNat
  else toBytes 8 value.1.toNat ++ toBytes 8 value.2.toNat

def encode (t : CvpTrace) : List UInt8 :=
  toBytes 8 t.pc.toNat ++ t.type.toByte :: (t.encodeClass ++ (encodeRegNames t.inputRegNames ++
    (encodeRegNames t.outputRegNames ++
      (List.zipWith encodeValue t.outputRegNames t.outputRegValues).flatten)))

/-- What the class of a record leaves open; the rest is as it was initialised. -/
structure ClassOk (t : CvpTrace) : Prop where
  memory : t.type.isMemory = false → t.ea = 0 ∧ t.accessSize = 0
  branch : t.type.isBranch = false → t.taken = 0 ∧ t.target = 0
  fallThrough : t.type.isBranch → t.taken = 0 →
    t.type = .condBranchInstClass ∧ t.target = t.pc + 4

/-- A value fits the register. -/
def ValueOk (name : UInt8) (value : UInt64 × UInt64) : Prop :=
  isScalar name ∧ value.2 = 0 ∨ isSimd name

structure WellFormed (t : CvpTrace) : Prop where
  classOk : t.ClassOk
  inputs : t.inputRegNames.length < 256
  outputs : t.outputRegNames.length < 256
  values : List.Forall₂ ValueOk t.outputRegNames t.outputRegValues

/-! ## What `read` accepts -/

section Accepted

variable {pc : UInt64} {type : InstClass}

theorem encodeClass_memory {t : CvpTrace} (h : t.type.isMemory) :
    t.encodeClass = toBytes 8 t.ea.toNat ++ [t.accessSize] := if_pos h

theorem encodeClass_branch {t : CvpTrace} (hm : t.type.isMemory = false) (hb : t.type.isBranch) :
    t.encodeClass = if t.taken ≠ 0 then t.taken :: toBytes 8 t.target.toNat else [t.taken] := by
  rw [encodeClass, if_neg (ne_true_of_eq_false hm), if_pos hb]

theorem encodeClass_other {t : CvpTrace} (hm : t.type.isMemory = false)
    (hb : t.type.isBranch = false) : t.encodeClass = [] := by
  rw [encodeClass, if_neg (ne_true_of_eq_false hm), if_neg (ne_true_of_eq_false hb)]

/-- What `readClass` leaves: all of a record but its registers. -/
structure ClassRead (pc : UInt64) (type : InstClass) (p : List UInt8) (t : CvpTrace) : Prop where
  ok : t.ClassOk
  frame : t = { pc := pc, type := type, ea := t.ea, accessSize := t.accessSize, taken := t.taken,
                target := t.target }
  bytes : p = t.encodeClass

theorem ClassRead.type_eq {p : List UInt8} {t : CvpTrace} (h : ClassRead pc type p t) :
    t.type = type := by
  rw [h.frame]

theorem readClass_memory (hm : type.isMemory) :
    Accepts (readClass { pc := pc, type := type }) (ClassRead pc type) := by
  have hb := InstClass.isBranch_of_isMemory hm
  rw [readClass, if_pos (by exact hm)]
  refine ((word64_accepts _).bind fun ea => (byte_accepts _).bind fun size =>
    Accepts.pure _).congr fun p t => ?_
  constructor
  · rintro ⟨_, ea, _, rfl, ⟨_, size, _, rfl, ⟨rfl, rfl⟩, rfl⟩, rfl⟩
    refine ⟨⟨fun h => ?_, fun _ => ⟨rfl, rfl⟩, fun h => ?_⟩, rfl, ?_⟩
    · exact absurd hm (ne_true_of_eq_false h)
    · exact absurd h (ne_true_of_eq_false hb)
    · rw [encodeClass_memory (by exact hm)]
      rfl
  · intro h
    have hm' : t.type.isMemory := by rw [h.type_eq, hm]
    have hb' : t.type.isBranch = false := by rw [h.type_eq, hb]
    obtain ⟨htaken, htarget⟩ := h.ok.branch hb'
    refine ⟨_, t.ea, _, rfl, ⟨_, t.accessSize, [], rfl, ⟨rfl, ?_⟩, rfl⟩, ?_⟩
    · conv_lhs => rw [h.frame, htaken, htarget]
    · rw [h.bytes, encodeClass_memory hm']
      rfl

theorem readTarget_accepts (t₀ : CvpTrace) :
    Accepts (readTarget t₀) fun p t =>
      t = { t₀ with target := t.target } ∧
        (t₀.taken ≠ 0 ∧ p = toBytes 8 t.target.toNat ∨
          t₀.taken = 0 ∧ t₀.type = .condBranchInstClass ∧ t.target = t₀.pc + 4 ∧ p = []) := by
  refine Accepts.ite (fun h => ?_) fun h => Accepts.ite (fun hc => ?_) fun hc => ?_
  · refine ((word64_accepts _).bind fun target => Accepts.pure _).congr fun p t => ?_
    constructor
    · rintro ⟨_, target, _, rfl, ⟨rfl, rfl⟩, rfl⟩
      exact ⟨rfl, .inl ⟨h, List.append_nil _⟩⟩
    · rintro ⟨ht, ⟨-, rfl⟩ | ⟨h', -⟩⟩
      · exact ⟨_, t.target, [], rfl, ⟨rfl, ht⟩, (List.append_nil _).symm⟩
      · exact absurd h' h
  · refine (Accepts.pure _).congr fun p t => ?_
    constructor
    · rintro ⟨rfl, rfl⟩
      exact ⟨rfl, .inr ⟨not_not.mp h, hc, rfl, rfl⟩⟩
    · rintro ⟨ht, ⟨h', -⟩ | ⟨-, -, htarget, rfl⟩⟩
      · exact absurd h' h
      · exact ⟨rfl, htarget ▸ ht⟩
  · refine (Accepts.throw _).congr fun p t => ?_
    constructor
    · exact False.elim
    · rintro ⟨ht, ⟨h', -⟩ | ⟨-, hc', -⟩⟩
      · exact h h'
      · exact hc hc'

theorem readClass_branch (hb : type.isBranch) :
    Accepts (readClass { pc := pc, type := type }) (ClassRead pc type) := by
  have hm : type.isMemory = false := by
    cases hm : type.isMemory with
    | false => rfl
    | true => exact absurd hb (ne_true_of_eq_false (InstClass.isBranch_of_isMemory hm))
  rw [readClass, if_neg (by exact ne_true_of_eq_false hm), if_pos (by exact hb)]
  refine ((byte_accepts _).bind fun taken => readTarget_accepts _).congr fun p t => ?_
  constructor
  · rintro ⟨_, taken, _, rfl, ⟨ht, hcase⟩, rfl⟩
    have htaken : t.taken = taken := by rw [ht]
    have hm' : t.type.isMemory = false := by rw [ht]; exact hm
    have hb' : t.type.isBranch := by rw [ht]; exact hb
    refine ⟨⟨fun _ => ?_, fun h => ?_, fun _ h0 => ?_⟩, ?_, ?_⟩
    · rw [ht]
      exact ⟨rfl, rfl⟩
    · exact absurd hb' (ne_true_of_eq_false h)
    · rcases hcase with ⟨h, -⟩ | ⟨-, hc, htarget, -⟩
      · exact absurd (htaken ▸ h0) h
      · exact ⟨by rw [ht]; exact hc, htarget.trans (by rw [ht])⟩
    · have hea : t.ea = 0 := by rw [ht]
      have hsize : t.accessSize = 0 := by rw [ht]
      rw [htaken, hea, hsize]
      exact ht
    · rw [encodeClass_branch hm' hb', htaken]
      rcases hcase with ⟨h, rfl⟩ | ⟨h, -, -, rfl⟩
      · rw [if_pos h]
        rfl
      · rw [if_neg (not_not.mpr h)]
        rfl
  · intro h
    have hm' : t.type.isMemory = false := by rw [h.type_eq, hm]
    have hb' : t.type.isBranch := by rw [h.type_eq, hb]
    obtain ⟨hea, hsize⟩ := h.ok.memory hm'
    have hframe : t = { ({ pc := pc, type := type, taken := t.taken } : CvpTrace) with
        target := t.target } := by
      conv_lhs => rw [h.frame, hea, hsize]
    have hbytes := h.bytes
    rw [encodeClass_branch hm' hb'] at hbytes
    by_cases h0 : t.taken ≠ 0
    · rw [if_pos h0] at hbytes
      exact ⟨_, t.taken, _, rfl, ⟨hframe, .inl ⟨h0, rfl⟩⟩, hbytes⟩
    · rw [if_neg h0] at hbytes
      obtain ⟨hc, htarget⟩ := h.ok.fallThrough hb' (not_not.mp h0)
      refine ⟨_, t.taken, _, rfl, ⟨hframe, .inr ⟨not_not.mp h0, h.type_eq ▸ hc, ?_, rfl⟩⟩, hbytes⟩
      rw [htarget, h.frame]

theorem readClass_accepts : Accepts (readClass { pc := pc, type := type }) (ClassRead pc type) := by
  cases hm : type.isMemory with
  | true => exact readClass_memory hm
  | false =>
      cases hb : type.isBranch with
      | true => exact readClass_branch hb
      | false =>
          rw [readClass, if_neg (by exact ne_true_of_eq_false hm),
            if_neg (by exact ne_true_of_eq_false hb)]
          refine (Accepts.pure _).congr fun p t => ?_
          constructor
          · rintro ⟨rfl, rfl⟩
            exact ⟨⟨fun _ => ⟨rfl, rfl⟩, fun _ => ⟨rfl, rfl⟩, fun h =>
              absurd h (ne_true_of_eq_false hb)⟩, rfl, (encodeClass_other hm hb).symm⟩
          · intro h
            obtain ⟨hea, hsize⟩ := h.ok.memory (by rw [h.type_eq, hm])
            obtain ⟨htaken, htarget⟩ := h.ok.branch (by rw [h.type_eq, hb])
            refine ⟨?_, ?_⟩
            · rw [h.bytes, encodeClass_other (by rw [h.type_eq, hm]) (by rw [h.type_eq, hb])]
            · rw [h.frame, hea, hsize, htaken, htarget]

theorem readRegNames_accepts :
    Accepts readRegNames fun p names => names.length < 256 ∧ p = encodeRegNames names := by
  refine ((byte_accepts _).bind fun count => bytes_accepts _ _).congr fun p names => ?_
  constructor
  · rintro ⟨_, count, _, rfl, ⟨hlen, rfl⟩, rfl⟩
    refine ⟨hlen ▸ count.toNat_lt, ?_⟩
    rw [encodeRegNames, hlen, UInt8.ofNat_toNat]
    rfl
  · rintro ⟨hlt, rfl⟩
    refine ⟨_, UInt8.ofNat names.length, names, rfl, ⟨?_, rfl⟩, rfl⟩
    rw [UInt8.toNat_ofNat', Nat.mod_eq_of_lt hlt]

theorem readValue_accepts (name : UInt8) :
    Accepts (readValue name) fun p value => ValueOk name value ∧ p = encodeValue name value := by
  refine Accepts.ite (fun h => ?_) fun h => Accepts.ite (fun hs => ?_) fun hs => ?_
  · refine ((word64_accepts _).bind fun value => Accepts.pure _).congr fun p value => ?_
    constructor
    · rintro ⟨_, low, _, rfl, ⟨rfl, rfl⟩, rfl⟩
      refine ⟨.inl ⟨h, rfl⟩, ?_⟩
      rw [encodeValue, if_pos h, List.append_nil]
    · rintro ⟨hok, rfl⟩
      have hhigh : value.2 = 0 := by
        rcases hok with ⟨-, h0⟩ | hs
        · exact h0
        · simp only [isScalar, isSimd, Bool.or_eq_true, Bool.and_eq_true, decide_eq_true_eq] at h hs
          omega
      refine ⟨_, value.1, [], rfl, ⟨rfl, Prod.ext rfl hhigh⟩, ?_⟩
      rw [encodeValue, if_pos h, List.append_nil]
  · refine ((word64_accepts _).bind fun low => (word64_accepts _).bind fun high =>
      Accepts.pure _).congr fun p value => ?_
    constructor
    · rintro ⟨_, low, _, rfl, ⟨_, high, _, rfl, ⟨rfl, rfl⟩, rfl⟩, rfl⟩
      refine ⟨.inr hs, ?_⟩
      rw [encodeValue, if_neg h, List.append_nil]
    · rintro ⟨-, rfl⟩
      refine ⟨_, value.1, _, rfl, ⟨_, value.2, [], rfl, ⟨rfl, rfl⟩, rfl⟩, ?_⟩
      rw [encodeValue, if_neg h, List.append_nil]
  · refine (Accepts.throw _).congr fun p value => ?_
    constructor
    · exact False.elim
    · rintro ⟨⟨h', -⟩ | hs', -⟩
      · exact h h'
      · exact hs hs'

/-- `read` takes the encoding of a well-formed record and nothing else. -/
theorem read_accepts : Accepts read fun p t => t.WellFormed ∧ p = t.encode := by
  refine ((word64_accepts _).bind fun pc => (byte_accepts _).bind fun type =>
    readClass_accepts.bind fun t => readRegNames_accepts.bind fun inputs =>
    readRegNames_accepts.bind fun outputs => (each_accepts readValue_accepts outputs).bind
    fun values => Accepts.pure _).congr fun p t => ?_
  constructor
  · rintro ⟨_, pc, _, rfl, ⟨_, type, _, rfl, ⟨_, u, _, hu, ⟨_, ins, _, ⟨hin, rfl⟩, ⟨_, outs, _,
      ⟨hout, rfl⟩, ⟨_, vals, _, ⟨hvals, rfl⟩, ⟨rfl, rfl⟩, rfl⟩, rfl⟩, rfl⟩, rfl⟩, rfl⟩, rfl⟩
    have hpc : u.pc = pc := by rw [hu.frame]
    have htype : u.type.toByte = type := by rw [hu.type_eq, InstClass.toByte_ofByte]
    refine ⟨⟨⟨hu.ok.memory, hu.ok.branch, hu.ok.fallThrough⟩, hin, hout, hvals⟩, ?_⟩
    rw [List.append_nil, hu.bytes, ← hpc, ← htype]
    rfl
  · rintro ⟨⟨hclass, hin, hout, hvals⟩, rfl⟩
    refine ⟨_, t.pc, _, rfl, ⟨_, t.type.toByte, _, rfl, ⟨t.encodeClass, { t with
      inputRegNames := [], outputRegNames := [], outputRegValues := [] }, _, ?_, ⟨_,
      t.inputRegNames, _, ⟨hin, rfl⟩, ⟨_, t.outputRegNames, _, ⟨hout, rfl⟩, ⟨_, t.outputRegValues,
      [], ⟨hvals, rfl⟩, ⟨rfl, rfl⟩, rfl⟩, rfl⟩, rfl⟩, rfl⟩, rfl⟩, ?_⟩
    · rw [InstClass.ofByte_toByte]
      exact ⟨⟨hclass.memory, hclass.branch, hclass.fallThrough⟩, rfl, rfl⟩
    · rw [List.append_nil]
      rfl

end Accepted

/-! ## A trace file -/

/-- The loop of `main` and of `preprocess_file` over the records of a file. -/
def readFile (bs : List UInt8) : Except ReadStop (List CvpTrace) :=
  readAll read .endOfFile (bs.length + 1) bs

theorem encode_ne_nil (t : CvpTrace) : t.encode ≠ [] := by
  intro h
  have hlen := congrArg List.length h
  rw [encode, List.length_append, length_toBytes, List.length_nil] at hlen
  omega

theorem readClass_stops (t : CvpTrace) : StopsWith (readClass t) .assertion :=
  .ite ((word64_stops _).bind fun _ => (byte_stops _).bind fun _ => .pure _ _)
    (.ite ((byte_stops _).bind fun _ => .ite ((word64_stops _).bind fun _ => .pure _ _)
      (.ite (.pure _ _) (.throw _))) (.pure _ _))

theorem readRegNames_stops : StopsWith readRegNames .assertion :=
  (byte_stops _).bind fun _ => each_stops (fun _ => byte_stops _) _

theorem readValue_stops (name : UInt8) : StopsWith (readValue name) .assertion :=
  .ite ((word64_stops _).bind fun _ => .pure _ _)
    (.ite ((word64_stops _).bind fun _ => (word64_stops _).bind fun _ => .pure _ _) (.throw _))

/-- `read` returns false in front of less than a program counter, and only
there: behind one, what is missing fails an assertion. -/
theorem read_endOfFile {bs : List UInt8} :
    read.run bs = .error .endOfFile ↔ bs.length < 8 := by
  rw [read, run_bind_eq_error, word64_error]
  constructor
  · rintro (⟨h, -⟩ | ⟨pc, mid, -, h⟩)
    · exact h
    · have hrest : StopsWith (_ : Reader ReadStop CvpTrace) .assertion :=
        (byte_stops _).bind fun type => (readClass_stops { pc := pc, type := .ofByte type }).bind
          fun t => readRegNames_stops.bind fun inputs => readRegNames_stops.bind fun outputs =>
          (each_stops readValue_stops outputs).bind fun values => .pure { t with
            inputRegNames := inputs, outputRegNames := outputs, outputRegValues := values } _
      cases hrest mid _ h
  · intro h
    exact .inl ⟨h, rfl⟩

/-- **A trace file is read whole and as it stands**: the records come out in
order exactly when the file is their encodings one after the other, but for
an incomplete program counter at the end. Any other file ends in a failing
assertion. -/
theorem cvpTrace_file (bs : List UInt8) :
    (∀ ts, readFile bs = .ok ts ↔
      ∃ rest, rest.length < 8 ∧ (∀ t ∈ ts, t.WellFormed) ∧ bs = ts.flatMap encode ++ rest) ∧
    ∀ e, readFile bs = .error e → e = .assertion := by
  constructor
  · intro ts
    rw [readFile, readAll_eq_ok read_accepts encode_ne_nil (Nat.lt_succ_self _)]
    constructor
    · rintro ⟨rest, hbs, hok, hend⟩
      exact ⟨rest, read_endOfFile.mp hend, hok, hbs⟩
    · rintro ⟨rest, hlen, hok, hbs⟩
      exact ⟨rest, hbs, hok, read_endOfFile.mpr hlen⟩
  · intro e he
    cases e with
    | endOfFile =>
        exact absurd he (readAll_ne_last read_accepts encode_ne_nil (Nat.lt_succ_self _))
    | assertion => rfl

end CvpTrace

end DramCache
