import DramCache.LlcSteps
import DramCache.Outstanding

/-!
# The last-level cache over the manager

The reads the manager owes are lines whose MSHR entry is in flight: an entry
is made before its read is sent, a read is sent only for a line that has
none, and an entry leaves in flight only when its read is answered. `Books`
is this as an account of the reads accepted and answered; `llc_over_manager`
is what it gives for every run of the two, inside the cache's own calls of
the manager too.
-/

namespace DramCache

open Worklist (Reaches ReachesIf Holds)

/-! ## The manager by itself -/

theorem lowerLevel_orbInv {allow : LowerOp → Prop} {near far : MemoryController} {clk : Clock}
    {frontend backend : Nat} {x : Worklist.Config Sys Call}
    (h : Reaches lowerLevel allow (.boot near far clk frontend backend) x) :
    CalmTail x.1 ∧ OrbInv (Ctl.of x.1) x.2.dcm.core := by
  refine ReachesIf.invariant (P := fun x => CalmTail x.1 ∧ OrbInv (Ctl.of x.1) x.2.dcm.core)
    ⟨by simp [CalmTail], .empty rfl rfl⟩ ?_ ?_ h
  · rintro (op | _) s - - - ⟨-, hinv⟩
    · rcases s.enter_open op with hf | ⟨ha, hks⟩
      · exact ⟨hf.calmTail, hinv.enter hf⟩
      · exact ha.orbInv hks hinv
    · exact ⟨by simp [CalmTail, lowerLevel], hinv.congr rfl rfl rfl⟩
  · rintro c K s s' ks - - ⟨hK, hinv⟩ he
    have hf := Sys.exec_frontStep he
    exact ⟨hf.calmTail hK, hinv.step hf hK⟩

/-- The lines of the reads the manager takes when an operation is entered. -/
theorem lowerLevel_settles {s : Sys} (hinv : OrbInv .calm s.dcm.core) (op : LowerOp) :
    Settles s.dcm (lowerLevel.enter op s).1.dcm ↑((Llc.taken s (some op)).map fun p => p.address) ∧
      (↑((Llc.taken s (some op)).map fun p => p.address) : Multiset Nat) ≤ Llc.asked (some op) := by
  cases op with
  | op o =>
      have htaken : (↑((Llc.taken s (some (.op o))).map fun p => p.address) : Multiset Nat)
          = s.takesRead o := by
        cases o with
        | addRq pkt =>
            unfold Llc.taken Sys.takesRead
            dsimp only
            split <;> rfl
        | _ => rfl
      rw [htaken]
      refine ⟨Sys.enter_settles hinv o, ?_⟩
      cases o with
      | addRq pkt =>
          unfold Sys.takesRead Llc.asked
          dsimp only
          split
          · exact le_rfl
          · exact Multiset.zero_le _
      | _ => exact le_rfl
  | incrementWQFull =>
      exact ⟨.silent [] (List.append_nil _).symm rfl (le_of_eq (add_zero _).symm), le_rfl⟩

/-! ## Callbacks -/

namespace Llc

/-- What callbacks for these lines do to the cache. -/
structure CalledBack (lines : List Nat) (l l' : Llc) : Prop where
  mshr : l'.mshr.MshrOk
  held : l'.mshr.held = l.mshr.held
  awaited : ∀ a, a ∉ lines → l'.mshr.awaited.count a = l.mshr.awaited.count a
  completed : ∀ i, (l.mshr.entryAt i).returned = .completed →
    (l'.mshr.entryAt i).returned = .completed
  reads : l'.reads = l.reads
  fed : l.Fed → l'.Fed

/-- A callback for a line that is held finds its entry. -/
theorem returnData_spec {l : Llc} (hm : l.mshr.MshrOk) (clk : Clock) {pkt : Packet}
    (h : pkt.address ∈ l.mshr.held) :
    ∃ l', l.returnData clk pkt = .ok l' ∧ CalledBack [pkt.address] l l' := by
  obtain ⟨i, hi⟩ := CacheQueue.checkMshr_of_held h
  have hne : pkt.address ≠ 0 := ((Slots.mem_used 0).mp h).2
  have haddr := (CacheQueue.checkMshr_some hi).2
  unfold returnData
  rw [hi]
  obtain ⟨hok, hheld, haw, hdone⟩ := hm.complete hne hi (e := { l.mshr.entryAt i with
    returned := .completed,
    eventCycle := CacheQueue.delayed (l.mshr.entryAt i).eventCycle (clk.cycle pkt.cpu) l.latency })
    haddr rfl
  exact ⟨_, rfl, hok, hheld, fun a ha => haw a (by simpa using ha), hdone, rfl,
    fun hf => ⟨hf.rq, hf.pq, hf.prefetcher⟩⟩

theorem returnAll_spec (clk : Clock) : ∀ {pkts : List Packet} {l : Llc}, l.mshr.MshrOk →
    (∀ p ∈ pkts, p.address ∈ l.mshr.held) →
      ∃ l', returnAll clk pkts l = .ok l' ∧ CalledBack (pkts.map fun p => p.address) l l'
  | [], l, hm, _ => ⟨l, rfl, hm, rfl, fun _ _ => rfl, fun _ => id, rfl, id⟩
  | pkt :: pkts, l, hm, h => by
      obtain ⟨l₁, h₁, hone⟩ := returnData_spec hm clk (h pkt (List.mem_cons_self ..))
      have hpkts : ∀ p ∈ pkts, p.address ∈ l₁.mshr.held := fun p hp => by
        rw [hone.held]
        exact h p (List.mem_cons_of_mem _ hp)
      obtain ⟨l₂, h₂, hrest⟩ := returnAll_spec clk hone.mshr hpkts
      refine ⟨l₂, ?_, hrest.mshr, hrest.held.trans hone.held, fun a ha => ?_,
        fun i hi => hrest.completed i (hone.completed i hi), hrest.reads.trans hone.reads,
        hrest.fed ∘ hone.fed⟩
      · rw [returnAll, h₁]
        exact h₂
      · rw [List.map_cons, List.mem_cons, not_or] at ha
        rw [hrest.awaited a ha.2, hone.awaited a (by simpa using ha.1)]

/-! ## The account -/

/-- The lines of the reads the manager has accepted. -/
def readLines (l : Llc) : Multiset Nat := ↑(l.reads.map fun p => p.address)

end Llc

open Llc (Ready plain asked)

/-- The reads accepted are answered or owed, and those that are not answered
are lines in flight, as are those of `extra` still to be sent. -/
structure Books (extra : Multiset Nat) (l : Llc) (s : Sys) : Prop where
  mshr : l.mshr.MshrOk
  fed : l.Fed
  below : answeredLines s.dcm.log + s.dcm.outstanding ≤ l.readLines
  above : l.readLines + extra ≤ answeredLines s.dcm.log + l.mshr.awaited

namespace Books

variable {extra : Multiset Nat} {l l' : Llc} {s s' : Sys}

/-- The reads owed are lines in flight. -/
theorem owed (h : Books extra l s) : s.dcm.outstanding ≤ l.mshr.awaited := by
  have hle : answeredLines s.dcm.log + s.dcm.outstanding
      ≤ answeredLines s.dcm.log + l.mshr.awaited :=
    (h.below.trans (Multiset.le_add_right ..)).trans h.above
  exact le_of_add_le_add_left hle

/-- A call of the cache: what it asks for is in flight before it is sent. -/
theorem move {op : Option LowerOp} (h : Books 0 l s) (hmove : l.Move l' op) :
    Books (asked op) l' s := by
  obtain ⟨hm, hf, hreads, haw⟩ := hmove.sound h.mshr h.fed
  have hlines : l'.readLines = l.readLines := by rw [Llc.readLines, hreads, Llc.readLines]
  refine ⟨hm, hf, hlines ▸ h.below, ?_⟩
  rw [hlines, haw, add_left_comm, add_comm]
  have := h.above
  rw [add_zero] at this
  gcongr

/-- **A step of the manager.** Every callback finds the entry of its line,
and the account stays balanced. -/
theorem notice (h : Books extra l s) (op : Option LowerOp)
    (hset : Settles s.dcm s'.dcm ↑((Llc.taken s op).map fun p => p.address))
    (htaken : (↑((Llc.taken s op).map fun p => p.address) : Multiset Nat) ≤ extra) :
    ∃ l', Llc.notice op s s' l = .ok l' ∧ Books 0 l' s' ∧
      ∀ c, Ready l c → Ready l' c := by
  obtain ⟨evs, hlog, hsober, hout⟩ := hset
  have hdrop : s'.dcm.log.drop s.dcm.log.length = evs := by rw [hlog, List.drop_left]
  -- what is answered now was in flight
  have hanswered : answeredLines evs ≤ l.mshr.awaited := by
    refine le_of_add_le_add_left (a := answeredLines s.dcm.log) ?_
    calc answeredLines s.dcm.log + answeredLines evs
        ≤ answeredLines s.dcm.log + (answeredLines evs + s'.dcm.outstanding) := by
          gcongr
          exact Multiset.le_add_right ..
      _ ≤ answeredLines s.dcm.log + (s.dcm.outstanding + extra) :=
          add_le_add le_rfl (hout.trans (add_le_add le_rfl htaken))
      _ ≤ l.readLines + extra := by
          rw [← add_assoc]
          gcongr
          exact h.below
      _ ≤ _ := h.above
  have hmem : ∀ p ∈ (deliveries evs).map Prod.snd, p.address ∈ answeredLines evs := by
    intro p hp
    obtain ⟨d, hd, rfl⟩ := List.mem_map.mp hp
    exact hsober d hd
  obtain ⟨l', hl', hback⟩ := Llc.returnAll_spec s'.clock
    (l := { l with reads := l.reads ++ Llc.taken s op }) h.mshr fun p hp =>
      CacheQueue.mem_held_of_awaited (Multiset.mem_of_le hanswered (hmem p hp))
  have hlines : l'.readLines
      = l.readLines + ↑((Llc.taken s op).map fun p => p.address) := by
    rw [Llc.readLines, hback.reads, List.map_append, ← Multiset.coe_add, Llc.readLines]
  refine ⟨l', by rw [Llc.notice, hdrop]; exact hl', ⟨hback.mshr, ?_, ?_, ?_⟩, ?_⟩
  · exact hback.fed ⟨h.fed.rq, h.fed.pq, h.fed.prefetcher⟩
  · rw [hlines, hlog, answeredLines_append, add_assoc]
    refine (add_le_add_right hout _).trans ?_
    rw [← add_assoc]
    exact add_le_add_left h.below _
  · rw [add_zero, hlines, hlog, answeredLines_append, Multiset.le_iff_count]
    intro a
    have habove := Multiset.le_iff_count.mp h.above a
    have htk := Multiset.le_iff_count.mp htaken a
    simp only [Multiset.count_add] at habove ⊢
    by_cases ha : a ∈ ((deliveries evs).map Prod.snd).map fun p => p.address
    · obtain ⟨p, hp, rfl⟩ := List.mem_map.mp ha
      have hone := Multiset.one_le_count_iff_mem.mpr (hmem p hp)
      have hcount := h.mshr.count_awaited p.address
      omega
    · have := hback.awaited a ha
      dsimp only at this
      omega
  · intro c hc
    cases c with
    | finishFill i set way => exact hback.completed i hc
    | addPq pkt => exact hc
    | _ => trivial

end Books

/-! ## Runs -/

/-- Only the first call of the cache may depend on the state. -/
def Lined (l : Llc) (O : List LlcCall) : Prop :=
  (∀ c ∈ O.head?, Ready l c) ∧ ∀ c ∈ O.tail, plain c = true

theorem Lined.leave {l l' : Llc} {c : LlcCall} {O ks : List LlcCall} (h : Lined l (c :: O))
    (hks : l'.Leaves ks) : Lined l' (ks ++ O) := by
  obtain ⟨htail, hready⟩ := hks
  have hO : ∀ c ∈ O, plain c = true := h.2
  cases ks with
  | nil =>
      refine ⟨fun c hc => .of_plain (hO c (List.mem_of_mem_head? hc)), fun c hc => ?_⟩
      exact hO c (List.mem_of_mem_tail hc)
  | cons k ks =>
      obtain rfl : ks = [] := htail
      refine ⟨fun c hc => ?_, hO⟩
      obtain rfl : k = c := by simpa using hc
      exact hready _ (List.mem_singleton_self _)

/-- What the levels above and the simulator do: prefetches fill the cache or
a level above, whatever prefetcher is linked in, and only the cache sends
requests to the manager. -/
def Uncore.Allowed : LlcOp ⊕ LowerOp → Prop
  | .inl (.addPq pkt) => pkt.fillLevel ≤ fillLlc
  | .inl (.operate asked) => Llc.Fills asked
  | .inr (.op o) => o.request? = none
  | _ => True

/-- The constructors: an empty cache over the manager in warm-up. -/
def Uncore.boot (near far : MemoryController) (clk : Clock) (frontend backend : Nat) : Llc × Sys :=
  ({}, .boot near far clk frontend backend)

theorem Books.boot (near far : MemoryController) (clk : Clock) (frontend backend : Nat) :
    Books 0 {} (.boot near far clk frontend backend) := by
  have hempty : ∀ i, (CacheQueue.new llcMshrSize).entryAt i = {} := by
    intro i
    rw [CacheQueue.entryAt, CacheQueue.new, List.getElem?_replicate]
    split <;> rfl
  have hheld : (CacheQueue.new llcMshrSize).held = 0 := by decide
  refine ⟨⟨⟨rfl, ?_, ?_, fun i hi => ?_⟩, .inl rfl⟩, ⟨?_, ?_, ?_⟩, ?_, ?_⟩
  · show (CacheQueue.new llcMshrSize).held.Nodup
    rw [hheld]
    exact Multiset.nodup_zero
  · show 0 = (CacheQueue.new llcMshrSize).held.card
    rw [hheld]
    rfl
  · exact absurd (congrArg CachePacket.returned (hempty i)) hi
  · intro e he hcpu
    exact absurd (congrArg (fun e : CachePacket => e.cpu) (List.eq_of_mem_replicate he)) hcpu
  · intro e he hcpu
    exact absurd (congrArg (fun e : CachePacket => e.cpu) (List.eq_of_mem_replicate he)) hcpu
  · intro ps hps
    cases hps
  · exact le_rfl
  · exact Multiset.zero_le _

section Run

variable {near far : MemoryController} {clk : Clock} {frontend backend : Nat}

theorem books_of_reaches {x : Worklist.Config (Llc × Sys) (Worklist.Layer LowerOp Call LlcCall)}
    (h : Reaches uncore Uncore.Allowed (Uncore.boot near far clk frontend backend) x) :
    Holds (fun I O l s => Reaches lowerLevel (fun _ => True) (.boot near far clk frontend backend)
        (I, s) ∧ Books 0 l s ∧ Lined l O)
      (fun op O l s => Reaches lowerLevel (fun _ => True) (.boot near far clk frontend backend)
        ([], s) ∧ Books (asked (some op)) l s ∧ Lined l O) x := by
  refine Worklist.layered_invariant (P := fun _ O l s => Books 0 l s ∧ Lined l O)
    (Q := fun op O l s => Books (asked (some op)) l s ∧ Lined l O)
    ⟨.boot .., by simp [Lined]⟩ ?_ ?_ ?_ ?_ ?_ ?_ h
  · rintro op l s ha ⟨hb, -⟩
    have hstill : ∀ {l'}, l.Still l' → Books 0 l' s := by
      intro l' hs
      have hmove : l.Move l' none := .still hs rfl
      exact hb.move hmove
    have hone : ∀ {c}, Ready l c → Lined l [c] := fun hc => ⟨by simpa using hc, by simp⟩
    cases op with
    | addRq pkt => exact ⟨hb, hone trivial⟩
    | addWq pkt => exact ⟨hb, hone trivial⟩
    | addPq pkt => exact ⟨hb, hone ha⟩
    | operate asked =>
        refine ⟨hstill ⟨rfl, rfl, fun hf => ⟨hf.rq, hf.pq, ha⟩⟩, ?_⟩
        simp [Lined, llcClient, Llc.enter, Llc.operateCalls, Ready, plain]
    | setLatency n => exact ⟨hstill (.of_queues rfl rfl rfl rfl rfl), by simp [Lined, llcClient, Llc.enter]⟩
    | invalidateEntry a =>
        exact ⟨hstill (Llc.invalidateEntry_still ..), by simp [Lined, llcClient, Llc.enter]⟩
  · rintro (o | _) l s ha ⟨hb, hl⟩
    · have hnone : asked (some (.op o)) = 0 := by
        cases o with
        | addRq pkt => cases ha
        | _ => rfl
      rw [hnone]
      exact ⟨hb, hl⟩
    · exact ⟨hb, hl⟩
  · rintro c O l s l' ks ⟨hb, hl⟩ he
    obtain ⟨hmove, hleaves⟩ := Llc.exec_move hb.mshr hb.fed (hl.1 c rfl) he
    exact ⟨hb.move hmove, hl.leave hleaves⟩
  · rintro c O l s l' op ks ⟨hb, hl⟩ he
    obtain ⟨hmove, hleaves⟩ := Llc.exec_move hb.mshr hb.fed (hl.1 c rfl) he
    exact ⟨hb.move hmove, hl.leave hleaves⟩
  · rintro op O l l' s hr ⟨hb, hl⟩ hn
    have hset := lowerLevel_settles (lowerLevel_orbInv hr).2 op
    obtain ⟨l'', hl'', hb'', hready⟩ := hb.notice _ hset.1 hset.2
    obtain rfl : l'' = l' := Except.ok.inj (hl''.symm.trans hn)
    exact ⟨hb'', fun c hc => hready c (hl.1 c hc), hl.2⟩
  · rintro c I O l l' s s' ks hr ⟨hb, hl⟩ he hn
    have hset := (Sys.exec_frontStep he).settles (lowerLevel_orbInv hr).2
    obtain ⟨l'', hl'', hb'', hready⟩ := hb.notice none hset le_rfl
    obtain rfl : l'' = l' := Except.ok.inj (hl''.symm.trans hn)
    exact ⟨hb'', fun c hc => hready c (hl.1 c hc), hl.2⟩

theorem Books.safe {extra : Multiset Nat} {l : Llc} {s : Sys} (h : Books extra l s) :
    (∀ a, l.readLines.count a ≤ (answeredLines s.dcm.log).count a + 1) ∧
      s.dcm.outstanding.Nodup := by
  refine ⟨fun a => ?_, ?_⟩
  · have habove := Multiset.le_iff_count.mp h.above a
    have hone := h.mshr.count_awaited a
    simp only [Multiset.count_add] at habove
    omega
  · exact Multiset.nodup_of_le (h.owed.trans (CacheQueue.awaited_le _)) h.mshr.nodup

/-- **The cache and the manager compose.** In every configuration of a run
of the two, call boundaries and the inside of every call among them, from
the constructors on, across the end of warm-up, under any policy, latencies
and mode: the reads of a line that the manager has accepted are those it has
answered and at most one more; it owes no line twice; and no callback fails
the assertion of `CACHE::return_data`. -/
theorem llc_over_manager
    {x : Worklist.Config (Llc × Sys) (Worklist.Layer LowerOp Call LlcCall)}
    (h : Reaches uncore Uncore.Allowed (Uncore.boot near far clk frontend backend) x) :
    (∀ a, x.2.1.readLines.count a ≤ (answeredLines x.2.2.dcm.log).count a + 1) ∧
    x.2.2.dcm.outstanding.Nodup ∧
    ∀ c K, x.1 = c :: K → uncore.exec c x.2 ≠ .error (.notice .noMatchingEntry) := by
  have hbooks := books_of_reaches h
  have hsafe : (∀ a, x.2.1.readLines.count a ≤ (answeredLines x.2.2.dcm.log).count a + 1) ∧
      x.2.2.dcm.outstanding.Nodup := by
    rcases hbooks with ⟨I, O, -, -, hb, -⟩ | ⟨op, O, -, -, hb, -⟩ <;> exact hb.safe
  refine ⟨hsafe.1, hsafe.2, fun c K hK => ?_⟩
  obtain ⟨K', l, s⟩ := x
  obtain rfl : K' = c :: K := hK
  refine hbooks.no_fault ?_ ?_ _
  · rintro op O l s ⟨hr, hb, -⟩
    have hset := lowerLevel_settles (lowerLevel_orbInv hr).2 op
    obtain ⟨l', hl', -⟩ := hb.notice _ hset.1 hset.2
    exact ⟨l', hl'⟩
  · rintro c I O l s s' ks ⟨hr, hb, -⟩ he
    have hset := (Sys.exec_frontStep he).settles (lowerLevel_orbInv hr).2
    obtain ⟨l', hl', -⟩ := hb.notice none hset le_rfl
    exact ⟨l', hl'⟩

end Run

/-- A read from above. -/
def CachePacket.readOf (address : Nat) : CachePacket :=
  { Packet.readOf address with eventCycle := 0, fillLevel := 2 }

/-- The line a configuration is about to ask the manager for. -/
def Uncore.asking (x : Worklist.Config (Llc × Sys) (Worklist.Layer LowerOp Call LlcCall)) :
    Option Nat :=
  match x.1 with
  | .serve (.op (.addRq pkt)) :: _ => some pkt.address
  | _ => none

/-- A read before the end of warm-up, where the manager calls back inside the
cache's own `add_rq`. -/
theorem llc_over_manager_warmup :
    ∃ s c K y, Worklist.drive uncore 10 [.inl (.addRq (.readOf 5))]
        (Uncore.boot (.new 0 0 0 0) (.new 0 0 0 0) .zero 0 0) = some s ∧
      Worklist.advance uncore 4
        ((uncore.enter (.inl (.operate [])) s).2, (uncore.enter (.inl (.operate [])) s).1)
          = some (c :: K, y) ∧
      Uncore.asking (c :: K, y) = some 5 ∧ uncore.exec c y ≠ .error (.notice .noMatchingEntry) := by
  have hrun : ((Worklist.drive uncore 10 [.inl (.addRq (.readOf 5))]
      (Uncore.boot (.new 0 0 0 0) (.new 0 0 0 0) .zero 0 0)).bind fun s =>
        (Worklist.advance uncore 4 ((uncore.enter (.inl (.operate [])) s).2,
          (uncore.enter (.inl (.operate [])) s).1)).map Uncore.asking) = some (some 5) := by
    decide +kernel
  obtain ⟨s, hs, hrun⟩ := Option.bind_eq_some_iff.mp hrun
  obtain ⟨x, hx, hask⟩ := Option.map_eq_some_iff.mp hrun
  have hr : Reaches uncore Uncore.Allowed
      (Uncore.boot (.new 0 0 0 0) (.new 0 0 0 0) .zero 0 0) x := by
    refine Worklist.advance_reaches ?_ hx
    refine ReachesIf.enter ?_ (fun ps hps => absurd hps List.not_mem_nil) trivial
    exact Worklist.drive_reaches (by simp [Uncore.Allowed]) .refl hs
  obtain ⟨K', y⟩ := x
  cases K' with
  | nil => cases hask
  | cons c K => exact ⟨s, c, K, y, hs, hx, hask, (llc_over_manager hr).2.2 c K rfl⟩

end DramCache
