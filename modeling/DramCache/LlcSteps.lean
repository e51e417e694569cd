import DramCache.Mshr

/-!
# What the cache does to its MSHR

A call of the cache leaves the MSHR alone, gives a new miss an entry and
asks the manager for it, merges into an entry, or removes one that is
completed. `exec_move` says so of every call; the queues feed it packets with
an address, and prefetches that fill the cache.
-/

namespace DramCache

namespace Llc

/-! ## What the queues hold -/

/-- A read that is handled has an address. -/
def RqOk (q : CacheQueue) : Prop := ∀ e ∈ q.entry, e.cpu ≠ numCpus → e.address ≠ 0

/-- A prefetch that is handled has an address, and is filled no lower than
the cache. -/
def PqOk (q : CacheQueue) : Prop :=
  ∀ e ∈ q.entry, e.cpu ≠ numCpus → e.address ≠ 0 ∧ e.fillLevel ≤ fillLlc

/-- What the prefetcher asks for is filled no lower than the cache. -/
def Fills (asked : List (List PrefetchLine)) : Prop :=
  ∀ ps ∈ asked, ∀ p ∈ ps, p.fillLevel ≤ fillLlc

structure Fed (l : Llc) : Prop where
  rq : RqOk l.rq
  pq : PqOk l.pq
  prefetcher : Fills l.prefetcher

/-- The MSHR and the account of reads stay as they are. -/
structure Still (l l' : Llc) : Prop where
  mshr : l'.mshr = l.mshr
  reads : l'.reads = l.reads
  fed : l.Fed → l'.Fed

theorem Still.refl (l : Llc) : Still l l := ⟨rfl, rfl, id⟩

theorem Still.trans {l₁ l₂ l₃ : Llc} (h₁ : Still l₁ l₂) (h₂ : Still l₂ l₃) : Still l₁ l₃ :=
  ⟨h₂.mshr.trans h₁.mshr, h₂.reads.trans h₁.reads, h₂.fed ∘ h₁.fed⟩

/-- The queues and the prefetcher stay too. -/
theorem Still.of_queues {l l' : Llc} (hm : l'.mshr = l.mshr) (hr : l'.reads = l.reads)
    (hrq : l'.rq = l.rq) (hpq : l'.pq = l.pq) (hpf : l'.prefetcher = l.prefetcher) : Still l l' :=
  ⟨hm, hr, fun h => ⟨hrq ▸ h.rq, hpq ▸ h.pq, hpf ▸ h.prefetcher⟩⟩

/-! ### Queues -/

section Queue

variable {q q' : CacheQueue} {i : Nat} {e : CachePacket} {p : CachePacket → Prop}

/-- What holds of a packet put there and of the empty packet holds of every
entry. -/
theorem mem_setEntry (h : ∀ e ∈ q.entry, p e) (he : p e) : ∀ e' ∈ (q.setEntry i e).entry, p e' :=
  fun _ h' => (List.mem_or_eq_of_mem_set h').elim (h _) fun heq => heq ▸ he

theorem removeFrom_entry (hr : removeFrom q i = .ok q') : q'.entry = q.entry.set i {} := by
  unfold removeFrom at hr
  split at hr
  · rename_i hq
    cases hr
    unfold CacheQueue.removeQueue at hq
    split at hq
    · cases hq
    · exact (Option.some.inj hq) ▸ rfl
  · cases hr

theorem mem_removeFrom (h : ∀ e ∈ q.entry, p e) (he : p {}) (hr : removeFrom q i = .ok q') :
    ∀ e' ∈ q'.entry, p e' := by
  rw [removeFrom_entry hr]
  exact mem_setEntry (i := i) h he

theorem mem_push (h : ∀ e ∈ q.entry, p e) {now latency : Nat}
    (he : ∀ c, p { e with eventCycle := c }) : ∀ e' ∈ (q.push e now latency).entry, p e' :=
  mem_setEntry (i := q.tail) h (he _)

/-- A packet of a queue, or the empty one beyond its end. -/
theorem entryAt_ok (h : ∀ e ∈ q.entry, e.cpu ≠ numCpus → p e) (i : Nat)
    (hcpu : (q.entryAt i).cpu ≠ numCpus) : p (q.entryAt i) := by
  by_cases hi : i < q.entry.length
  · refine h _ ?_ hcpu
    rw [CacheQueue.entryAt, List.getElem?_eq_getElem hi]
    exact List.getElem_mem hi
  · rw [CacheQueue.entryAt_of_length_le (not_lt.mp hi)] at hcpu
    exact absurd rfl hcpu

end Queue

/-! ### Functions that leave the MSHR alone -/

theorem bind_ok {α β : Type} {x : Except LlcFault α} {f : α → Except LlcFault β} {b : β}
    (h : x.bind f = .ok b) : ∃ a, x = .ok a ∧ f a = .ok b := by
  cases x with
  | error e => cases h
  | ok a => exact ⟨a, rfl, h⟩

section Frames

variable {l l' : Llc} {clk : Clock}

theorem returnUpper_still (l : Llc) (pkt : CachePacket) : Still l (l.returnUpper pkt) := by
  unfold returnUpper
  split
  · exact .of_queues rfl rfl rfl rfl rfl
  · exact .refl l

theorem fillCache_still (l : Llc) (set way : Nat) (pkt : CachePacket) :
    Still l (l.fillCache set way pkt) := .of_queues rfl rfl rfl rfl rfl

theorem markDirty_still (l : Llc) (set way : Nat) : Still l (l.markDirty set way) :=
  .of_queues rfl rfl rfl rfl rfl

theorem invalidateEntry_still (l : Llc) (a : Nat) : Still l (l.invalidateEntry a) := by
  unfold invalidateEntry
  split
  · exact .of_queues rfl rfl rfl rfl rfl
  · exact .refl l

theorem llcUpdateReplacementState_still {set way ip : Nat} {type : AccessType} {hit : Bool}
    (h : l.llcUpdateReplacementState set way ip type hit = .ok l') : Still l l' := by
  unfold llcUpdateReplacementState at h
  split at h
  · cases h
  · split at h
    · cases h
      exact .refl l
    · cases h
      exact .of_queues rfl rfl rfl rfl rfl

theorem addRq_still {pkt : CachePacket} {rc : Int} (h : l.addRq clk pkt = .ok (l', rc)) :
    Still l l' := by
  unfold addRq at h
  split at h
  · cases h
    exact returnUpper_still ..
  · split at h
    · rename_i i _
      cases h
      refine ⟨rfl, rfl, fun hf => ⟨mem_setEntry hf.rq ?_, hf.pq, hf.prefetcher⟩⟩
      have hold := entryAt_ok (p := fun e => e.address ≠ 0) hf.rq i
      cases pkt.instruction <;> exact hold
    · split at h
      · cases h
        exact .refl l
      · split at h
        · cases h
        · split at h
          · cases h
          · rename_i haddr
            cases h
            exact ⟨rfl, rfl, fun hf => ⟨mem_push hf.rq fun _ _ => haddr, hf.pq, hf.prefetcher⟩⟩

theorem addWq_still {pkt : CachePacket} {rc : Int} (h : l.addWq clk pkt = .ok (l', rc)) :
    Still l l' := by
  unfold addWq at h
  split at h
  · cases h
    exact .refl l
  · split at h
    · cases h
    · split at h
      · cases h
      · cases h
        exact .of_queues rfl rfl rfl rfl rfl

theorem addPq_still {pkt : CachePacket} {rc : Int} (hpkt : pkt.fillLevel ≤ fillLlc)
    (h : l.addPq clk pkt = .ok (l', rc)) : Still l l' := by
  unfold addPq at h
  split at h
  · cases h
    exact returnUpper_still ..
  · split at h
    · rename_i i _
      cases h
      refine ⟨rfl, rfl, fun hf => ⟨hf.rq, mem_setEntry hf.pq fun hcpu => ?_, hf.prefetcher⟩⟩
      obtain ⟨haddr, hlevel⟩ :=
        entryAt_ok (p := fun e => e.address ≠ 0 ∧ e.fillLevel ≤ fillLlc) hf.pq i hcpu
      refine ⟨haddr, ?_⟩
      dsimp only
      split
      · exact hpkt
      · exact hlevel
    · split at h
      · cases h
        exact .refl l
      · split at h
        · cases h
        · split at h
          · cases h
          · rename_i haddr
            cases h
            exact ⟨rfl, rfl,
              fun hf => ⟨hf.rq, mem_push hf.pq fun _ _ => ⟨haddr, hpkt⟩, hf.prefetcher⟩⟩

/-- A packet that a queue holds keeps its address and its cpu. -/
def Keeps (i : Nat) (l l' : Llc) : Prop :=
  (l'.pq.entryAt i).address = (l.pq.entryAt i).address ∧
    (l'.pq.entryAt i).cpu = (l.pq.entryAt i).cpu

theorem addPq_keeps {pkt : CachePacket} {rc : Int} {i : Nat} (hi : (l.pq.entryAt i).address ≠ 0)
    (h : l.addPq clk pkt = .ok (l', rc)) : Keeps i l l' := by
  have hset : ∀ {j e}, (i = j → e.address = (l.pq.entryAt i).address ∧ e.cpu = (l.pq.entryAt i).cpu) →
      ((l.pq.setEntry j e).entryAt i).address = (l.pq.entryAt i).address ∧
        ((l.pq.setEntry j e).entryAt i).cpu = (l.pq.entryAt i).cpu := by
    intro j e he
    rw [CacheQueue.entryAt_setEntry]
    split
    · rename_i hij
      exact he hij.1.symm
    · exact ⟨rfl, rfl⟩
  unfold addPq at h
  split at h
  · cases h
    unfold returnUpper
    split <;> exact ⟨rfl, rfl⟩
  · split at h
    · cases h
      refine hset ?_
      rintro rfl
      exact ⟨rfl, rfl⟩
    · split at h
      · cases h
        exact ⟨rfl, rfl⟩
      · split at h
        · cases h
        · rename_i hempty
          split at h
          · cases h
          · cases h
            refine hset (j := l.pq.tail) ?_
            rintro rfl
            exact absurd hi hempty

theorem prefetchLine_still {cpu : Nat} {p : PrefetchLine} (hp : p.fillLevel ≤ fillLlc)
    (h : l.prefetchLine clk cpu p = .ok l') : Still l l' := by
  unfold prefetchLine at h
  split at h
  · cases ha : l.addPq clk _ with
    | error e =>
        rw [ha] at h
        cases h
    | ok r =>
        rw [ha] at h
        cases h
        refine addPq_still ?_ ha
        exact hp
  · cases h
    exact .refl l

theorem prefetchLines_still {cpu : Nat} {ps : List PrefetchLine}
    (hps : ∀ p ∈ ps, p.fillLevel ≤ fillLlc) (h : prefetchLines clk cpu ps l = .ok l') :
    Still l l' := by
  induction ps generalizing l with
  | nil =>
      cases h
      exact .refl _
  | cons p ps ih =>
      obtain ⟨l₁, h₁, h₂⟩ := bind_ok h
      exact (prefetchLine_still (hps p (List.mem_cons_self ..)) h₁).trans
        (ih (fun p hp => hps p (List.mem_cons_of_mem _ hp)) h₂)

theorem callPrefetcher_still {cpu : Nat} (hf : l.Fed) (h : l.callPrefetcher clk cpu = .ok l') :
    Still l l' := by
  unfold callPrefetcher at h
  split at h
  · cases h
    exact .refl l
  · rename_i ps rest hpf
    have hfills := hf.prefetcher
    rw [hpf] at hfills
    have hpop : Still l { l with prefetcher := rest } :=
      ⟨rfl, rfl, fun hf => ⟨hf.rq, hf.pq, fun ps hps => hfills ps (List.mem_cons_of_mem _ hps)⟩⟩
    exact hpop.trans (prefetchLines_still (hfills ps (List.mem_cons_self ..)) h)

theorem prefetchLine_keeps {cpu i : Nat} {p : PrefetchLine} (hi : (l.pq.entryAt i).address ≠ 0)
    (h : l.prefetchLine clk cpu p = .ok l') : Keeps i l l' := by
  unfold prefetchLine at h
  split at h
  · cases ha : l.addPq clk _ with
    | error e =>
        rw [ha] at h
        cases h
    | ok r =>
        rw [ha] at h
        cases h
        exact addPq_keeps hi ha
  · cases h
    exact ⟨rfl, rfl⟩

theorem prefetchLines_keeps {cpu i : Nat} {ps : List PrefetchLine}
    (hi : (l.pq.entryAt i).address ≠ 0) (h : prefetchLines clk cpu ps l = .ok l') :
    Keeps i l l' := by
  induction ps generalizing l with
  | nil =>
      cases h
      exact ⟨rfl, rfl⟩
  | cons p ps ih =>
      obtain ⟨l₁, h₁, h₂⟩ := bind_ok h
      have hone := prefetchLine_keeps hi h₁
      have hrest := ih (by rw [hone.1]; exact hi) h₂
      exact ⟨hrest.1.trans hone.1, hrest.2.trans hone.2⟩

theorem operateOnPrefetch_keeps {i : Nat} {e : CachePacket} (hi : (l.pq.entryAt i).address ≠ 0)
    (h : l.operateOnPrefetch clk e = .ok l') : Keeps i l l' := by
  unfold operateOnPrefetch at h
  split at h
  · unfold callPrefetcher at h
    split at h
    · cases h
      exact ⟨rfl, rfl⟩
    · rename_i ps rest _
      exact prefetchLines_keeps (l := { l with prefetcher := rest }) hi h
  · cases h
    exact ⟨rfl, rfl⟩

theorem operateOnRead_still {e : CachePacket} (hf : l.Fed)
    (h : l.operateOnRead clk e = .ok l') : Still l l' := by
  unfold operateOnRead at h
  split at h
  · exact callPrefetcher_still hf h
  · cases h
    exact .refl l

theorem operateOnPrefetch_still {e : CachePacket} (hf : l.Fed)
    (h : l.operateOnPrefetch clk e = .ok l') : Still l l' := by
  unfold operateOnPrefetch at h
  split at h
  · exact callPrefetcher_still hf h
  · cases h
    exact .refl l

theorem removeRead_still {i : Nat} (h : l.removeRead i = .ok l') : Still l l' := by
  obtain ⟨q, hq, h⟩ := bind_ok h
  cases h
  exact ⟨rfl, rfl, fun hf => ⟨mem_removeFrom hf.rq (by simp) hq, hf.pq, hf.prefetcher⟩⟩

theorem removePrefetch_still {i : Nat} (h : l.removePrefetch i = .ok l') : Still l l' := by
  obtain ⟨q, hq, h⟩ := bind_ok h
  cases h
  exact ⟨rfl, rfl, fun hf => ⟨hf.rq, mem_removeFrom hf.pq (by simp) hq, hf.prefetcher⟩⟩

theorem readHit_still {i way : Nat} (hf : l.Fed) (h : l.readHit clk i way = .ok l') :
    Still l l' := by
  obtain ⟨l₁, h₁, h⟩ := bind_ok h
  obtain ⟨l₂, h₂, h⟩ := bind_ok h
  exact (((operateOnRead_still hf h₁).trans (llcUpdateReplacementState_still h₂)).trans (returnUpper_still ..)).trans
    (removeRead_still h)

theorem readMissHandled_still {i : Nat} (hf : l.Fed) (h : l.readMissHandled clk i = .ok l') :
    Still l l' := by
  obtain ⟨l₁, h₁, h⟩ := bind_ok h
  exact (operateOnRead_still hf h₁).trans (removeRead_still h)

theorem prefetchHit_still {i way : Nat} (hf : l.Fed) (h : l.prefetchHit clk i way = .ok l') :
    Still l l' := by
  obtain ⟨l₁, h₁, h⟩ := bind_ok h
  obtain ⟨l₂, h₂, h⟩ := bind_ok h
  have hs₁ := llcUpdateReplacementState_still h₁
  exact ((hs₁.trans (operateOnPrefetch_still (hs₁.fed hf) h₂)).trans (returnUpper_still ..)).trans
    (removePrefetch_still h)

theorem writebackHit_still {i way : Nat} (h : l.writebackHit i way = .ok l') : Still l l' := by
  obtain ⟨l₁, h₁, h⟩ := bind_ok h
  obtain ⟨q, -, h⟩ := bind_ok h
  cases h
  exact (((llcUpdateReplacementState_still h₁).trans (markDirty_still ..)).trans
    (returnUpper_still ..)).trans (.of_queues rfl rfl rfl rfl rfl)

theorem finishWriteback_still {i set way : Nat} (hf : l.Fed)
    (h : l.finishWriteback clk i set way = .ok l') : Still l l' := by
  obtain ⟨l₁, h₁, h⟩ := bind_ok h
  obtain ⟨l₂, h₂, h⟩ := bind_ok h
  obtain ⟨q, -, h⟩ := bind_ok h
  cases h
  exact (((((callPrefetcher_still hf h₁).trans (llcUpdateReplacementState_still h₂)).trans
    (fillCache_still ..)).trans (markDirty_still ..)).trans (returnUpper_still ..)).trans
      (.of_queues rfl rfl rfl rfl rfl)

end Frames

/-! ## What a call does -/

/-- The line of the read that an operation asks the manager for. -/
def asked : Option LowerOp → Multiset Nat
  | some (.op (.addRq pkt)) => {pkt.address}
  | _ => 0

/-- What a call does to the MSHR, and what it asks of the manager. -/
inductive Move (l : Llc) : Llc → Option LowerOp → Prop
  | still {l' : Llc} {op : Option LowerOp} (h : Still l l') (hop : asked op = 0) : Move l l' op
  | miss {l₁ : Llc} {e : CachePacket} (h : Still l l₁) (he : e.address ≠ 0)
      (hnew : l.mshr.checkMshr e.address = none) (hroom : l.mshr.occupancy < llcMshrSize) :
      Move l { l₁ with mshr := l₁.mshr.addMshr e } (some (.op (.addRq e.toPacket)))
  | merge {j : Nat} {m : CachePacket} (ha : m.address = (l.mshr.entryAt j).address)
      (hr : m.returned = (l.mshr.entryAt j).returned) :
      Move l { l with mshr := l.mshr.setEntry j m } none
  | fill {l₁ : Llc} {i : Nat} {q : CacheQueue} (h : Still l l₁)
      (hc : (l.mshr.entryAt i).returned = .completed) (hq : l.mshr.removeQueue i = some q) :
      Move l { l₁ with mshr := q.updateFillCycle } none

/-- The MSHR keeps its order, and awaits what is asked for. -/
theorem Move.sound {l l' : Llc} {op : Option LowerOp} (h : Move l l' op) (hm : l.mshr.MshrOk)
    (hf : l.Fed) : l'.mshr.MshrOk ∧ l'.Fed ∧ l'.reads = l.reads ∧
      l'.mshr.awaited = asked op + l.mshr.awaited := by
  cases h with
  | still h hop => exact ⟨h.mshr ▸ hm, h.fed hf, h.reads, by rw [h.mshr, hop, zero_add]⟩
  | @miss l₁ e h he hnew hroom =>
      obtain ⟨hok, haw, -⟩ := hm.addMshr he hnew hroom
      have hfed := h.fed hf
      refine ⟨?_, ⟨hfed.rq, hfed.pq, hfed.prefetcher⟩, h.reads, ?_⟩
      · rw [h.mshr]
        exact hok
      · rw [h.mshr]
        exact haw
  | merge ha hr =>
      obtain ⟨hok, haw, -⟩ := hm.merge ha hr
      exact ⟨hok, ⟨hf.rq, hf.pq, hf.prefetcher⟩, rfl, by rw [haw]; exact (zero_add _).symm⟩
  | fill h hc hq =>
      obtain ⟨hok, haw⟩ := hm.remove hc hq
      have hfed := h.fed hf
      refine ⟨hok, ⟨hfed.rq, hfed.pq, hfed.prefetcher⟩, h.reads, ?_⟩
      rw [CacheQueue.updateFillCycle_awaited, haw]
      exact (zero_add _).symm

/-- A fill that is under way has a completed entry, and a prefetch from
above fills the cache. -/
def Ready (l : Llc) : LlcCall → Prop
  | .finishFill i _ _ => (l.mshr.entryAt i).returned = .completed
  | .addPq pkt => pkt.fillLevel ≤ fillLlc
  | _ => True

/-- Every call that is ready in any state. -/
def plain : LlcCall → Bool
  | .finishFill .. | .addPq _ => false
  | _ => true

theorem Ready.of_plain {l : Llc} {c : LlcCall} (h : plain c = true) : Ready l c := by
  cases c <;> first | (cases h; done) | trivial

/-- A call leaves at most one other, which is ready. -/
def Leaves (l : Llc) (ks : List LlcCall) : Prop := ks.tail = [] ∧ ∀ c ∈ ks, Ready l c

theorem leaves_nil (l : Llc) : Leaves l [] := ⟨rfl, by simp⟩

theorem leaves_one {l : Llc} {c : LlcCall} (h : plain c = true) : Leaves l [c] :=
  ⟨rfl, by simpa using Ready.of_plain h⟩

section Calls

variable {l l' : Llc} {s : Sys} {op : Option LowerOp} {ks : List LlcCall}

theorem evict_asked {victim : Block} {cpu instrId : Nat} (h : evict s victim cpu instrId = some op) :
    asked op = 0 := by
  unfold evict at h
  split at h
  · split at h
    · cases h
    · cases h
      rfl
  · cases h
    rfl

theorem removeMshr_move {l₁ : Llc} {i : Nat} (h₁ : Still l l₁)
    (hc : (l.mshr.entryAt i).returned = .completed) (h : l₁.removeMshr i = .ok l') :
    Move l l' none := by
  obtain ⟨q, hq, h⟩ := bind_ok h
  cases h
  unfold removeFrom at hq
  split at hq
  · rename_i q' hq'
    cases hq
    rw [h₁.mshr] at hq'
    exact .fill h₁ hc hq'
  · cases hq

/-- The entry to fill next is completed when its cycle has come. -/
theorem handleFill_completed (hm : l.mshr.MshrOk) {cpu : Nat}
    (h : l.mshr.nextFillCycle ≤ s.now cpu) :
    (l.mshr.entryAt l.mshr.nextFillIndex).returned = .completed := by
  rcases hm.next with hn | hn
  · have := s.clock.cycle_lt cpu
    rw [hn] at h
    exact absurd h (not_le.mpr this)
  · exact hn

theorem handleFill_move (hm : l.mshr.MshrOk) (h : l.handleFill s = .ok (l', op, ks)) :
    Move l l' op ∧ Leaves l' ks := by
  have hidle : Move l l none ∧ Leaves l [] := ⟨.still (.refl l) rfl, leaves_nil l⟩
  unfold handleFill at h
  dsimp only at h
  split at h
  · cases h
    exact hidle
  split at h
  · rename_i hcycle
    have hc := handleFill_completed hm hcycle
    split at h
    · cases h
    split at h
    · cases h
    · split at h
      · split at h
        · cases h
        · rename_i l₁ hby
          cases h
          obtain ⟨l₂, h₂, h₃⟩ := bind_ok hby
          exact ⟨removeMshr_move ((llcUpdateReplacementState_still h₂).trans (returnUpper_still ..)) hc h₃,
            leaves_nil _⟩
      · split at h
        · cases h
          exact ⟨.still (.refl l) rfl, leaves_nil l⟩
        · rename_i hev
          cases h
          exact ⟨.still (.refl l) (evict_asked hev), rfl, by simpa [Ready] using hc⟩
  · cases h
    exact hidle

theorem finishFill_move {i set way : Nat} {clk : Clock} (hf : l.Fed)
    (hc : (l.mshr.entryAt i).returned = .completed)
    (h : l.finishFill clk i set way = .ok l') : Move l l' none := by
  obtain ⟨l₁, h₁, h⟩ := bind_ok h
  obtain ⟨l₂, h₂, h⟩ := bind_ok h
  exact removeMshr_move ((((callPrefetcher_still hf h₁).trans
    (llcUpdateReplacementState_still h₂)).trans (fillCache_still ..)).trans (returnUpper_still ..)) hc h

theorem handleWriteback_move (h : l.handleWriteback s = .ok (l', op, ks)) :
    Move l l' op ∧ Leaves l' ks := by
  have hidle : Move l l none ∧ Leaves l [] := ⟨.still (.refl l) rfl, leaves_nil l⟩
  unfold handleWriteback at h
  dsimp only at h
  split at h
  · cases h
    exact hidle
  split at h
  · split at h
    · split at h
      · cases h
      · rename_i hhit
        cases h
        exact ⟨.still (writebackHit_still hhit) rfl, leaves_nil _⟩
    · split at h
      · cases h
      · split at h
        · cases h
        · split at h
          · cases h
            exact ⟨.still (.refl l) rfl, leaves_nil l⟩
          · rename_i hev
            cases h
            exact ⟨.still (.refl l) (evict_asked hev), leaves_one rfl⟩
  · cases h
    exact hidle

theorem nextRead_move {l₁ : Llc} {left : Nat} (h₁ : Still l l₁)
    (h : l₁.nextRead left = .ok (l', op, ks)) : Move l l' op ∧ Leaves l' ks := by
  cases h
  refine ⟨.still h₁ rfl, ?_⟩
  split
  · exact leaves_nil _
  · exact leaves_one rfl

theorem nextPrefetch_move {l₁ : Llc} {left : Nat} (h₁ : Still l l₁)
    (h : l₁.nextPrefetch left = .ok (l', op, ks)) : Move l l' op ∧ Leaves l' ks := by
  cases h
  refine ⟨.still h₁ rfl, ?_⟩
  split
  · exact leaves_nil _
  · exact leaves_one rfl

/-- A read that merges keeps the entry's address and state. -/
theorem mergeRead_move {e : CachePacket} {j : Nat} (h : l.mshr.checkMshr e.address = some j) :
    Move l (l.mergeRead e j) none := by
  have hmark : ∀ m : CachePacket, (m.markConsumer e).address = m.address ∧
      (m.markConsumer e).returned = m.returned := by
    intro m
    unfold CachePacket.markConsumer
    split
    · exact ⟨rfl, rfl⟩
    · split <;> exact ⟨rfl, rfl⟩
  have hrequest : ∀ m : CachePacket, m.address = e.address →
      (m.updateRequest e).address = m.address ∧ (m.updateRequest e).returned = m.returned := by
    intro m hm
    unfold CachePacket.updateRequest
    split
    · exact ⟨hm.symm, rfl⟩
    · exact ⟨rfl, rfl⟩
  have haddr := (CacheQueue.checkMshr_some h).2
  have hm := hmark (l.mshr.entryAt j)
  have hr := hrequest (((l.mshr.entryAt j).markConsumer e).updateFill e) (hm.1.trans haddr)
  exact .merge (hr.1.trans hm.1) (hr.2.trans hm.2)

theorem handleRead_move {left : Nat} (hf : l.Fed) (h : l.handleRead s left = .ok (l', op, ks)) :
    Move l l' op ∧ Leaves l' ks := by
  have hidle : Move l l none ∧ Leaves l [] := ⟨.still (.refl l) rfl, leaves_nil l⟩
  cases left with
  | zero =>
      cases h
      exact hidle
  | succ left =>
      unfold handleRead at h
      dsimp only at h
      split at h
      · cases h
        exact hidle
      rename_i hcpu
      split at h
      · split at h
        · split at h
          · cases h
          · rename_i hhit
            exact nextRead_move (readHit_still hf hhit) h
        · split at h
          · rename_i hj
            cases h
            exact ⟨mergeRead_move hj, leaves_one rfl⟩
          · rename_i hnew
            split at h
            · rename_i hroom
              split at h
              · exact nextRead_move (.refl l) h
              · cases h
                exact ⟨.miss (.refl l) (entryAt_ok hf.rq _ hcpu) hnew hroom, leaves_one rfl⟩
            · split at h
              · exact nextRead_move (.refl l) h
              · cases h
      · cases h
        exact hidle

theorem prefetchMiss_move {i left : Nat} {clk : Clock} (hf : l.Fed)
    (hcpu : (l.pq.entryAt i).cpu ≠ numCpus)
    (hnew : l.mshr.checkMshr (l.pq.entryAt i).address = none)
    (hroom : l.mshr.occupancy < llcMshrSize) (h : l.prefetchMiss clk i left = .ok (l', op, ks)) :
    Move l l' op ∧ Leaves l' ks := by
  unfold prefetchMiss at h
  split at h
  · cases h
  rename_i l₁ hop
  have hstill := operateOnPrefetch_still hf hop
  have haddr := (entryAt_ok hf.pq i hcpu).1
  have hkeep := operateOnPrefetch_keeps haddr hop
  obtain ⟨haddr₁, hlevel⟩ := entryAt_ok (hstill.fed hf).pq i (by rw [hkeep.2]; exact hcpu)
  dsimp only at h
  rw [if_pos hlevel] at h
  cases h
  exact ⟨.miss hstill haddr₁ (by rw [hkeep.1]; exact hnew) hroom, leaves_one rfl⟩

theorem handlePrefetch_move {left : Nat} (hf : l.Fed)
    (h : l.handlePrefetch s left = .ok (l', op, ks)) : Move l l' op ∧ Leaves l' ks := by
  have hidle : Move l l none ∧ Leaves l [] := ⟨.still (.refl l) rfl, leaves_nil l⟩
  cases left with
  | zero =>
      cases h
      exact hidle
  | succ left =>
      unfold handlePrefetch at h
      dsimp only at h
      split at h
      · cases h
        exact hidle
      rename_i hcpu
      split at h
      · split at h
        · split at h
          · cases h
          · rename_i hhit
            exact nextPrefetch_move (prefetchHit_still hf hhit) h
        · split at h
          · rename_i hj
            cases h
            exact ⟨.merge rfl rfl, leaves_one rfl⟩
          · rename_i hnew
            split at h
            · rename_i hroom
              split at h
              · exact nextPrefetch_move (.refl l) h
              · exact prefetchMiss_move hf hcpu hnew hroom h
            · split at h
              · exact nextPrefetch_move (.refl l) h
              · cases h
      · cases h
        exact hidle

/-- **One call of the cache.** -/
theorem exec_move {c : LlcCall} (hm : l.mshr.MshrOk) (hf : l.Fed) (hready : Ready l c)
    (h : l.exec c s = .ok (l', op, ks)) : Move l l' op ∧ Leaves l' ks := by
  cases c with
  | addRq pkt =>
      obtain ⟨r, hr, h⟩ := bind_ok h
      cases h
      exact ⟨.still (addRq_still hr) rfl, leaves_nil _⟩
  | addWq pkt =>
      obtain ⟨r, hr, h⟩ := bind_ok h
      cases h
      exact ⟨.still (addWq_still hr) rfl, leaves_nil _⟩
  | addPq pkt =>
      obtain ⟨r, hr, h⟩ := bind_ok h
      cases h
      exact ⟨.still (addPq_still hready hr) rfl, leaves_nil _⟩
  | handleFill => exact handleFill_move hm h
  | finishFill i set way =>
      obtain ⟨r, hr, h⟩ := bind_ok h
      cases h
      exact ⟨finishFill_move hf hready hr, leaves_nil _⟩
  | handleWriteback => exact handleWriteback_move h
  | finishWriteback i set way =>
      obtain ⟨r, hr, h⟩ := bind_ok h
      cases h
      exact ⟨.still (finishWriteback_still hf hr) rfl, leaves_nil _⟩
  | startReads =>
      cases h
      exact ⟨.still (.of_queues rfl rfl rfl rfl rfl) rfl, leaves_one rfl⟩
  | handleRead left => exact handleRead_move hf h
  | readMissHandled i left =>
      obtain ⟨r, hr, h⟩ := bind_ok h
      exact nextRead_move (readMissHandled_still hf hr) h
  | startPrefetches =>
      cases h
      refine ⟨.still (.refl l) rfl, ?_⟩
      split
      · exact leaves_one rfl
      · exact leaves_nil _
  | handlePrefetch left => exact handlePrefetch_move hf h
  | prefetchMissHandled i left =>
      obtain ⟨r, hr, h⟩ := bind_ok h
      exact nextPrefetch_move (removePrefetch_still hr) h

end Calls

end Llc

end DramCache
