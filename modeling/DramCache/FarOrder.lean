import DramCache.Pairing
import DramCache.WriteBack

/-!
# Fetches and write-backs on the far side

A far read may overtake a write-back of its line that is still in WB: WB is
drained one entry a cycle and nothing looks into it. It overtakes none that
was handed over before it. With link latency far memory takes packets in
the order they were handed over; without it a write-back is handed over
only when far memory takes it, and none ever waits.
-/

namespace DramCache

open Worklist (ReachesIf Reaches)

/-- The link latency is set before the run, as `main` does. -/
def Op.FixedLink : Op → Prop
  | .setLinkLatency _ => False
  | _ => True

/-- Far memory accepts a read of a line in this step. -/
def Sys.AcceptsFetch (s s' : Sys) (a : Nat) : Prop :=
  ∃ pkt o, s'.dcm.sends = s.dcm.sends ++ [⟨.far, pkt, false, o⟩] ∧
    (Send.mk .far pkt false o).accepted = true ∧ pkt.address = a

theorem Sys.AcceptsFetch.taken {s s' : Sys} {a : Nat} (h : s.AcceptsFetch s' a) :
    taken .far s'.dcm.sends = taken .far s.dcm.sends ++ [(a, false)] := by
  obtain ⟨pkt, o, hsends, hacc, rfl⟩ := h
  rw [hsends, taken_concat hacc]
  rfl

/-! ## Positions in the log -/

/-- The hand-over a list of them points at. -/
theorem handed_split {log : List Event} {l₁ l₂ : List Parcel} {p : Parcel}
    (h : handed .far log = l₁ ++ p :: l₂) : ∃ pre r pkt post,
      log = pre ++ .handFar r pkt p.2 :: post ∧ pkt.address = p.1 ∧ handed .far pre = l₁ := by
  obtain ⟨pre, rest, rfl, hpre, hrest⟩ := List.filterMap_eq_append_iff.mp h
  obtain ⟨mid, ev, post, rfl, hmid, hev, -⟩ := List.filterMap_eq_cons_iff.mp hrest
  have hsilent : handed .far mid = [] := List.filterMap_eq_nil_iff.mpr hmid
  have hfirst : handed .far (pre ++ mid) = l₁ := by
    rw [handed_append, hsilent, List.append_nil]
    exact hpre
  cases ev with
  | handFar r pkt w =>
      obtain rfl : (pkt.address, w) = p := by simpa [Event.handed?] using hev
      exact ⟨pre ++ mid, r, pkt, post, (List.append_assoc ..).symm, rfl, hfirst⟩
  | _ => cases hev

/-- The occurrence of an element with a given number of others before
it. -/
theorem split_at_count {α : Type*} [BEq α] [LawfulBEq α] {a : α} : ∀ {l : List α} {n : Nat},
    n < l.count a → ∃ l₁ l₂, l = l₁ ++ a :: l₂ ∧ l₁.count a = n
  | [], n, h => by simp at h
  | b :: l, n, h => by
      rcases Classical.em (b = a) with hb | hb
      · subst hb
        cases n with
        | zero => exact ⟨[], l, rfl, rfl⟩
        | succ n =>
            rw [List.count_cons_self] at h
            obtain ⟨l₁, l₂, rfl, hn⟩ := split_at_count (l := l) (Nat.lt_of_succ_lt_succ h)
            exact ⟨b :: l₁, l₂, rfl, by rw [List.count_cons_self, hn]⟩
      · rw [List.count_cons_of_ne hb] at h
        obtain ⟨l₁, l₂, rfl, hn⟩ := split_at_count (l := l) h
        exact ⟨b :: l₁, l₂, rfl, by rw [List.count_cons_of_ne hb, hn]⟩

/-! ## One link latency throughout -/

section Run

variable {allow : Op → Prop} {ok : Worklist.Config Sys Call → Prop} {s₀ : Sys}
  {x : Worklist.Config Sys Call}

theorem link_of_reaches (hallow : ∀ op, allow op → op.Roi ∧ op.FixedLink)
    (h : ReachesIf machine allow ok s₀ x) :
    x.2.dcm.linkLatencyCycles = s₀.dcm.linkLatencyCycles := by
  refine ReachesIf.invariant
    (P := fun x => x.2.dcm.linkLatencyCycles = s₀.dcm.linkLatencyCycles) rfl ?_ ?_ h
  · intro op s ha _ _ hp
    have hop := (hallow op ha).2
    have hlink : (s.enter op).1.dcm.linkLatencyCycles = s.dcm.linkLatencyCycles := by
      have := congrArg Prod.fst (enter_latencies s op)
      cases op with
      | setLinkLatency n => cases hop
      | _ => exact this
    exact hlink.trans hp
  · intro c K s s' ks _ _ hp he
    have hlink : s'.dcm.linkLatencyCycles = s.dcm.linkLatencyCycles :=
      congrArg Prod.fst (Sys.exec_frontStep he).latencies
    exact hlink.trans hp

end Run

/-! ## Without latency no write-back waits -/

namespace Sys

theorem writes_tail {p : Packet × Bool} {l : List (Packet × Bool)}
    (h : writes (parcels (p :: l)) = []) : writes (parcels l) = [] := by
  have happend : writes (parcels (p :: l)) = writes (parcels [p]) ++ writes (parcels l) :=
    writes_append (parcels [p]) (parcels l)
  rw [happend] at h
  exact (List.append_eq_nil_iff.mp h).2

theorem live_writes {s : Sys} (h : s.dcm.pendingWrites = []) (k : Option Call) :
    writes (parcels (s.live k .far)) = [] := by
  unfold live
  split
  · rw [Manager.pendingWrites] at h
    cases hl : s.dcm.pending .far with
    | nil => rfl
    | cons p l =>
        rw [hl] at h
        exact writes_tail h
  · exact h

theorem Dispatched.pendingWrites {s s' : Sys} {side : Side} {pkt : Packet} {w : Bool}
    {ks : List Call} (hd : Dispatched s side pkt w s' ks) (hw : side = .far → w = false) :
    s'.dcm.pendingWrites = s.dcm.pendingWrites := by
  unfold Manager.pendingWrites
  cases hd with
  | sent _ _ hpend => rw [hpend]
  | queued _ hpend hother _ =>
      cases side with
      | near => rw [hother .far (by simp)]
      | far =>
          obtain rfl := hw rfl
          rw [hpend, parcels, List.map_append]
          exact (writes_append ..).trans (List.append_nil _)

theorem CallStep.pendingWrites {s s' : Sys} {c : Call} {ks : List Call}
    (hstep : CallStep s c s' ks) (hlink : s.dcm.linkLatencyCycles = 0)
    (h : s.dcm.pendingWrites = []) : s'.dcm.pendingWrites = [] := by
  have hsame : s'.dcm.pending .far = s.dcm.pending .far → s'.dcm.pendingWrites = [] := fun hp => by
    rw [Manager.pendingWrites, hp]
    exact h
  have hwrites : s'.dcm.pendingWrites = s.dcm.pendingWrites → s'.dcm.pendingWrites = [] :=
    fun hp => hp.trans h
  cases hstep with
  | core _ ht => exact hsame (ht.pending .far)
  | drive hd =>
      cases hd with
      | idle => exact h
      | readNear _ _ _ _ hd => exact hwrites (hd.pendingWrites (by simp))
      | readFar _ _ _ _ hd => exact hwrites (hd.pendingWrites fun _ => rfl)
      | writeNear _ _ _ _ hd => exact hwrites (hd.pendingWrites (by simp))
  | fill _ hd => exact hwrites (hd.pendingWrites (by simp))
  | kept _ ht => exact hsame (ht.pending .far)
  | drained _ _ _ hpend => exact hsame (hpend hlink .far)
  | released side _ hr =>
      cases hr with
      | kept _ hpend => exact hsame (hpend .far)
      | sent _ hpend => exact hsame (hpend .far)
  | popped side _ _ hpend hother =>
      cases side with
      | near => exact hsame (hother .far (by simp))
      | far =>
          rw [Manager.pendingWrites] at h
          rw [Manager.pendingWrites, hpend]
          cases hl : s.dcm.pending .far with
          | nil => rfl
          | cons p l =>
              rw [hl] at h
              exact writes_tail h
  | served _ hdcm => exact hsame (by rw [hdcm])
  | finished hdcm => exact hsame (by rw [hdcm])
  | readDone hdcm => exact hsame (by rw [hdcm])

end Sys

section Run

variable {allow : Op → Prop} {ok : Worklist.Config Sys Call → Prop} {s₀ : Sys}
  {x : Worklist.Config Sys Call}

theorem pendingWrites_of_reaches (hallow : ∀ op, allow op → op.Roi ∧ op.FixedLink)
    (h₀ : s₀.Fresh) (hlink : s₀.dcm.linkLatencyCycles = 0)
    (h : ReachesIf machine allow ok s₀ x) : x.2.dcm.pendingWrites = [] := by
  have hroi : ∀ op, allow op → op.Roi := fun op ha => (hallow op ha).1
  refine system_invariant hroi h₀ (P := fun _ s => s.dcm.pendingWrites = []) ?_ ?_ ?_ h
  · rw [Manager.pendingWrites, Manager.pending, h₀.far]
    rfl
  · intro op s s' ks _ _ hstep hp
    rw [Manager.pendingWrites, hstep.calm.1]
    exact hp
  · intro c K s s' ks _ hr _ hstep hp
    exact hstep.pendingWrites ((link_of_reaches hallow hr).trans hlink) hp

/-- **A fetch overtakes no write-back of its line that left WB before it.**
When far memory accepts a read of a line, take the hand-over it answers:
there were as many reads of the line handed over before as far memory
accepted before. As many write-backs of the line as had been handed over
then have been accepted. -/
theorem fetch_after_write_backs (hallow : ∀ op, allow op → op.Roi ∧ op.FixedLink)
    (h₀ : s₀.Fresh) {c : Call} {K ks : List Call} {s s' : Sys} {a : Nat}
    (hr : Reaches machine allow s₀ (c :: K, s)) (he : s.exec c = .ok (s', ks))
    (hacc : s.AcceptsFetch s' a) :
    ∃ pre r pkt post, s'.dcm.log = pre ++ .handFar r pkt false :: post ∧ pkt.address = a ∧
      (handed .far pre).count (a, false) = (taken .far s.dcm.sends).count (a, false) ∧
      (drainedLines pre).count a ≤ s'.dcm.written.count a := by
  have hroi : ∀ op, allow op → op.Roi := fun op ha => (hallow op ha).1
  have hr' : Reaches machine allow s₀ (ks ++ K, s') := hr.call trivial he
  have htaken := hacc.taken
  by_cases hlink : s₀.dcm.linkLatencyCycles = 0
  · -- nothing handed over waits, so all of it has been accepted
    have hperm := delivered_of_reaches hroi h₀ hr' .far
    have hfetch : (taken .far s.dcm.sends).count (a, false)
        < (handed .far s'.dcm.log).count (a, false) := by
      have hcount : (handed .far s'.dcm.log).count (a, false)
          = (s'.inbound (hook (ks ++ K)) .far).count (a, false) := hperm.count_eq _
      rw [hcount, Sys.inbound, htaken, List.count_append, List.count_append,
        List.count_singleton_self]
      omega
    obtain ⟨l₁, l₂, hsplit, hbefore⟩ := split_at_count hfetch
    obtain ⟨pre, r, pkt, post, hlog, haddr, hpre⟩ := handed_split hsplit
    refine ⟨pre, r, pkt, post, hlog, haddr, by rw [hpre, hbefore], ?_⟩
    have hnone : writes (parcels (s'.live (hook (ks ++ K)) .far)) = [] :=
      Sys.live_writes (pendingWrites_of_reaches hallow h₀ hlink hr') _
    have hdrained : (drainedLines s'.dcm.log).Perm s'.dcm.written := by
      have hwrites := (hperm.filter fun p => p.2).map fun p => p.1
      have happend : writes (s'.inbound (hook (ks ++ K)) .far) = s'.dcm.written :=
        (writes_append ..).trans (by rw [hnone]; exact List.append_nil _)
      rw [drainedLines_eq]
      exact happend ▸ hwrites
    rw [← hdrained.count_eq, hlog, drainedLines_append, List.count_append]
    exact Nat.le_add_right ..
  · -- far memory takes packets in the order they were handed over
    have hdirect : ∀ y, Reaches machine allow s₀ y → y.2.Direct .far →
        y.2.live (hook y.1) .far = [] :=
      fun y hy h0 => absurd ((link_of_reaches hallow hy).symm.trans h0) hlink
    have horder : handed .far s'.dcm.log = s'.inbound (hook (ks ++ K)) .far :=
      ordered_of_reaches hroi h₀ hdirect hr'
    rw [Sys.inbound, htaken, List.append_assoc] at horder
    obtain ⟨pre, r, pkt, post, hlog, haddr, hpre⟩ := handed_split horder
    refine ⟨pre, r, pkt, post, hlog, haddr, by rw [hpre], ?_⟩
    rw [drainedLines_eq, hpre, Manager.written, htaken, writes_append, List.count_append]
    exact Nat.le_add_right ..

end Run

/-! ## Fetches in computed runs -/

/-- Operations of a run the order on the far side is about. -/
def Op.Ordered (op : Op) : Prop := op.Roi ∧ op.Nonzero ∧ op.SingleFlag ∧ op.FixedLink

theorem Op.ordered_read {a : Nat} (h : a ≠ 0) : (Op.addRq (.readOf a)).Ordered := by
  simp [Op.Ordered, Op.Roi, Op.Nonzero, Op.SingleFlag, Op.FixedLink, Op.request?,
    Packet.readOf, Packet.SingleFlag, h]

theorem Op.ordered_write {a : Nat} (h : a ≠ 0) : (Op.addWq (.readOf a)).Ordered := by
  simp [Op.Ordered, Op.Roi, Op.Nonzero, Op.SingleFlag, Op.FixedLink, Op.request?,
    Packet.readOf, h]

theorem Op.ordered_operate : Op.operate.Ordered := by
  simp [Op.Ordered, Op.Roi, Op.Nonzero, Op.SingleFlag, Op.FixedLink, Op.request?]

/-- What `driveState` of an address would do here: the sends it adds, and
whether it only adds. -/
def Sys.sendsOf (s : Sys) (a : Nat) : List Send × Bool :=
  ((s.driveState a).1.dcm.sends.drop s.dcm.sends.length,
    decide ((s.driveState a).1.dcm.sends.take s.dcm.sends.length = s.dcm.sends))

/-- A run, an operation and some of its calls lead to a fetch. -/
theorem fetch_of_run {α : Type*} (f : Sys → α) {v : α} (ops : List Op) (op : Op) (k : Nat)
    {a : Nat} {pkt : Packet} {o : AddOutcome} (hops : ∀ op ∈ ops, op.Ordered)
    (hop : op.Ordered) (hpkt : pkt.address = a)
    (hacc : (Send.mk .far pkt false o).accepted = true)
    (h : ((Worklist.drive machine 60 ops (.cold .baselineCascadeLake 0)).bind fun s =>
        (Worklist.advance machine k ((s.enter op).2, (s.enter op).1)).map fun x =>
          (x.1.head?, x.2.sendsOf a, f x.2))
      = some (some (.driveState a), ([⟨.far, pkt, false, o⟩], true), v)) :
    ∃ K s, Reaches machine Op.Ordered (.cold .baselineCascadeLake 0) (.driveState a :: K, s) ∧
      s.AcceptsFetch (s.driveState a).1 a ∧ f s = v := by
  obtain ⟨s₁, hs₁, h⟩ := Option.bind_eq_some_iff.mp h
  obtain ⟨⟨K, s⟩, hadv, h⟩ := Option.map_eq_some_iff.mp h
  simp only [Sys.sendsOf, Prod.mk.injEq, decide_eq_true_eq] at h
  obtain ⟨hhead, ⟨hnew, hold⟩, hv⟩ := h
  obtain ⟨K, rfl⟩ := List.head?_eq_some_iff.mp hhead
  have hr₁ := Worklist.drive_reaches hops .refl hs₁
  refine ⟨K, s, Worklist.advance_reaches (hr₁.enter hop trivial) hadv,
    ⟨pkt, o, ?_, hacc, hpkt⟩, hv⟩
  rw [← hnew]
  conv_lhs => rw [← List.take_append_drop s.dcm.sends.length (s.driveState a).1.dcm.sends, hold]

/-- A written line is written back before it is read again. -/
theorem fetch_after_write_backs_eviction :
    ∃ (s : Sys) (pre : List Event) (r : Option Nat) (pkt : Packet) (post : List Event),
      evictedLines s.dcm.log = [5] ∧
      (s.driveState 5).1.dcm.log = pre ++ .handFar r pkt false :: post ∧ pkt.address = 5 ∧
      (handed .far pre).count (5, false) = (taken .far s.dcm.sends).count (5, false) ∧
      (drainedLines pre).count 5 ≤ (s.driveState 5).1.dcm.written.count 5 := by
  have hops : ∀ op ∈ [Op.addWq (.readOf 5), .operate, .addRq (.readOf (5 + dcmNumLines)),
      .operate, .operate], op.Ordered := by
    simp [Op.ordered_read, Op.ordered_write, Op.ordered_operate]
  obtain ⟨K, s, hr, hacc, hev⟩ := fetch_of_run (fun s => evictedLines s.dcm.log) _ _ 2 hops
    (Op.ordered_read (a := 5) (by decide)) (o := .forwarded 0) (v := [5])
    (show ({ Packet.readOf 5 with eventCycle := 0 } : Packet).address = 5 from rfl) rfl
    (by decide +kernel)
  obtain ⟨pre, r, pkt, post, hlog⟩ :=
    fetch_after_write_backs (fun _ h => ⟨h.1, h.2.2.2⟩) (Sys.cold_fresh ..) hr rfl hacc
  exact ⟨s, pre, r, pkt, post, hev, hlog⟩

/-- A promoted read fetches the line whose write-back its predecessor has
just queued. -/
theorem fetch_overtakes_write_back :
    ∃ K s, Reaches machine (fun op => op.Roi ∧ op.Nonzero ∧ op.SingleFlag ∧ op.FixedLink)
        (.cold .baselineCascadeLake 0) (.driveState 5 :: K, s) ∧
      s.exec (.driveState 5) = .ok (s.driveState 5) ∧ s.AcceptsFetch (s.driveState 5).1 5 ∧
      evictedLines s.dcm.log = [5] ∧ (s.driveState 5).1.dcm.wbLines = [5] := by
  have hops : ∀ op ∈ [Op.addWq (.readOf 5), .operate, .addRq (.readOf (5 + dcmNumLines)),
      .addRq (.readOf 5)], op.Ordered := by
    simp [Op.ordered_read, Op.ordered_write, Op.ordered_operate]
  obtain ⟨K, s, hr, hacc, hev⟩ := fetch_of_run
    (fun s => (evictedLines s.dcm.log, (s.driveState 5).1.dcm.wbLines)) _ _ 12 hops
    Op.ordered_operate (o := .inserted) (v := ([5], [5]))
    (show ({ Packet.readOf 5 with eventCycle := 0 } : Packet).address = 5 from rfl) rfl
    (by decide +kernel)
  exact ⟨K, s, hr, rfl, hacc, (Prod.mk.inj hev).1, (Prod.mk.inj hev).2⟩

end DramCache
