import DramCache.Banks
import DramCache.Delivery
import DramCache.OpenSteps

/-!
# The order of dispatches, in every mode

`dispatchToNear` queues a packet behind those that wait, so near memory
takes packets in the order they were handed over (`near_in_order`).
`dispatchToFar` does not look at `pendingFarDispatches`: without link
latency a packet that far memory has room for is sent at once, past those
that wait (`far_passes_blocked`). Far memory keeps the order in the runs
where that does not happen (`far_in_order`).

A packet is seen without the cycle it is stamped with.
-/

namespace DramCache

open Worklist (ReachesIf Reaches)

namespace Sys

variable {α : Type*} {f : Packet → α} {s s' : Sys} {op : Op} {c : Call} {K ks : List Call}

/-- The warm-up hands nothing over. -/
theorem warmup_handedAs (hcalm : Calm s.dcm s'.dcm) (hlog : ∃ evs, s'.dcm.log = s.dcm.log ++ evs ∧
    ∀ ev ∈ evs, ev.isWarmup = true) (x : Side) :
    handedAs f x s'.dcm.log = handedAs f x s.dcm.log ∧
      s'.inboundAs f none x = s.inboundAs f none x := by
  obtain ⟨evs, hlog, hevs⟩ := hlog
  refine ⟨?_, inboundAs_congr f hcalm.2 (live_congr none (hcalm.1 x))⟩
  have hsilent : handedAs f x evs = [] := handedAs_silent fun ev hev => by
    have hwarm := hevs ev hev
    cases ev <;> first | rfl | cases hwarm
  rw [hlog, handedAs_append, hsilent, List.append_nil]

/-- What an operation hands over. -/
theorem OpenEnter.handedAs (hf : ∀ pkt, f (s.stamp pkt) = f pkt) (hstep : OpenEnter s op s' ks)
    (x : Side) : HandsOverAs f none (hook ks) s s' x := by
  have hhook := hstep.hook_eq
  cases hstep with
  | front h => exact .inl (h.handedAs x)
  | aside _ _ hcalm hlog => exact .inl (warmup_handedAs hcalm hlog x)
  | @bypass _ w pkt _ _ _ hcore hd =>
      rw [hhook]
      have hlog : s'.dcm.log = s.dcm.log ++ [.handFar none (s.stamp pkt) w] := by
        have hlog : s'.dcm.log = (s.dcm.core.bypass (s.stamp pkt) w).log := by
          rw [← hcore]
          rfl
        rw [hlog]
        cases w <;> rfl
      exact hd.handsOverAs hf (by simp) hlog (fun _ => rfl) x

end Sys

/-! ## Near memory -/

section Near

variable {near far : MemoryController} {clk : Clock} {frontend backend : Nat}
  {x : Worklist.Config Sys Call}

/-- **Near memory takes packets in the order they were handed over**, each
once: those it has taken and then those that wait are those handed over. -/
theorem near_in_order (hnear : near.Ok) (hfar : far.Ok)
    (h : Reaches machine (fun _ => True) (.boot near far clk frontend backend) x) :
    handedAs Packet.payload .near x.2.dcm.log
      = x.2.inboundAs Packet.payload (hook x.1) .near := by
  have hdirect : ∀ (k : Option Call) (s : Sys), s.Direct .near → s.live k .near = [] := by
    intro k s hpend
    have hpend : s.dcm.pending .near = [] := hpend
    unfold Sys.live
    rw [hpend]
    split <;> rfl
  refine (open_system_invariant (P := fun K s => handedAs Packet.payload .near s.dcm.log
    = s.inboundAs Packet.payload (hook K) .near) (Sys.boot_poised hnear hfar ..) rfl ?_ ?_ h).2
  · intro op s s' ks _ _ _ _ hstep hp
    rcases hstep.handedAs (f := Packet.payload) (fun _ => rfl) .near with ⟨hlog, hin⟩ | ⟨p, hlog, hjoins⟩
    · rw [hlog, hin]
      exact hp
    · rw [hlog, hp, hjoins.last (.inl (hdirect none s))]
      rfl
  · intro c K s s' ks _ _ hpoised hstep hp
    rcases hstep.handedAs (f := Packet.payload) (fun _ => rfl) hpoised .near with ⟨hlog, hin⟩ | ⟨p, hlog, hjoins⟩
    · rw [hlog, hin]
      exact hp
    · rw [hlog, hp, hjoins.last (.inl (hdirect _ s))]

/-- A read miss with a conflicting read behind it: a check, the fill, and
the next check. -/
theorem near_in_order_conflict :
    ∃ s, Worklist.drive machine 60 [.finishWarmup, .addRq (.readOf 7),
        .addRq (.readOf (7 + dcmNumLines)), .operate, .operate]
        (.boot (.new 0 0 0 0) (.new 0 0 0 0) .zero 0 0) = some s ∧
      handed .near s.dcm.log = [(7, false), (7 + dcmNumLines, false), (7, true),
        (7 + dcmNumLines, true)] ∧
      handedAs Packet.payload .near s.dcm.log = s.inboundAs Packet.payload none .near := by
  obtain ⟨s, hs, hlog⟩ := Option.map_eq_some_iff.mp (show (Worklist.drive machine 60
    [.finishWarmup, .addRq (.readOf 7), .addRq (.readOf (7 + dcmNumLines)), .operate, .operate]
    (.boot (.new 0 0 0 0) (.new 0 0 0 0) .zero 0 0)).map (fun s => handed .near s.dcm.log)
      = some [(7, false), (7 + dcmNumLines, false), (7, true), (7 + dcmNumLines, true)] from by
        decide +kernel)
  have hr : Reaches machine (fun _ => True) (.boot (.new 0 0 0 0) (.new 0 0 0 0) .zero 0 0)
      ([], s) := Worklist.drive_reaches (fun _ _ => trivial) .refl hs
  exact ⟨s, hs, hlog, near_in_order (MemoryController.new_ok ..) (MemoryController.new_ok ..) hr⟩

end Near

/-! ## Far memory -/

namespace Sys

/-- Whether a controller would take a packet: a read of a line that waits in
its read queue, and not in its write queue, merges and is not taken. -/
def takes (s : Sys) (side : Side) (pkt : Packet) (isWrite : Bool) : Bool :=
  !s.noRoom side isWrite && (isWrite || ((s.mc side).wq.checkDramQueue pkt).isSome
    || ((s.mc side).rq.checkDramQueue pkt).isNone)

/-- A packet handed over for far memory now is sent at once, past others that
wait for it. -/
def passesWaiting (h : Option Call) (s : Sys) (pkt : Packet) (isWrite : Bool) : Bool :=
  decide (s.dcm.linkLatencyCycles = 0) && !(s.live h .far).isEmpty && s.takes .far pkt isWrite

variable {s s' : Sys} {side : Side} {pkt : Packet} {w : Bool} {c : Call} {K ks : List Call}

theorem trySend_takes (hwarm : numCpus ≤ s.allWarmupComplete) (h : s.takes side pkt w = false) :
    (s.trySend side pkt w).2.1 = false := by
  have hpre : ¬ s.allWarmupComplete < numCpus := not_lt.mpr hwarm
  unfold trySend
  split
  · rfl
  · rename_i hroom
    rw [Bool.not_eq_true] at hroom
    simp only [takes, hroom, Bool.not_false, Bool.true_and, Bool.or_eq_false_iff,
      Option.isSome_eq_false_iff, Option.isNone_eq_false_iff, Option.isNone_iff_eq_none,
      Option.isSome_iff_exists] at h
    obtain ⟨⟨rfl, hwq⟩, i, hrq⟩ := h
    have hadd : (s.mc side).addRq (s.stamp pkt) = (s.mc side, .merged i) := by
      have hwq : (s.mc side).wq.checkDramQueue (s.stamp pkt) = none := hwq
      have hrq : (s.mc side).rq.checkDramQueue (s.stamp pkt) = some i := hrq
      rw [MemoryController.addRq, hwq]
      simp only [hrq]
    have hpos : (AddOutcome.merged i).returnValue ≥ 0 := by simp [AddOutcome.returnValue]
    change (s.sendRead side (s.stamp pkt)).2.1 = false
    simp only [sendRead, controllerAddRq, if_neg hpre, hadd, if_pos hpos]

/-- What is not taken at once is pending. -/
theorem dispatchToFarGuaranteed_waits (hwarm : numCpus ≤ s.allWarmupComplete)
    (hlink : s.dcm.linkLatencyCycles = 0) (h : s.takes .far pkt w = false) :
    (s.dispatchToFarGuaranteed pkt w).1.dcm.pending .far = s.dcm.pending .far ++ [(pkt, w)] := by
  have hsent := trySend_takes hwarm h
  have hpend := trySend_pending s .far pkt w .far
  unfold dispatchToFarGuaranteed dispatchToFar
  rw [if_pos hlink]
  generalize s.trySend .far pkt w = r at hsent hpend
  obtain ⟨s', ok, ks⟩ := r
  obtain rfl : ok = false := hsent
  rw [← hpend]
  simp [Manager.pending]

theorem driveState_waits (hwarm : numCpus ≤ s.allWarmupComplete)
    (hlink : s.dcm.linkLatencyCycles = 0) {a : Nat} {e : OrbEntry}
    (hl : s.dcm.orb.lookup a = some e) (hs : e.state = .farMemRead)
    (h : s.takes .far e.pkt false = false) :
    (s.driveState a).1.dcm.pending .far ≠ s.dcm.pending .far := by
  have hwaits : ((s.onDcm (·.readFar e (s.now e.pkt.cpu))).dispatchToFarGuaranteed
      (Manager.subRequest e .load (s.now e.pkt.cpu)) false).1.dcm.pending .far
      = s.dcm.pending .far ++ [(Manager.subRequest e .load (s.now e.pkt.cpu), false)] :=
    dispatchToFarGuaranteed_waits hwarm hlink h
  unfold driveState
  simp only [hl, hs]
  rw [hwaits]
  intro heq
  have hlen := congrArg List.length heq
  simp at hlen

theorem drainWB_waits (hwarm : numCpus ≤ s.allWarmupComplete)
    (hlink : s.dcm.linkLatencyCycles = 0) {front : WbEntry} {rest : List WbEntry}
    (hwb : s.dcm.wb = front :: rest) (h : s.takes .far front.pkt true = false) :
    s.drainWB.dcm.wb = s.dcm.wb := by
  have hsent := trySend_takes hwarm h
  have hcore := trySend_core s .far front.pkt true
  have hd : s.drainWB.dcm.core.wb = s.dcm.core.wb := by
    unfold drainWB dispatchToFar
    rw [hwb]
    simp only [if_pos hlink]
    generalize s.trySend .far front.pkt true = r at hsent hcore
    obtain ⟨s', ok, ks⟩ := r
    obtain rfl : ok = false := hsent
    exact congrArg Manager.wb hcore
  exact hd

/-- The condition on a call: it hands no packet over past others. -/
def keepsOrder (x : Worklist.Config Sys Call) : Bool :=
  match x.1 with
  | .driveState a :: _ =>
      match x.2.dcm.orb.lookup a with
      | some e => !(decide (e.state = .farMemRead) && x.2.passesWaiting (hook x.1) e.pkt false)
      | none => true
  | .drainWB :: _ =>
      match x.2.dcm.wb with
      | front :: _ => !x.2.passesWaiting (hook x.1) front.pkt true
      | [] => true
  | _ => true

/-- The packets for far memory stay in order. -/
def InOrder (h h' : Option Call) (s s' : Sys) : Prop :=
  (s.Direct .far → s.live h .far = []) ∨ s'.dcm.pending .far ≠ s.dcm.pending .far ∨
    handedAs Packet.payload .far s'.dcm.log = handedAs Packet.payload .far s.dcm.log ∧
      s'.inboundAs Packet.payload h' .far = s.inboundAs Packet.payload h .far

theorem HandsOverAs.inOrder {h h' : Option Call}
    (hh : HandsOverAs Packet.payload h h' s s' .far) (ho : InOrder h h' s s')
    (hp : handedAs Packet.payload .far s.dcm.log = s.inboundAs Packet.payload h .far) :
    handedAs Packet.payload .far s'.dcm.log = s'.inboundAs Packet.payload h' .far := by
  rcases hh with ⟨hlog, hin⟩ | ⟨p, hlog, hjoins⟩
  · rw [hlog, hin]
    exact hp
  · rcases ho with hdirect | hpend | ⟨hsame, -⟩
    · rw [hlog, hp, hjoins.last (.inl hdirect)]
    · rw [hlog, hp, hjoins.last (.inr hpend)]
    · have hlen := congrArg List.length (hlog.symm.trans hsame)
      simp at hlen

/-- A packet that passes none is the last. -/
theorem inOrder_of_waits {h h' : Option Call} (ho : s.passesWaiting h pkt w = false)
    (hwaits : s.dcm.linkLatencyCycles = 0 → s.takes .far pkt w = false →
      s'.dcm.pending .far ≠ s.dcm.pending .far) : InOrder h h' s s' := by
  by_cases hdirect : s.Direct .far → s.live h .far = []
  · exact .inl hdirect
  · obtain ⟨hlink, hlive⟩ := Classical.not_imp.mp hdirect
    have hlink : s.dcm.linkLatencyCycles = 0 := hlink
    have htakes : s.takes .far pkt w = false := by
      simpa [passesWaiting, hlink, hlive] using ho
    exact .inr (.inl (hwaits hlink htakes))

theorem callStep_inOrder (hk : keepsOrder (c :: K, s) = true) (ha : Awake (c :: K) s)
    (hp : Poised (c :: K) s) (hstep : CallStep s c s' ks) (he : s.exec c = .ok (s', ks)) :
    InOrder (hook (c :: K)) (hook (ks ++ K)) s s' := by
  have hsame : handedAs Packet.payload .far s'.dcm.log
      = handedAs Packet.payload .far s.dcm.log → InOrder (hook (c :: K)) (hook (ks ++ K)) s s' := by
    intro hlog
    rcases hstep.handedAs (f := Packet.payload) (fun _ => rfl) hp .far with hsame | ⟨p, hlog', -⟩
    · exact .inr (.inr hsame)
    · have hlen := congrArg List.length (hlog'.symm.trans hlog)
      simp at hlen
  have hlog : ∀ {m : Manager}, s'.dcm.core = m → s'.dcm.log = m.log := fun h => by
    rw [← h]
    rfl
  have hnear : ∀ {ev : Event}, s'.dcm.log = s.dcm.log ++ [ev] →
      ev.handedAs? Packet.payload .far = none →
      InOrder (hook (c :: K)) (hook (ks ++ K)) s s' := fun {ev} hlog hev => hsame <| by
    have hsilent : handedAs Packet.payload .far [ev] = [] :=
      handedAs_silent fun ev' hev' => List.mem_singleton.mp hev' ▸ hev
    rw [hlog, handedAs_append, hsilent, List.append_nil]
  cases hstep with
  | core hc _ _ hf =>
      obtain ⟨evs, hevs, hemit⟩ := hf.emits
      have hlog : s'.dcm.log = s.dcm.log ++ evs := hevs
      have hsilent : handedAs Packet.payload .far evs = [] :=
        handedAs_silent fun ev hev => handedAs_of_emits hc (hemit ev hev) .far
      exact hsame (by rw [hlog, handedAs_append, hsilent, List.append_nil])
  | @drive a _ _ hd =>
      cases hd with
      | idle => exact hsame rfl
      | readNear _ _ _ hcore => exact hnear (hlog hcore) rfl
      | @readFar e _ _ now hl hs =>
          have hwarm : numCpus ≤ s.allWarmupComplete :=
            ha.resolve_right fun hd => by cases (hd.lookup _).symm.trans hl
          have ho : s.passesWaiting (hook (.driveState a :: K)) e.pkt false = false := by
            simpa [keepsOrder, hl, hs] using hk
          refine inOrder_of_waits ho fun hlink htakes => ?_
          obtain ⟨rfl, -⟩ := ok_pair he
          exact driveState_waits hwarm hlink hl hs htakes
      | writeNear _ _ _ hcore => exact hnear (hlog hcore) rfl
  | fill hcore => exact hnear (hlog hcore) rfl
  | kept hcore => exact hsame (by rw [hlog hcore]; rfl)
  | @drained front rest _ hwb hcore =>
      have hwarm : numCpus ≤ s.allWarmupComplete :=
        ha.resolve_right fun hd => by cases hd.wb.symm.trans hwb
      have ho : s.passesWaiting (hook (.drainWB :: K)) front.pkt true = false := by
        simpa [keepsOrder, hwb] using hk
      refine inOrder_of_waits ho fun hlink htakes => ?_
      obtain ⟨rfl, -⟩ := ok_pair he
      have hstay := drainWB_waits hwarm hlink hwb htakes
      have hrest : s.drainWB.dcm.wb = s.dcm.wb.tail := congrArg Manager.wb hcore
      rw [hstay, hwb] at hrest
      have hlen := congrArg List.length hrest
      simp at hlen
  | released _ hcore => exact hsame (by rw [hlog hcore]; rfl)
  | popped _ hcore => exact hsame (by rw [hlog hcore]; rfl)
  | served _ hdcm => exact hsame (by rw [hdcm])
  | finished hdcm => exact hsame (by rw [hdcm])
  | readDone hdcm => exact hsame (by rw [hdcm])

end Sys

/-- The condition on an operation: in bypass mode it hands no packet over past
others. -/
def Op.keepsOrder (op : Op) (s : Sys) : Bool :=
  match op.request? with
  | some (w, pkt) => !(s.dcm.bypassDcache && s.passesWaiting none pkt w)
  | none => true

namespace Sys

theorem OpenEnter.inOrder {s s' : Sys} {op : Op} {ks : List Call} (hk : op.keepsOrder s = true)
    (hstep : OpenEnter s op s' ks) (he : s.enter op = (s', ks)) :
    InOrder none (hook ks) s s' := by
  cases hstep with
  | front h => exact .inr (.inr (h.handedAs .far))
  | aside _ _ hcalm hlog => exact .inr (.inr (warmup_handedAs hcalm hlog .far))
  | @bypass _ w pkt hop hwarm hmode _ _ =>
      have ho : s.passesWaiting none pkt w = false := by
        simpa [Op.keepsOrder, hop, hmode] using hk
      refine inOrder_of_waits ho fun hlink htakes => ?_
      have hwaits : ((s.onDcm (·.bypass (s.stamp pkt) w)).dispatchToFarGuaranteed
          (s.stamp pkt) w).1.dcm.pending .far = s.dcm.pending .far ++ [(s.stamp pkt, w)] := by
        cases w <;> exact dispatchToFarGuaranteed_waits hwarm hlink htakes
      rw [← enter_bypass_eq hwarm hmode hop, he] at hwaits
      rw [hwaits]
      intro heq
      have hlen := congrArg List.length heq
      simp at hlen

end Sys

section Far

open Sys (keepsOrder Poised Awake)

variable {near far : MemoryController} {clk : Clock} {frontend backend : Nat}
  {x : Worklist.Config Sys Call}

/-- **Far memory takes packets in the order they were handed over** in every
run that sends none past those that wait. -/
theorem far_in_order (hnear : near.Ok) (hfar : far.Ok)
    (h : ReachesIf (machine.gated Op.keepsOrder) (fun _ => True) (fun x => keepsOrder x = true)
      (.boot near far clk frontend backend) x) :
    handedAs Packet.payload .far x.2.dcm.log
      = x.2.inboundAs Packet.payload (hook x.1) .far := by
  refine (ReachesIf.gated_invariant (M := machine)
    (P := fun x => (Poised x.1 x.2 ∧ Awake x.1 x.2) ∧ handedAs Packet.payload .far x.2.dcm.log
      = x.2.inboundAs Packet.payload (hook x.1) .far)
    ⟨Sys.boot_poised hnear hfar .., rfl⟩ ?_ ?_ h).2.2
  · rintro op s - hk - ⟨⟨hpoised, hawake⟩, hp⟩
    have hstep := Sys.enter_openEnter hpoised.mcOk op
    refine ⟨⟨hstep.poised hpoised, hawake.enter op⟩, ?_⟩
    exact (hstep.handedAs (fun _ => rfl) .far).inOrder (hstep.inOrder hk rfl) hp
  · rintro c K s s' ks hk - ⟨⟨hpoised, hawake⟩, hp⟩ he
    have hstep := hpoised.callStep hawake he
    refine ⟨⟨hpoised.step hstep, hawake.step hstep he⟩, ?_⟩
    exact (hstep.handedAs (fun _ => rfl) hpoised .far).inOrder
      (Sys.callStep_inOrder hk hawake hpoised hstep he) hp

/-- Bypass reads of one line: the second merges and waits, the third behind
it, and both are sent when the first has been answered. -/
theorem far_in_order_duplicates :
    ∃ s, Worklist.driveIf (machine.gated Op.keepsOrder) (fun x => keepsOrder x = true) 60
        [.finishWarmup, .setBypassDcache true, .addRq (.readOf 5), .addRq (.readOf 5),
          .addRq (.readOf 5), .operate, .operate]
        (.boot (.new 0 0 0 0) (.new 0 0 0 0) .zero 0 0) = some s ∧
      handed .far s.dcm.log = [(5, false), (5, false), (5, false)] ∧
      taken .far s.dcm.sends = [(5, false), (5, false)] ∧
      handedAs Packet.payload .far s.dcm.log = s.inboundAs Packet.payload none .far := by
  obtain ⟨s, hs, hlog⟩ := Option.map_eq_some_iff.mp (show (Worklist.driveIf
    (machine.gated Op.keepsOrder) (fun x => keepsOrder x = true) 60
    [.finishWarmup, .setBypassDcache true, .addRq (.readOf 5), .addRq (.readOf 5),
      .addRq (.readOf 5), .operate, .operate]
    (.boot (.new 0 0 0 0) (.new 0 0 0 0) .zero 0 0)).map
      (fun s => (handed .far s.dcm.log, taken .far s.dcm.sends))
      = some ([(5, false), (5, false), (5, false)], [(5, false), (5, false)]) from by
        decide +kernel)
  have hr : ReachesIf (machine.gated Op.keepsOrder) (fun _ => True) (fun x => keepsOrder x = true)
      (.boot (.new 0 0 0 0) (.new 0 0 0 0) .zero 0 0) ([], s) :=
    Worklist.driveIf_reaches (fun _ _ => trivial) .refl hs
  exact ⟨s, hs, (Prod.mk.inj hlog).1, (Prod.mk.inj hlog).2,
    far_in_order (MemoryController.new_ok ..) (MemoryController.new_ok ..) hr⟩

end Far

/-- Far memory's read queue fills up and the last read waits; one slot is
freed, and the next read is sent into it. -/
def overtaking : List Op :=
  [.finishWarmup, .setBypassDcache true] ++ (List.range 65).map (fun i => .addRq (.readOf (i + 1)))
    ++ [.operate, .addRq (.readOf 66)]

theorem far_passes_blocked :
    ∃ s, Reaches machine (fun _ => True) (.boot (.new 0 0 0 0) (.new 0 0 0 0) .zero 0 0) ([], s) ∧
      taken .far s.dcm.sends = (List.range 64).map (fun i => (i + 1, false)) ++ [(66, false)] ∧
      parcels (s.dcm.pending .far) = [(65, false)] ∧
      handed .far s.dcm.log = (List.range 66).map (fun i => (i + 1, false)) ∧
      handedAs Packet.payload .far s.dcm.log ≠ s.inboundAs Packet.payload none .far := by
  obtain ⟨s, hs, hlog⟩ := Option.map_eq_some_iff.mp (show (Worklist.drive machine 60 overtaking
    (.boot (.new 0 0 0 0) (.new 0 0 0 0) .zero 0 0)).map
      (fun s => (taken .far s.dcm.sends, parcels (s.dcm.pending .far), handed .far s.dcm.log,
        decide (handedAs Packet.payload .far s.dcm.log = s.inboundAs Packet.payload none .far)))
      = some ((List.range 64).map (fun i => (i + 1, false)) ++ [(66, false)], [(65, false)],
        (List.range 66).map (fun i => (i + 1, false)), false) from by decide +kernel)
  simp only [Prod.mk.injEq, decide_eq_false_iff_not] at hlog
  exact ⟨s, Worklist.drive_reaches (fun _ _ => trivial) .refl hs, hlog⟩

end DramCache
