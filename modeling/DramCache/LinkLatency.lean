import DramCache.Banks
import DramCache.DispatchOrder
import DramCache.Timing
import DramCache.Watched

/-!
# The link to far memory

With a link latency every packet for far memory is held in
`pendingFarDispatches`, and only `processPendingFarDispatches` offers it to
far memory. What is watched of a run are the cycles at which packets are
handed over, refused and taken, and the operations entered in between;
`link_latency` relates them.
-/

namespace DramCache

open Worklist (ReachesIf)

/-- The loop of `processPendingFarDispatches`. -/
def Call.releases : Call → Bool
  | .processPendingFarDispatches | .popFar => true
  | _ => false

/-- A waiting packet, and when its hold ends. -/
def PendingFarDispatch.due (d : PendingFarDispatch) : (Packet × Bool) × Nat :=
  ((d.pkt.payload, d.isWrite), d.targetCycle)

namespace Sys

variable {s s' : Sys} {c : Call} {K ks : List Call}

/-- Far memory is offered the front of `pendingFarDispatches` and does not
take it. -/
def refuses (s : Sys) : Call → Bool
  | .processPendingFarDispatches =>
      match s.dcm.pendingFarDispatches with
      | [] => false
      | d :: _ => decide (d.targetCycle ≤ s.now d.pkt.cpu)
          && !(s.trySend .far d.pkt d.isWrite).2.1
  | _ => false

/-! ## What a call does to the link -/

/-- Nothing happens on the way to far memory. -/
structure FarStill (s s' : Sys) : Prop where
  handed : handedAs Packet.payload .far s'.dcm.log = handedAs Packet.payload .far s.dcm.log
  taken : takenAs Packet.payload .far s'.dcm.sends = takenAs Packet.payload .far s.dcm.sends
  pending : s'.dcm.pendingFarDispatches = s.dcm.pendingFarDispatches

/-- A packet is handed over and held for the link latency. -/
structure FarJoins (s s' : Sys) (d : PendingFarDispatch) : Prop where
  handed : handedAs Packet.payload .far s'.dcm.log
    = handedAs Packet.payload .far s.dcm.log ++ [d.due.1]
  taken : takenAs Packet.payload .far s'.dcm.sends = takenAs Packet.payload .far s.dcm.sends
  pending : s'.dcm.pendingFarDispatches = s.dcm.pendingFarDispatches ++ [d]
  due : d.targetCycle = s.now d.pkt.cpu + s.dcm.linkLatencyCycles

/-- Everything a call can do on the way to far memory. -/
inductive LinkStep (s : Sys) : Call → Sys → List Call → Prop
  | still {c : Call} {s' : Sys} {ks : List Call} (h : FarStill s s') (hc : c.releases = false)
      (hks : ∀ k ∈ ks, k.releases = false) : LinkStep s c s' ks
  | joins {c : Call} {s' : Sys} {ks : List Call} (d : PendingFarDispatch) (h : FarJoins s s' d)
      (hc : c.releases = false) (hks : ∀ k ∈ ks, k.releases = false) : LinkStep s c s' ks
  /-- The loop is left. -/
  | ended {s' : Sys} (h : FarStill s s')
      (hwhy : s.refuses .processPendingFarDispatches = false →
        ∀ d ∈ s.dcm.pendingFarDispatches.head?, s.now d.pkt.cpu < d.targetCycle) :
      LinkStep s .processPendingFarDispatches s' []
  | taken {s' : Sys} {ks : List Call} (d : PendingFarDispatch) (rest : List PendingFarDispatch)
      (hfront : s.dcm.pendingFarDispatches = d :: rest) (hdue : d.targetCycle ≤ s.now d.pkt.cpu)
      (hhanded : handedAs Packet.payload .far s'.dcm.log
        = handedAs Packet.payload .far s.dcm.log)
      (htaken : takenAs Packet.payload .far s'.dcm.sends
        = takenAs Packet.payload .far s.dcm.sends ++ [d.due.1])
      (hpending : s'.dcm.pendingFarDispatches = s.dcm.pendingFarDispatches)
      (hok : s.refuses .processPendingFarDispatches = false)
      (hks : ∀ k ∈ ks, k.releases = false) :
      LinkStep s .processPendingFarDispatches s' (ks ++ [.popFar])
  | popped {s' : Sys}
      (hhanded : handedAs Packet.payload .far s'.dcm.log
        = handedAs Packet.payload .far s.dcm.log)
      (htaken : takenAs Packet.payload .far s'.dcm.sends
        = takenAs Packet.payload .far s.dcm.sends)
      (hpending : s'.dcm.pendingFarDispatches = s.dcm.pendingFarDispatches.tail) :
      LinkStep s .popFar s' [.processPendingFarDispatches]

theorem FarStill.refl (s : Sys) : FarStill s s := ⟨rfl, rfl, rfl⟩

theorem trySend_link (s : Sys) (side : Side) (pkt : Packet) (w : Bool) :
    (s.trySend side pkt w).1.dcm.pendingFarDispatches = s.dcm.pendingFarDispatches := by
  have hw : ∀ pkt, (s.sendWrite side pkt).1.dcm.pendingFarDispatches
      = s.dcm.pendingFarDispatches := by
    intro pkt
    rw [← controllerAddWq_dcm s side pkt]
    rfl
  have hr : ∀ pkt, (s.sendRead side pkt).1.dcm.pendingFarDispatches
      = s.dcm.pendingFarDispatches := by
    intro pkt
    rw [← controllerAddRq_dcm s side pkt]
    dsimp only [sendRead]
    split <;> rfl
  unfold trySend
  split
  · rfl
  · cases w
    · exact hr _
    · exact hw _

theorem dispatchToNear_link (s : Sys) (pkt : Packet) (w : Bool) :
    (s.dispatchToNear pkt w).1.dcm.pendingFarDispatches = s.dcm.pendingFarDispatches := by
  have htry := trySend_link s .near pkt w
  unfold dispatchToNear
  split
  · generalize s.trySend .near pkt w = r at htry
    obtain ⟨s', ok, ks⟩ := r
    cases ok <;> exact htry
  · rfl

/-- With a link latency a packet is held. -/
theorem dispatchToFar_link (hL : s.dcm.linkLatencyCycles ≠ 0) (pkt : Packet) (w : Bool) :
    s.dispatchToFar pkt w = (s.onDcm fun m =>
      { m with pendingFarDispatches := m.pendingFarDispatches
          ++ [{ targetCycle := s.now pkt.cpu + s.dcm.linkLatencyCycles, pkt := pkt, isWrite := w }] },
      true, []) := if_neg hL

theorem dispatchToFarGuaranteed_link (hL : s.dcm.linkLatencyCycles ≠ 0) (pkt : Packet) (w : Bool) :
    s.dispatchToFarGuaranteed pkt w = (s.onDcm fun m =>
      { m with pendingFarDispatches := m.pendingFarDispatches
          ++ [{ targetCycle := s.now pkt.cpu + s.dcm.linkLatencyCycles, pkt := pkt, isWrite := w }] },
      []) := by
  rw [dispatchToFarGuaranteed, dispatchToFar_link hL]

theorem completeEntry_link (s : Sys) (e : OrbEntry) (lat : Nat) :
    (s.completeEntry e lat).1.dcm.pendingFarDispatches = s.dcm.pendingFarDispatches := by
  show (s.dcm.retire e lat (s.now e.pkt.cpu)).pendingFarDispatches = _
  rw [Manager.retire_eq]

theorem returnData_link (s : Sys) (side : Side) (pkt : Packet) :
    (s.returnData side pkt).1.dcm.pendingFarDispatches = s.dcm.pendingFarDispatches := by
  have hnear : ∀ (s : Sys) e, (s.nearResponse e).1.dcm.pendingFarDispatches
      = s.dcm.pendingFarDispatches := by
    intro s e
    have hn : (s.dcm.nearAnswered e (s.now e.pkt.cpu)).pendingFarDispatches
        = s.dcm.pendingFarDispatches := by rw [Manager.nearAnswered_eq]
    unfold nearResponse
    split
    · exact hn
    · split
      · exact (completeEntry_link ..).trans hn
      · exact hn
  unfold returnData
  split
  · rfl
  · split
    · rfl
    · dsimp only
      split
      · exact hnear ..
      · exact completeEntry_link ..
      · rfl

/-- Only three calls change what is held. -/
theorem exec_link (hdrive : ∀ a, c ≠ .driveState a) (hdrain : c ≠ .drainWB) (hpop : c ≠ .popFar)
    (he : s.exec c = .ok (s', ks)) :
    s'.dcm.pendingFarDispatches = s.dcm.pendingFarDispatches := by
  cases c with
  | driveState a => exact absurd rfl (hdrive a)
  | drainWB => exact absurd rfl hdrain
  | popFar => exact absurd rfl hpop
  | returnData side pkt =>
      obtain ⟨rfl, rfl⟩ := ok_pair he
      exact returnData_link ..
  | completeRequest a lat =>
      obtain ⟨rfl, rfl⟩ := ok_pair he
      unfold completeRequest
      split
      · rfl
      · exact completeEntry_link ..
  | promoteFromCRB i =>
      obtain ⟨rfl, rfl⟩ := ok_pair he
      have hadmit : ∀ (m : Manager) pkt w arr now,
          (m.admitEntry pkt w arr now).pendingFarDispatches = m.pendingFarDispatches :=
        fun _ _ _ _ _ => rfl
      unfold promoteFromCRB
      split
      · rfl
      · exact hadmit ..
  | flagConflict a i =>
      obtain ⟨rfl, rfl⟩ := ok_pair he
      rcases s.dcm.flagConflict_eq a i with hf | ⟨e, -, hf⟩ <;> rw [onDcm_dcm, hf]
  | backgroundFill rid i pkt =>
      obtain ⟨rfl, rfl⟩ := ok_pair he
      exact dispatchToNear_link ..
  | forwardDone side =>
      obtain ⟨rfl, rfl⟩ := ok_pair he
      rw [setMc_dcm]
  | popNear =>
      obtain ⟨rfl, rfl⟩ := ok_pair he
      rfl
  | processReadDone side i b =>
      dsimp only [exec] at he
      split at he
      · cases he
      · obtain ⟨rfl, rfl⟩ := ok_pair he
        rw [setMc_dcm]
  | processPendingFarDispatches =>
      obtain ⟨rfl, rfl⟩ := ok_pair he
      unfold processPendingFarDispatches
      split
      · rfl
      · rename_i d rest hd
        split
        · have htry := trySend_link s .far d.pkt d.isWrite
          generalize s.trySend .far d.pkt d.isWrite = r at htry
          obtain ⟨s', ok, ks⟩ := r
          cases ok <;> exact htry
        · rfl
  | processPendingNearDispatches =>
      obtain ⟨rfl, rfl⟩ := ok_pair he
      unfold processPendingNearDispatches
      split
      · rfl
      · rename_i d rest hd
        have htry := trySend_link s .near d.pkt d.isWrite
        generalize s.trySend .near d.pkt d.isWrite = r at htry
        obtain ⟨s', ok, ks⟩ := r
        cases ok <;> exact htry
  | operateController side =>
      change s.operateController side = _ at he
      unfold operateController at he
      split at he
      · cases he
      · cases he
        rw [setMc_dcm]
      · cases he
        rw [setMc_dcm]
  | processPendingResponses =>
      obtain ⟨rfl, rfl⟩ := ok_pair he
      obtain ⟨due, rest, -, hr⟩ :=
        Manager.releaseResponses_eq s.clock s.dcm.pendingResponses s.dcm
      rw [onDcm_dcm, Manager.processPendingResponses, hr]
  | recordOccupancySamples =>
      obtain ⟨rfl, rfl⟩ := ok_pair he
      rfl

/-! ### What is logged and sent -/

theorem releases_of_rank {k : Call} (h : k.rank = 1) : k.releases = false := by
  cases k <;> first | rfl | cases h

/-- Packets for near memory do not come near the link. -/
theorem Dispatched.taken_far {pkt : Packet} {w : Bool} (h : Dispatched s .near pkt w s' ks) :
    takenAs Packet.payload .far s'.dcm.sends = takenAs Packet.payload .far s.dcm.sends := by
  cases h with
  | sent hs => rw [hs.takenAs fun _ => rfl, if_neg (by decide), List.append_nil]
  | queued _ _ _ hsends => exact takenAs_of_refused hsends .far

theorem handedAs_concat {ev : Event} {l l' : List Event} (h : l' = l ++ [ev]) :
    handedAs Packet.payload .far l'
      = handedAs Packet.payload .far l ++ (ev.handedAs? Packet.payload .far).toList := by
  rw [h, handedAs_append]
  cases he : ev.handedAs? Packet.payload .far <;> simp [handedAs, he]

/-- With a link latency a far fetch is held. -/
theorem driveState_joins {a : Nat} {e : OrbEntry} (hL : s.dcm.linkLatencyCycles ≠ 0)
    (h : s.dcm.orb.lookup a = some e) (hs : e.state = .farMemRead) :
    FarJoins s (s.driveState a).1
      { targetCycle := s.now e.pkt.cpu + s.dcm.linkLatencyCycles,
        pkt := Manager.subRequest e .load (s.now e.pkt.cpu), isWrite := false } ∧
      (s.driveState a).2 = [] := by
  have hdrive : s.driveState a
      = (s.onDcm (·.readFar e (s.now e.pkt.cpu))).dispatchToFarGuaranteed
          (Manager.subRequest e .load (s.now e.pkt.cpu)) false := by
    simp only [driveState, h, hs]
  have hL' : (s.onDcm (·.readFar e (s.now e.pkt.cpu))).dcm.linkLatencyCycles ≠ 0 := hL
  have hlog : (s.dcm.readFar e (s.now e.pkt.cpu)).log = s.dcm.log ++ [.handFar (some e.requestId)
      (Manager.subRequest e .load (s.now e.pkt.cpu)) false] := rfl
  rw [hdrive, dispatchToFarGuaranteed_link hL']
  exact ⟨⟨handedAs_concat hlog, rfl, rfl, rfl⟩, rfl⟩

theorem driveState_link {a : Nat}
    (h : ∀ e, s.dcm.orb.lookup a = some e → e.state ≠ .farMemRead) :
    (s.driveState a).1.dcm.pendingFarDispatches = s.dcm.pendingFarDispatches := by
  unfold driveState
  split
  · rfl
  · rename_i e he
    dsimp only
    split
    · exact dispatchToNear_link ..
    · rename_i hs
      exact absurd hs (h e he)
    · exact dispatchToNear_link ..
    · rfl

/-- A write-back is held, too. -/
theorem drainWB_joins {front : WbEntry} {rest : List WbEntry} (hL : s.dcm.linkLatencyCycles ≠ 0)
    (hwb : s.dcm.wb = front :: rest) : FarJoins s s.drainWB
      { targetCycle := s.now front.pkt.cpu + s.dcm.linkLatencyCycles,
        pkt := front.pkt, isWrite := true } := by
  have hlog : (s.dcm.drained front).log = s.dcm.log ++ [.handFar none front.pkt true] := rfl
  simp only [drainWB, hwb, dispatchToFar_link hL]
  exact ⟨handedAs_concat hlog, rfl, rfl, rfl⟩

/-- The loop of `processPendingFarDispatches`, one iteration. -/
theorem processPendingFarDispatches_linkStep (hmc : s.McOk)
    (hwarm : s.dcm.pendingFarDispatches ≠ [] → numCpus ≤ s.allWarmupComplete) :
    LinkStep s .processPendingFarDispatches s.processPendingFarDispatches.1
      s.processPendingFarDispatches.2 := by
  unfold processPendingFarDispatches
  split
  · rename_i hd
    exact .ended (.refl s) fun _ d hmem => by simp [hd] at hmem
  · rename_i d rest hd
    split
    · rename_i hdue
      have hsent := trySend_sent hmc (hwarm (by simp [hd])) .far d.pkt d.isWrite
      have hlink := trySend_link s .far d.pkt d.isWrite
      have hcore := trySend_core s .far d.pkt d.isWrite
      have hok : s.refuses .processPendingFarDispatches = !(s.trySend .far d.pkt d.isWrite).2.1 := by
        simp [refuses, hd, hdue]
      generalize s.trySend .far d.pkt d.isWrite = r at hsent hlink hcore hok
      obtain ⟨s', ok, ks⟩ := r
      have hlog : s'.dcm.core.log = s.dcm.core.log := congrArg Manager.log hcore
      have hlog : s'.dcm.log = s.dcm.log := hlog
      cases ok with
      | true =>
          refine .taken d rest hd hdue (by rw [hlog]) ?_ hlink hok fun k hk =>
            releases_of_rank (hsent.calls_rank k hk)
          rw [hsent.takenAs fun _ => rfl, if_pos rfl]
          rfl
      | false =>
          obtain ⟨-, hsends, -⟩ := hsent.of_refused
          exact .ended ⟨congrArg _ hlog, takenAs_of_refused hsends .far, hlink⟩
            fun hok' => by rw [hok] at hok'; cases hok'
    · rename_i hdue
      exact .ended (.refl s) fun _ d' hmem => by
        obtain rfl : d = d' := by simpa [hd] using hmem
        exact not_le.mp hdue

/-- **A call and the link.** -/
theorem exec_linkStep (hL : s.dcm.linkLatencyCycles ≠ 0) (hp : Poised (c :: K) s)
    (ha : Awake (c :: K) s) (he : s.exec c = .ok (s', ks)) : LinkStep s c s' ks := by
  have hstep := hp.callStep ha he
  have hlog : ∀ {m : Manager}, s'.dcm.core = m → s'.dcm.log = m.log := fun h => by
    rw [← h]
    rfl
  have hsame : s'.dcm.core = s.dcm.core → handedAs Packet.payload .far s'.dcm.log
      = handedAs Packet.payload .far s.dcm.log := fun h => by
    rw [hlog h]
    rfl
  by_cases hfar : c = .processPendingFarDispatches
  · subst hfar
    obtain ⟨rfl, rfl⟩ := ok_pair he
    refine processPendingFarDispatches_linkStep hp.mcOk fun hne => ha.resolve_right fun hd => ?_
    exact hne (List.map_eq_nil_iff.mp (hd.pending .far))
  by_cases hpop : c = .popFar
  · subst hpop
    obtain ⟨rfl, rfl⟩ := ok_pair he
    exact .popped rfl rfl rfl
  have hc : c.releases = false := by
    cases c <;> first | rfl | exact absurd rfl hfar | exact absurd rfl hpop
  by_cases hdrain : c = .drainWB
  · subst hdrain
    obtain ⟨rfl, rfl⟩ := ok_pair he
    cases hwb : s.dcm.wb with
    | nil =>
        have heq : s.drainWB = s := by simp [drainWB, hwb]
        rw [heq]
        exact .still (.refl s) hc (by simp)
    | cons front rest => exact .joins _ (drainWB_joins hL hwb) hc (by simp)
  cases hstep with
  | core hdisp ht hks hfront =>
      have hlink := exec_link (fun a h => by subst h; cases hdisp) (fun h => by subst h; cases hdisp)
        hpop he
      obtain ⟨evs, hevs, hemit⟩ := hfront.emits
      have hsilent : handedAs Packet.payload .far evs = [] :=
        handedAs_silent fun ev hev => handedAs_of_emits hdisp (hemit ev hev) .far
      refine .still ⟨?_, by rw [ht.sends], hlink⟩ hc fun k hk =>
        releases_of_rank (Call.rank_of_not_bystander (hks k hk))
      have hlog' : s'.dcm.log = s.dcm.log ++ evs := hevs
      rw [hlog', handedAs_append, hsilent, List.append_nil]
  | @drive a _ _ hd =>
      obtain ⟨hs', hks'⟩ := ok_pair he
      have hnear : ∀ {e : OrbEntry}, s.dcm.orb.lookup a = some e → e.state ≠ .farMemRead →
          s'.dcm.pendingFarDispatches = s.dcm.pendingFarDispatches := by
        intro e hl hs
        subst hs'
        refine driveState_link fun e' he' => ?_
        obtain rfl : e = e' := Option.some.inj (hl.symm.trans he')
        exact hs
      cases hd with
      | idle => exact .still (.refl s) hc (by simp)
      | readNear now hl hs hcore hd =>
          refine .still ⟨?_, hd.taken_far, hnear hl (by simp [hs])⟩ hc fun k hk =>
            releases_of_rank (hd.calls_rank k hk)
          rw [handedAs_concat (hlog hcore)]
          exact List.append_nil _
      | readFar now hl hs =>
          obtain ⟨hjoins, hnil⟩ := driveState_joins hL hl hs
          subst hs' hks'
          exact .joins _ hjoins hc (by simp [hnil])
      | writeNear now hl hs hcore hd =>
          refine .still ⟨?_, hd.taken_far, hnear hl (by simp [hs])⟩ hc (by simp [Call.releases])
          rw [handedAs_concat (hlog hcore)]
          exact List.append_nil _
  | @fill rid i pkt _ hcore hd =>
      refine .still ⟨?_, hd.taken_far, exec_link (by simp) (by simp) hpop he⟩ hc (by simp)
      rw [handedAs_concat (hlog hcore)]
      exact List.append_nil _
  | kept | drained => exact absurd rfl hdrain
  | released side hcore hr =>
      cases side with
      | far => exact absurd rfl hfar
      | near =>
          have hlink := exec_link (by simp [Side.process]) (by simp [Side.process]) hpop he
          cases hr with
          | kept _ _ hsends =>
              refine .still ⟨hsame hcore, ?_, hlink⟩ hc (by simp)
              rcases hsends with hsends | ⟨pkt, i, hsends⟩ <;> rw [hsends]
              exact takenAs_refused Packet.payload rfl _ .far
          | sent hfront _ hsent =>
              refine .still ⟨hsame hcore, ?_, hlink⟩ hc fun k hk => ?_
              · rw [hsent.takenAs fun _ => rfl, if_neg (by decide), List.append_nil]
              · rcases List.mem_append.mp hk with hk | hk
                · exact releases_of_rank (hsent.calls_rank k hk)
                · rw [List.mem_singleton.mp hk]
                  rfl
  | popped side hcore _ _ _ hsends =>
      cases side with
      | far => exact absurd rfl hpop
      | near =>
          refine .still ⟨hsame hcore, by rw [hsends], ?_⟩ hc (by simp [Side.process, Call.releases])
          exact exec_link (by simp [Side.pop]) (by simp [Side.pop]) hpop he
  | served hside hdcm =>
      exact .still ⟨by rw [hdcm], by rw [hdcm], by rw [hdcm]⟩ hc (by simp)
  | finished hdcm =>
      exact .still ⟨by rw [hdcm], by rw [hdcm], by rw [hdcm]⟩ hc (by simp [Call.releases])
  | readDone hdcm =>
      exact .still ⟨by rw [hdcm], by rw [hdcm], by rw [hdcm]⟩ hc (by simp)

/-! ### Operations -/

theorem admission_link (s : Sys) (pkt : Packet) (w : Bool) :
    (s.admission pkt w).1.dcm.pendingFarDispatches = s.dcm.pendingFarDispatches := by
  have hadmit : ∀ (m : Manager) now, (m.admitEntry pkt w none now).pendingFarDispatches
      = m.pendingFarDispatches := fun _ _ => rfl
  unfold admission
  split
  · split <;> rfl
  · split
    · rfl
    · split
      · rfl
      · exact hadmit ..

theorem enter_link {op : Op}
    (h : op.request? = none ∨ s.allWarmupComplete < numCpus ∨ s.dcm.bypassDcache = false) :
    (s.enter op).1.dcm.pendingFarDispatches = s.dcm.pendingFarDispatches := by
  cases op with
  | addRq pkt =>
      simp only [enter, addRq]
      split
      · split <;> rfl
      · rename_i hwarm
        rw [if_neg (by rw [(h.resolve_left (by simp [Op.request?])).resolve_left hwarm]; simp)]
        exact admission_link ..
  | addWq pkt =>
      simp only [enter, addWq]
      split
      · split <;> rfl
      · rename_i hwarm
        rw [if_neg (by rw [(h.resolve_left (by simp [Op.request?])).resolve_left hwarm]; simp)]
        exact admission_link ..
  | _ => rfl

/-- A packet that goes round the cache is held. -/
theorem enter_joins {op : Op} {w : Bool} {pkt : Packet} (hL : s.dcm.linkLatencyCycles ≠ 0)
    (hwarm : numCpus ≤ s.allWarmupComplete) (hmode : s.dcm.bypassDcache = true)
    (hop : op.request? = some (w, pkt)) : FarJoins s (s.enter op).1
      { targetCycle := s.now (s.stamp pkt).cpu + s.dcm.linkLatencyCycles,
        pkt := s.stamp pkt, isWrite := w } := by
  have hpass := s.dcm.bypass_eq (s.stamp pkt) w
  have hlink : (s.onDcm (·.bypass (s.stamp pkt) w)).dcm.linkLatencyCycles
      = s.dcm.linkLatencyCycles := by rw [onDcm_dcm, hpass]
  have hlog : (s.dcm.bypass (s.stamp pkt) w).log
      = s.dcm.log ++ [.handFar none (s.stamp pkt) w] := by rw [hpass]
  have hsends : (s.dcm.bypass (s.stamp pkt) w).sends = s.dcm.sends := by rw [hpass]
  have hfar : (s.dcm.bypass (s.stamp pkt) w).pendingFarDispatches
      = s.dcm.pendingFarDispatches := by rw [hpass]
  rw [enter_bypass_eq hwarm hmode hop, dispatchToFarGuaranteed_link (hlink.symm ▸ hL), hlink]
  exact ⟨handedAs_concat hlog, congrArg _ hsends, congrArg (· ++ _) hfar, rfl⟩

theorem frontEnter_releases {m m' : Manager} {op : Op} (h : FrontEnter m op m' ks) :
    op = .operate ∨ ∀ k ∈ ks, k.releases = false := by
  cases h with
  | operate => exact .inl rfl
  | admitted => exact .inr (by simp [Call.releases])
  | _ => exact .inr (by simp)

/-- **An operation and the link.** -/
theorem enter_linkStep (hL : s.dcm.linkLatencyCycles ≠ 0) (hp : Poised [] s) (op : Op) :
    (FarStill s (s.enter op).1 ∨ op ≠ .operate ∧ ∃ d, FarJoins s (s.enter op).1 d) ∧
      (op = .operate ∨ ∀ k ∈ (s.enter op).2, k.releases = false) := by
  have hstep := enter_openEnter hp.mcOk op
  constructor
  · by_cases hgo : op.request? = none ∨ s.allWarmupComplete < numCpus ∨ s.dcm.bypassDcache = false
    · have hlink := enter_link hgo
      generalize s.enter op = r at hstep hlink
      obtain ⟨s', ks⟩ := r
      left
      cases hstep with
      | front h => exact ⟨(h.handedAs .far).1, by rw [h.calm.2], hlink⟩
      | aside _ _ hcalm hlog => exact ⟨(warmup_handedAs hcalm hlog .far).1, by rw [hcalm.2], hlink⟩
      | bypass hop hwarm hmode =>
          rcases hgo with hnone | hpre | hoff
          · cases hop.symm.trans hnone
          · exact absurd hwarm (not_le.mpr hpre)
          · cases hmode.symm.trans hoff
    · obtain ⟨hop, hgo⟩ := not_or.mp hgo
      obtain ⟨hwarm, hmode⟩ := not_or.mp hgo
      obtain ⟨⟨w, pkt⟩, hop⟩ := Option.ne_none_iff_exists'.mp hop
      refine .inr ⟨fun h => ?_, _, enter_joins hL (not_lt.mp hwarm) (by simpa using hmode) hop⟩
      subst h
      cases hop
  · generalize s.enter op = r at hstep
    obtain ⟨s', ks⟩ := r
    cases hstep with
    | front h => exact frontEnter_releases h.front
    | aside => exact .inr (by simp)
    | bypass _ _ _ _ hd => exact .inr fun k hk => releases_of_rank (hd.calls_rank k hk)

end Sys

/-! ## What is watched -/

inductive LinkEvent where
  /-- An operation is entered. -/
  | began (isOperate : Bool) (cycle : Nat)
  | handed (p : Packet × Bool) (cycle : Nat)
  | refused (cycle : Nat)
  | taken (p : Packet × Bool) (cycle : Nat)
deriving Repr, DecidableEq

namespace LinkEvent

def cycle : LinkEvent → Nat
  | began _ t | handed _ t | refused t | taken _ t => t

def begun? : LinkEvent → Option (Bool × Nat)
  | began b t => some (b, t)
  | _ => none

def handed? : LinkEvent → Option ((Packet × Bool) × Nat)
  | handed p t => some (p, t)
  | _ => none

def taken? : LinkEvent → Option ((Packet × Bool) × Nat)
  | taken p t => some (p, t)
  | _ => none

def isRefused : LinkEvent → Bool
  | refused _ => true
  | _ => false

end LinkEvent

/-- The operations entered, which of them are `operate`, and when. -/
def begun (l : List LinkEvent) : List (Bool × Nat) := l.filterMap LinkEvent.begun?

/-- The packets handed over, and when. -/
def handedIn (l : List LinkEvent) : List ((Packet × Bool) × Nat) := l.filterMap LinkEvent.handed?

/-- The packets far memory took, and when. -/
def takenIn (l : List LinkEvent) : List ((Packet × Bool) × Nat) := l.filterMap LinkEvent.taken?

/-- Far memory refused nothing. -/
def Unrefused (l : List LinkEvent) : Prop := ∀ e ∈ l, e.isRefused = false

theorem begun_append (l₁ l₂ : List LinkEvent) : begun (l₁ ++ l₂) = begun l₁ ++ begun l₂ :=
  List.filterMap_append ..

theorem handedIn_append (l₁ l₂ : List LinkEvent) :
    handedIn (l₁ ++ l₂) = handedIn l₁ ++ handedIn l₂ := List.filterMap_append ..

theorem takenIn_append (l₁ l₂ : List LinkEvent) :
    takenIn (l₁ ++ l₂) = takenIn l₁ ++ takenIn l₂ := List.filterMap_append ..

theorem Unrefused.left {l₁ l₂ : List LinkEvent} (h : Unrefused (l₁ ++ l₂)) : Unrefused l₁ :=
  fun e he => h e (List.mem_append_left _ he)

/-- What is handed over and taken between two states. -/
def Sys.linkSeen (s s' : Sys) : List LinkEvent :=
  ((handedAs Packet.payload .far s'.dcm.log).drop
      (handedAs Packet.payload .far s.dcm.log).length).map (.handed · (s.now 0))
    ++ ((takenAs Packet.payload .far s'.dcm.sends).drop
      (takenAs Packet.payload .far s.dcm.sends).length).map (.taken · (s.now 0))

def Op.isOperate : Op → Bool
  | .operate => true
  | _ => false

def watchEnter (op : Op) (s s' : Sys) : List LinkEvent :=
  .began op.isOperate (s.now 0) :: s.linkSeen s'

def watchExec (c : Call) (s s' : Sys) : List LinkEvent :=
  (if s.refuses c then [.refused (s.now 0)] else []) ++ s.linkSeen s'

namespace Sys

variable {s s' : Sys} {c : Call} {K ks : List Call}

theorem FarStill.seen (h : FarStill s s') : s.linkSeen s' = [] := by
  simp [linkSeen, h.handed, h.taken]

theorem FarJoins.seen {d : PendingFarDispatch} (h : FarJoins s s' d) :
    s.linkSeen s' = [.handed d.due.1 (s.now 0)] := by
  simp [linkSeen, h.handed, h.taken]

theorem refuses_of_not_releases (h : c.releases = false) : s.refuses c = false := by
  cases c <;> first | rfl | cases h

/-- What far memory has not taken: a front that was sent is about to be
popped. -/
def onLink (K : List Call) (s : Sys) : List PendingFarDispatch :=
  if .popFar ∈ K then s.dcm.pendingFarDispatches.tail else s.dcm.pendingFarDispatches

theorem not_mem_of_not_releases {L : List Call} (h : ∀ k ∈ L, k.releases = false) :
    .popFar ∉ L := fun hmem => by cases h _ hmem

theorem onLink_of_not_releases {L : List Call} (h : ∀ k ∈ L, k.releases = false) (K : List Call) :
    s.onLink (L ++ K) = s.onLink K := by
  have hiff : Call.popFar ∈ L ++ K ↔ .popFar ∈ K := by simp [not_mem_of_not_releases h]
  simp only [onLink, hiff]

theorem onLink_nil_of_not_releases {L : List Call} (h : ∀ k ∈ L, k.releases = false) :
    s.onLink L = s.dcm.pendingFarDispatches := if_neg (not_mem_of_not_releases h)

end Sys

/-! ## The law of the link -/

/-- The packet taken next, at cycle `t` behind `l`: the first of those handed
over that was not taken before, a link latency or more after it was handed
over, by the operation in progress, which is an `operate`; and unless far
memory has refused something, by the first `operate` of those. -/
def Prompt (L : Nat) (l : List LinkEvent) (p : Packet × Bool) (t : Nat) : Prop :=
  ∃ bs t₀, begun l = bs ++ [(true, t)] ∧ (handedIn l)[(takenIn l).length]? = some (p, t₀) ∧
    t₀ + L ≤ t ∧ (Unrefused l → ∀ u, (true, u) ∈ bs → u < t₀ + L)

/-- What a watched run keeps. -/
structure LinkInv (L : Nat) (K : List Call) (s : Sys) (l : List LinkEvent) : Prop where
  link : s.dcm.linkLatencyCycles = L
  clock : ∀ cpu, s.clock.cycle cpu = s.clock.cycle 0
  single : K.countP Call.releases ≤ 1
  popping : .popFar ∈ K → s.dcm.pendingFarDispatches ≠ []
  handed : handedAs Packet.payload .far s.dcm.log = (handedIn l).map Prod.fst
  taken : takenAs Packet.payload .far s.dcm.sends = (takenIn l).map Prod.fst
  past : ∀ b t, (b, t) ∈ begun l → t ≤ s.now 0
  sorted : (s.onLink K).Pairwise fun d d' => d.targetCycle ≤ d'.targetCycle
  soon : ∀ d ∈ s.onLink K, d.targetCycle ≤ s.now 0 + L
  order : ∃ A, (handedIn l).map (fun x => (x.1, x.2 + L))
      = A ++ (s.onLink K).map PendingFarDispatch.due ∧
    A.map Prod.fst = (takenIn l).map Prod.fst
  releasing : K.any Call.releases = true → ∃ bs, begun l = bs ++ [(true, s.now 0)] ∧
    (Unrefused l → ∀ d ∈ s.onLink K, ∀ u, (true, u) ∈ bs → u < d.targetCycle)
  idle : K.any Call.releases = false → Unrefused l →
    ∀ d ∈ s.onLink K, ∀ u, (true, u) ∈ begun l → u < d.targetCycle
  prompt : ∀ l₁ p t l₂, l = l₁ ++ .taken p t :: l₂ → Prompt L l₁ p t

/-- A record that ends otherwise has its taken packets in front. -/
theorem prompt_append {L : Nat} {l evs : List LinkEvent}
    (h : ∀ l₁ p t l₂, l = l₁ ++ .taken p t :: l₂ → Prompt L l₁ p t)
    (hevs : ∀ e ∈ evs, e.taken? = none) :
    ∀ l₁ p t l₂, l ++ evs = l₁ ++ .taken p t :: l₂ → Prompt L l₁ p t := by
  intro l₁ p t l₂ heq
  have hnone : LinkEvent.taken p t ∉ evs := fun hmem => by cases hevs _ hmem
  rcases List.append_eq_append_iff.mp heq with ⟨l₃, rfl, h₃⟩ | ⟨l₃, hl, h₃⟩
  · exact absurd (by rw [h₃]; simp) hnone
  · cases l₃ with
    | nil => exact absurd (by rw [← List.nil_append evs, ← h₃]; simp) hnone
    | cons e l₃ =>
        obtain ⟨rfl, -⟩ := List.cons.inj h₃
        exact h l₁ p t l₃ hl

/-- One more packet is taken. -/
theorem prompt_concat {L t : Nat} {p : Packet × Bool} {l : List LinkEvent}
    (h : ∀ l₁ p t l₂, l = l₁ ++ .taken p t :: l₂ → Prompt L l₁ p t) (hp : Prompt L l p t) :
    ∀ l₁ p' t' l₂, l ++ [.taken p t] = l₁ ++ .taken p' t' :: l₂ → Prompt L l₁ p' t' := by
  intro l₁ p' t' l₂ heq
  rcases List.eq_nil_or_concat l₂ with rfl | ⟨l₃, e, rfl⟩
  · obtain ⟨rfl, he⟩ := List.append_inj' heq rfl
    obtain ⟨rfl, rfl⟩ := LinkEvent.taken.inj (List.singleton_inj.mp he)
    exact hp
  · rw [List.concat_eq_append, ← List.cons_append, ← List.append_assoc] at heq
    exact h l₁ p' t' l₃ (List.append_inj' heq rfl).1

namespace LinkInv

open Sys

variable {L : Nat} {s s' : Sys} {c : Call} {K K' ks : List Call} {l : List LinkEvent}

/-- Nothing is seen, and what waits stays. -/
theorem keep (h : LinkInv L K s l)
    (hhanded : handedAs Packet.payload .far s'.dcm.log = handedAs Packet.payload .far s.dcm.log)
    (htaken : takenAs Packet.payload .far s'.dcm.sends = takenAs Packet.payload .far s.dcm.sends)
    (hlink : s'.dcm.linkLatencyCycles = L) (hclock : s'.clock = s.clock)
    (hon : s'.onLink K' = s.onLink K) (hany : K'.any Call.releases = K.any Call.releases)
    (hone : K'.countP Call.releases ≤ 1)
    (hpop : .popFar ∈ K' → s'.dcm.pendingFarDispatches ≠ []) : LinkInv L K' s' l where
  link := hlink
  clock := by rw [hclock]; exact h.clock
  single := hone
  popping := hpop
  handed := hhanded.trans h.handed
  taken := htaken.trans h.taken
  past := by rw [now, hclock]; exact h.past
  sorted := by rw [hon]; exact h.sorted
  soon := by rw [hon, now, hclock]; exact h.soon
  order := by rw [hon]; exact h.order
  releasing := by rw [hany, hon, now, hclock]; exact h.releasing
  idle := by rw [hany, hon]; exact h.idle
  prompt := h.prompt

theorem any_append {L : List Call} (h : ∀ k ∈ L, k.releases = false) (K : List Call) :
    (L ++ K).any Call.releases = K.any Call.releases := by
  rw [List.any_append, List.any_eq_false.mpr fun k hk => by simp [h k hk], Bool.false_or]

theorem countP_append {L : List Call} (h : ∀ k ∈ L, k.releases = false) (K : List Call) :
    (L ++ K).countP Call.releases = K.countP Call.releases := by
  rw [List.countP_append, List.countP_eq_zero.mpr fun k hk => by simp [h k hk], Nat.zero_add]

/-- Behind the loop there is no other. -/
theorem behind (h : LinkInv L (c :: K) s l) (hc : c.releases = true) :
    ∀ k ∈ K, k.releases = false := by
  have hone := h.single
  rw [List.countP_cons_of_pos hc] at hone
  have hzero : K.countP Call.releases = 0 := by omega
  exact fun k hk => Bool.eq_false_iff.mpr (List.countP_eq_zero.mp hzero k hk)

/-- A packet is handed over: it is due last. -/
theorem joins (h : LinkInv L K s l) (hL : 0 < L) {d : PendingFarDispatch} (hj : FarJoins s s' d)
    (hlink : s'.dcm.linkLatencyCycles = L) (hclock : s'.clock = s.clock)
    (hks : ∀ k ∈ ks, k.releases = false) :
    LinkInv L (ks ++ K) s' (l ++ [.handed d.due.1 (s.now 0)]) := by
  have hdue : d.targetCycle = s.now 0 + L := by
    rw [hj.due, h.link, now, h.clock]
    rfl
  have hon : s'.onLink (ks ++ K) = s.onLink K ++ [d] := by
    rw [onLink_of_not_releases hks, onLink, onLink, hj.pending]
    split
    · rename_i hpop
      exact List.tail_append_of_ne_nil (h.popping hpop)
    · rfl
  have hbegun : begun (l ++ [.handed d.due.1 (s.now 0)]) = begun l := by
    rw [begun_append]
    exact List.append_nil _
  have htaken : takenIn (l ++ [.handed d.due.1 (s.now 0)]) = takenIn l := by
    rw [takenIn_append]
    exact List.append_nil _
  have hhanded : handedIn (l ++ [.handed d.due.1 (s.now 0)])
      = handedIn l ++ [(d.due.1, s.now 0)] := handedIn_append ..
  constructor
  case link => exact hlink
  case clock => rw [hclock]; exact h.clock
  case single => rw [countP_append hks]; exact h.single
  case popping => simp [hj.pending]
  case handed => rw [hhanded, hj.handed, h.handed, List.map_append]; rfl
  case taken => rw [htaken, hj.taken, h.taken]
  case past => rw [hbegun, now, hclock]; exact h.past
  case sorted =>
    rw [hon]
    refine List.pairwise_append.mpr ⟨h.sorted, List.pairwise_singleton .., fun d' hd' x hx => ?_⟩
    rw [List.mem_singleton.mp hx, hdue]
    exact h.soon d' hd'
  case soon =>
    rw [hon, now, hclock]
    intro d' hd'
    rcases List.mem_append.mp hd' with hd' | hd'
    · exact h.soon d' hd'
    · rw [List.mem_singleton.mp hd', hdue]
      exact le_refl _
  case order =>
    obtain ⟨A, hA, hfst⟩ := h.order
    refine ⟨A, ?_, by rw [htaken]; exact hfst⟩
    rw [hhanded, hon, List.map_append, hA, List.map_append, List.append_assoc]
    simp [PendingFarDispatch.due, hdue]
  case releasing =>
    rw [any_append hks, hbegun, hon, now, hclock]
    intro hany
    obtain ⟨bs, hbs, hlate⟩ := h.releasing hany
    refine ⟨bs, hbs, fun hun d' hd' u hu => ?_⟩
    rcases List.mem_append.mp hd' with hd' | hd'
    · exact hlate hun.left d' hd' u hu
    · have hpast := h.past true u (by rw [hbs]; exact List.mem_append_left _ hu)
      rw [List.mem_singleton.mp hd', hdue]
      omega
  case idle =>
    rw [any_append hks, hbegun, hon]
    intro hany hun d' hd' u hu
    rcases List.mem_append.mp hd' with hd' | hd'
    · exact h.idle hany hun.left d' hd' u hu
    · have hpast := h.past true u hu
      rw [List.mem_singleton.mp hd', hdue]
      omega
  case prompt => exact prompt_append h.prompt (by simp [LinkEvent.taken?])

/-- Far memory refused something: nothing else is seen. -/
theorem refused (h : LinkInv L K s l) : LinkInv L K s (l ++ [.refused (s.now 0)]) := by
  have hbegun : begun (l ++ [.refused (s.now 0)]) = begun l := by
    rw [begun_append]
    exact List.append_nil _
  have htaken : takenIn (l ++ [.refused (s.now 0)]) = takenIn l := by
    rw [takenIn_append]
    exact List.append_nil _
  have hhanded : handedIn (l ++ [.refused (s.now 0)]) = handedIn l := by
    rw [handedIn_append]
    exact List.append_nil _
  constructor
  case link => exact h.link
  case clock => exact h.clock
  case single => exact h.single
  case popping => exact h.popping
  case handed => rw [hhanded]; exact h.handed
  case taken => rw [htaken]; exact h.taken
  case past => rw [hbegun]; exact h.past
  case sorted => exact h.sorted
  case soon => exact h.soon
  case order => rw [hhanded, htaken]; exact h.order
  case releasing =>
    intro hany
    obtain ⟨bs, hbs, hlate⟩ := h.releasing hany
    exact ⟨bs, hbegun.trans hbs, fun hun => hlate hun.left⟩
  case idle =>
    rw [hbegun]
    exact fun hany hun => h.idle hany hun.left
  case prompt => exact prompt_append h.prompt (by simp [LinkEvent.taken?])

/-- The loop is left: what waits is not due yet, unless the front was
refused. -/
theorem ended (h : LinkInv L (.processPendingFarDispatches :: K) s l) (hstill : FarStill s s')
    (hwhy : ¬ Unrefused l ∨ ∀ d ∈ s.dcm.pendingFarDispatches.head?,
      s.now d.pkt.cpu < d.targetCycle)
    (hlink : s'.dcm.linkLatencyCycles = L) (hclock : s'.clock = s.clock) :
    LinkInv L K s' l := by
  have hK := h.behind rfl
  have hon : s.onLink (.processPendingFarDispatches :: K) = s.dcm.pendingFarDispatches :=
    if_neg (by simp [not_mem_of_not_releases hK])
  have hon' : s'.onLink K = s.dcm.pendingFarDispatches := by
    rw [onLink_nil_of_not_releases hK, hstill.pending]
  have hnone : K.any Call.releases = false :=
    List.any_eq_false.mpr fun k hk => by simp [hK k hk]
  obtain ⟨bs, hbs, hlate⟩ := h.releasing rfl
  have hsorted := h.sorted
  have hsoon := h.soon
  have horder := h.order
  rw [hon] at hlate hsorted hsoon horder
  refine ⟨hlink, by rw [hclock]; exact h.clock, ?_, fun hpop => absurd hpop ?_,
    hstill.handed.trans h.handed, hstill.taken.trans h.taken, by rw [now, hclock]; exact h.past,
    by rw [hon']; exact hsorted, by rw [hon', now, hclock]; exact hsoon, by rw [hon']; exact horder,
    by simp [hnone], fun _ hun d hd u hu => ?_, h.prompt⟩
  · rw [List.countP_eq_zero.mpr fun k hk => by simp [hK k hk]]
    exact Nat.zero_le 1
  · exact not_mem_of_not_releases hK
  · rw [hon'] at hd
    rw [hbs] at hu
    rcases List.mem_append.mp hu with hu | hu
    · exact hlate hun d hd u hu
    · obtain ⟨-, rfl⟩ := Prod.mk.inj (List.mem_singleton.mp hu)
      -- the front is not due, and what is behind it is due later
      have hfront := hwhy.resolve_left (not_not.mpr hun)
      cases hpf : s.dcm.pendingFarDispatches with
      | nil => rw [hpf] at hd; cases hd
      | cons front rest =>
          rw [hpf] at hd hsorted hfront
          have hlt := hfront front rfl
          rw [now, h.clock] at hlt
          rcases List.mem_cons.mp hd with rfl | hd
          · exact hlt
          · exact lt_of_lt_of_le hlt ((List.pairwise_cons.mp hsorted).1 d hd)

/-- Far memory takes the front. -/
theorem takes {d : PendingFarDispatch} {rest : List PendingFarDispatch}
    (h : LinkInv L (.processPendingFarDispatches :: K) s l)
    (hfront : s.dcm.pendingFarDispatches = d :: rest) (hdue : d.targetCycle ≤ s.now d.pkt.cpu)
    (hhanded : handedAs Packet.payload .far s'.dcm.log = handedAs Packet.payload .far s.dcm.log)
    (htaken : takenAs Packet.payload .far s'.dcm.sends
      = takenAs Packet.payload .far s.dcm.sends ++ [d.due.1])
    (hpending : s'.dcm.pendingFarDispatches = s.dcm.pendingFarDispatches)
    (hlink : s'.dcm.linkLatencyCycles = L) (hclock : s'.clock = s.clock)
    (hks : ∀ k ∈ ks, k.releases = false) :
    LinkInv L (ks ++ [.popFar] ++ K) s' (l ++ [.taken d.due.1 (s.now 0)]) := by
  have hK := h.behind rfl
  have hon : s.onLink (.processPendingFarDispatches :: K) = d :: rest := by
    rw [onLink, if_neg (by simp [not_mem_of_not_releases hK]), hfront]
  have hon' : s'.onLink (ks ++ [.popFar] ++ K) = rest := by
    rw [onLink, if_pos (by simp), hpending, hfront]
    rfl
  have hbegun : begun (l ++ [.taken d.due.1 (s.now 0)]) = begun l := by
    rw [begun_append]
    exact List.append_nil _
  have hin : takenIn (l ++ [.taken d.due.1 (s.now 0)]) = takenIn l ++ [(d.due.1, s.now 0)] :=
    takenIn_append ..
  have hsame : handedIn (l ++ [.taken d.due.1 (s.now 0)]) = handedIn l := by
    rw [handedIn_append]
    exact List.append_nil _
  rw [now, h.clock] at hdue
  obtain ⟨bs, hbs, hlate⟩ := h.releasing rfl
  obtain ⟨A, hA, hfst⟩ := h.order
  have hlen : A.length = (takenIn l).length := by simpa using congrArg List.length hfst
  have hsorted := h.sorted
  have hsoon := h.soon
  rw [hon] at hlate hsorted hsoon hA
  constructor
  case link => exact hlink
  case clock => rw [hclock]; exact h.clock
  case single =>
    rw [List.append_assoc, countP_append hks, List.singleton_append,
      List.countP_cons_of_pos rfl, List.countP_eq_zero.mpr fun k hk => by simp [hK k hk]]
  case popping => simp [hpending, hfront]
  case handed => rw [hsame]; exact hhanded.trans h.handed
  case taken => rw [hin, htaken, h.taken, List.map_append]; rfl
  case past => rw [hbegun, now, hclock]; exact h.past
  case sorted => rw [hon']; exact (List.pairwise_cons.mp hsorted).2
  case soon =>
    rw [hon', now, hclock]
    exact fun d' hd' => hsoon d' (List.mem_cons_of_mem _ hd')
  case order =>
    refine ⟨A ++ [d.due], ?_, by rw [hin, List.map_append, List.map_append, hfst]; rfl⟩
    rw [hsame, hon', hA, List.map_cons, List.append_assoc]
    rfl
  case releasing =>
    intro _
    refine ⟨bs, ?_, fun hun d' hd' u hu => ?_⟩
    · rw [hbegun, now, hclock]
      exact hbs
    · rw [hon'] at hd'
      exact hlate hun.left d' (List.mem_cons_of_mem _ hd') u hu
  case idle => simp [Call.releases]
  case prompt =>
    refine prompt_concat h.prompt ?_
    have hget : ((handedIn l).map fun x => (x.1, x.2 + L))[(takenIn l).length]? = some d.due := by
      rw [hA, ← hlen, List.getElem?_append_right (le_refl _), Nat.sub_self]
      rfl
    rw [List.getElem?_map] at hget
    obtain ⟨⟨p, t₀⟩, hget, heq⟩ := Option.map_eq_some_iff.mp hget
    obtain ⟨rfl, ht⟩ := Prod.mk.inj heq
    refine ⟨bs, t₀, hbs, hget, by rw [ht]; exact hdue, fun hun u hu => ?_⟩
    rw [ht]
    exact hlate hun d (List.mem_cons_self ..) u hu

/-- Calls that have nothing to do with the loop come and go. -/
theorem still (h : LinkInv L (c :: K) s l) (hstill : FarStill s s') (hc : c.releases = false)
    (hks : ∀ k ∈ ks, k.releases = false) (hlink : s'.dcm.linkLatencyCycles = L)
    (hclock : s'.clock = s.clock) : LinkInv L (ks ++ K) s' l := by
  have hone : ∀ k ∈ [c], k.releases = false := by simpa using hc
  have hcount := countP_append hone K
  have hany := any_append hone K
  have hon := onLink_of_not_releases (s := s) hone K
  rw [List.singleton_append] at hcount hany hon
  refine h.keep hstill.handed hstill.taken hlink hclock ?_ ?_ ?_ fun hpop => ?_
  · rw [onLink_of_not_releases hks, hon, onLink, onLink, hstill.pending]
  · rw [any_append hks, hany]
  · rw [countP_append hks, ← hcount]
    exact h.single
  · rw [hstill.pending]
    exact h.popping (List.mem_cons_of_mem _ ((List.mem_append.mp hpop).resolve_left
      (not_mem_of_not_releases hks)))

/-- **One call on the link.** -/
theorem step (h : LinkInv L (c :: K) s l) (hL : 0 < L) (hstep : LinkStep s c s' ks)
    (hlink : s'.dcm.linkLatencyCycles = L) (hclock : s'.clock = s.clock) :
    LinkInv L (ks ++ K) s' (l ++ watchExec c s s') := by
  cases hstep with
  | still hstill hc hks =>
      rw [watchExec, refuses_of_not_releases hc, if_neg Bool.false_ne_true, hstill.seen,
        List.append_nil, List.append_nil]
      exact h.still hstill hc hks hlink hclock
  | joins d hj hc hks =>
      rw [watchExec, refuses_of_not_releases hc, if_neg Bool.false_ne_true, hj.seen,
        List.nil_append]
      have hbehind : LinkInv L ([] ++ K) s l := h.still (.refl s) hc (by simp) h.link rfl
      exact hbehind.joins hL hj hlink hclock hks
  | ended hstill hwhy =>
      rw [watchExec, hstill.seen, List.append_nil, List.nil_append]
      cases hr : s.refuses .processPendingFarDispatches with
      | true =>
          have hun : ¬ Unrefused (l ++ [.refused (s.now 0)]) := fun hun => by
            cases hun _ (List.mem_append_right _ (List.mem_singleton_self _))
          exact h.refused.ended hstill (.inl hun) hlink hclock
      | false =>
          rw [if_neg Bool.false_ne_true, List.append_nil]
          exact h.ended hstill (.inr (hwhy hr)) hlink hclock
  | taken d rest hfront hdue hhanded htaken hpending hok hks =>
      have hseen : s.linkSeen s' = [.taken d.due.1 (s.now 0)] := by
        simp [linkSeen, hhanded, htaken]
      rw [watchExec, hok, if_neg Bool.false_ne_true, hseen, List.nil_append]
      exact h.takes hfront hdue hhanded htaken hpending hlink hclock hks
  | popped hhanded htaken hpending =>
      have hseen : s.linkSeen s' = [] := by simp [linkSeen, hhanded, htaken]
      have hK := h.behind rfl
      have hok : s.refuses .popFar = false := rfl
      rw [watchExec, hok, if_neg Bool.false_ne_true, hseen, List.append_nil, List.append_nil]
      refine h.keep hhanded htaken hlink hclock ?_ rfl ?_ (by simp [not_mem_of_not_releases hK])
      · rw [onLink, if_neg (by simp [not_mem_of_not_releases hK]), onLink, if_pos (by simp), hpending]
      · rw [List.singleton_append, List.countP_cons_of_pos rfl,
          List.countP_eq_zero.mpr fun k hk => by simp [hK k hk]]

/-- An operation begins. -/
theorem began (h : LinkInv L [] s l) (op : Op) :
    LinkInv L (if op.isOperate then operateCalls else []) s
      (l ++ [.began op.isOperate (s.now 0)]) := by
  have hbegun : begun (l ++ [.began op.isOperate (s.now 0)])
      = begun l ++ [(op.isOperate, s.now 0)] := begun_append ..
  have htaken : takenIn (l ++ [.began op.isOperate (s.now 0)]) = takenIn l := by
    rw [takenIn_append]
    exact List.append_nil _
  have hhanded : handedIn (l ++ [.began op.isOperate (s.now 0)]) = handedIn l := by
    rw [handedIn_append]
    exact List.append_nil _
  have hidle := h.idle rfl
  have hnil : s.onLink [] = s.dcm.pendingFarDispatches := if_neg (by simp)
  have hon : s.onLink (if op.isOperate then operateCalls else []) = s.onLink [] := by
    rw [hnil]
    cases op.isOperate <;> exact if_neg (by simp [operateCalls])
  constructor
  case link => exact h.link
  case clock => exact h.clock
  case single => cases op.isOperate <;> decide
  case popping => cases op.isOperate <;> simp [operateCalls]
  case handed => rw [hhanded]; exact h.handed
  case taken => rw [htaken]; exact h.taken
  case past =>
    rw [hbegun]
    intro b t hbt
    rcases List.mem_append.mp hbt with hbt | hbt
    · exact h.past b t hbt
    · exact (Prod.mk.inj (List.mem_singleton.mp hbt)).2.le
  case sorted => rw [hon]; exact h.sorted
  case soon => rw [hon]; exact h.soon
  case order => rw [hon, hhanded, htaken]; exact h.order
  case releasing =>
    intro hany
    have hop : op.isOperate = true := by
      by_contra hop
      rw [if_neg hop] at hany
      cases hany
    refine ⟨begun l, by rw [hbegun, hop], fun hun => ?_⟩
    rw [hon]
    exact hidle hun.left
  case idle =>
    intro hany hun d hd u hu
    have hop : op.isOperate = false := by
      by_contra hop
      rw [Bool.not_eq_false] at hop
      rw [if_pos hop] at hany
      cases hany
    rw [hon] at hd
    rw [hbegun, hop] at hu
    rcases List.mem_append.mp hu with hu | hu
    · exact hidle hun.left d hd u hu
    · cases List.mem_singleton.mp hu
  case prompt => exact prompt_append h.prompt (by simp [LinkEvent.taken?])

/-- The clock moves on. -/
theorem ticked {clk : Clock} (h : LinkInv L [] s l) (hle : s.clock.cycle 0 ≤ clk.cycle 0)
    (hclk : ∀ cpu, clk.cycle cpu = clk.cycle 0) : LinkInv L [] { s with clock := clk } l where
  link := h.link
  clock := hclk
  single := h.single
  popping := h.popping
  handed := h.handed
  taken := h.taken
  past b t hbt := (h.past b t hbt).trans hle
  sorted := h.sorted
  soon d hd := (h.soon d hd).trans (Nat.add_le_add_right hle L)
  order := h.order
  releasing := by simp
  idle := h.idle
  prompt := h.prompt

end LinkInv

/-- The link latency is fixed, and there is one clock. -/
def Op.Linked (L : Nat) : Op → Prop
  | .setLinkLatency n => n = L
  | .tick clk => ∀ cpu, clk.cycle cpu = clk.cycle 0
  | _ => True

namespace LinkInv

open Sys

variable {L : Nat} {s : Sys} {l : List LinkEvent}

/-- **One operation on the link.** -/
theorem enter {op : Op} (h : LinkInv L [] s l) (hL : 0 < L) (hp : Poised [] s)
    (hop : op.Linked L) (hon : op.onward s = true) :
    LinkInv L (s.enter op).2 (s.enter op).1 (l ++ watchEnter op s (s.enter op).1) := by
  have hbegan := h.began op
  rcases enter_clock s op with hclock | ⟨clk, rfl, -⟩
  · have hlink : (s.enter op).1.dcm.linkLatencyCycles = L := by
      have hlat := congrArg Prod.fst (enter_latencies s op)
      cases op with
      | setLinkLatency n => exact hop
      | _ => exact hlat.trans h.link
    obtain ⟨hstep, hks⟩ := enter_linkStep (h.link ▸ hL.ne') hp op
    rw [watchEnter, ← List.singleton_append, ← List.append_assoc]
    by_cases hoperate : op = .operate
    · subst hoperate
      have hseen : s.linkSeen (s.enter .operate).1 = [] := (FarStill.refl s).seen
      rw [hseen, List.append_nil]
      exact hbegan
    · have hcalls := hks.resolve_left hoperate
      have hfalse : op.isOperate = false := by
        cases op <;> first | rfl | exact absurd rfl hoperate
      rw [hfalse, if_neg Bool.false_ne_true] at hbegan
      rw [hfalse]
      rcases hstep with hstill | ⟨-, d, hj⟩
      · rw [hstill.seen, List.append_nil]
        refine hbegan.keep hstill.handed hstill.taken hlink hclock ?_ ?_ ?_ fun hpop => ?_
        · rw [onLink_nil_of_not_releases hcalls, hstill.pending]
          rfl
        · exact List.any_eq_false.mpr fun k hk => by simp [hcalls k hk]
        · rw [List.countP_eq_zero.mpr fun k hk => by simp [hcalls k hk]]
          exact Nat.zero_le 1
        · exact absurd hpop (not_mem_of_not_releases hcalls)
      · rw [hj.seen]
        have hjoins := hbegan.joins hL hj hlink hclock hcalls
        rwa [List.append_nil] at hjoins
  · have hmoved := hbegan.ticked (of_decide_eq_true hon) hop
    have hseen : s.linkSeen ({ s with clock := clk } : Sys) = [] := by simp [linkSeen]
    show LinkInv L [] { s with clock := clk } _
    rw [watchEnter, Sys.enter, hseen]
    exact hmoved

end LinkInv

/-! ## Runs -/

/-- The memory system with one clock, watched on the link. -/
def linkMachine : Worklist.Machine Op (Sys × List LinkEvent) Call Assertion :=
  (machine.gated Op.onward).watched watchEnter watchExec

section Run

open Sys (Poised Awake)

variable {L : Nat} {allow : Op → Prop} {near far : MemoryController} {clk : Clock}
  {frontend backend : Nat} {x : Worklist.Config (Sys × List LinkEvent) Call}

/-- A system that was just constructed and given a link latency. -/
def Sys.bootLinked (near far : MemoryController) (clk : Clock) (frontend backend L : Nat) : Sys :=
  ((Sys.boot near far clk frontend backend).enter (.setLinkLatency L)).1

theorem linkInv_of_boot (hL : 0 < L) (hallow : ∀ op, allow op → op.Linked L) (hnear : near.Ok)
    (hfar : far.Ok) (hclk : ∀ cpu, clk.cycle cpu = clk.cycle 0)
    (h : ReachesIf linkMachine allow (fun _ => True)
      (.bootLinked near far clk frontend backend L, []) x) :
    (Poised x.1 x.2.1 ∧ Awake x.1 x.2.1) ∧ LinkInv L x.1 x.2.1 x.2.2 := by
  refine h.invariant (P := fun x => (Poised x.1 x.2.1 ∧ Awake x.1 x.2.1) ∧
    LinkInv L x.1 x.2.1 x.2.2) ⟨?_, ?_⟩ ?_ ?_
  · obtain ⟨hp, ha⟩ := Sys.boot_poised hnear hfar clk frontend backend
    exact ⟨(Sys.enter_openEnter hp.mcOk (.setLinkLatency L)).poised hp, ha.enter _⟩
  · have hon : (Sys.bootLinked near far clk frontend backend L).onLink [] = [] := if_neg (by simp)
    exact ⟨rfl, hclk, Nat.zero_le 1, by simp, rfl, rfl, by simp [begun],
      by rw [hon]; exact List.Pairwise.nil, by simp [hon], ⟨[], by rw [hon]; rfl, rfl⟩, by simp,
      by simp [begun], by simp⟩
  · rintro op ⟨s, l⟩ ha - - ⟨⟨hp, hawake⟩, hinv⟩
    by_cases hon : op.onward s = true
    · have he : (machine.gated Op.onward).enter op s = s.enter op := if_pos hon
      have hstep := Sys.enter_openEnter hp.mcOk op
      simp only [linkMachine, Worklist.Machine.watched, he]
      exact ⟨⟨hstep.poised hp, hawake.enter op⟩, hinv.enter hL hp (hallow op ha) hon⟩
    · have he : (machine.gated Op.onward).enter op s = (s, []) := if_neg hon
      have hfalse : op.isOperate = false := by
        cases op <;> first | rfl | exact absurd rfl hon
      have hbegan := hinv.began op
      rw [hfalse, if_neg Bool.false_ne_true] at hbegan
      simp only [linkMachine, Worklist.Machine.watched, he, watchEnter, hfalse,
        (Sys.FarStill.refl s).seen]
      exact ⟨⟨hp, hawake⟩, hbegan⟩
  · rintro c K ⟨s, l⟩ ⟨s', l'⟩ ks - - ⟨⟨hp, hawake⟩, hinv⟩ he
    obtain ⟨he, hl'⟩ := Worklist.watched_exec he
    have he : s.exec c = .ok (s', ks) := he
    have hstep := hp.callStep hawake he
    have hlink : s'.dcm.linkLatencyCycles = s.dcm.linkLatencyCycles :=
      congrArg Prod.fst (Sys.exec_frontStep he).latencies
    have hclock : s'.clock = s.clock := congrArg Prod.fst (Sys.exec_env he)
    refine ⟨⟨hp.step hstep, hawake.step hstep he⟩, ?_⟩
    simp only at hl' ⊢
    rw [hl']
    exact hinv.step hL (Sys.exec_linkStep (hinv.link ▸ hL.ne') hp hawake he)
      (hlink.trans hinv.link) hclock

/-- **The link takes its latency.** What was handed over for far memory is
what far memory has taken, then what waits, in that order. Every packet is
taken by an `operate` that comes `L` cycles or more after it was handed over,
and by the first such when far memory refuses nothing; nothing that waits
at a call boundary has missed it. -/
theorem link_latency (hL : 0 < L) (hallow : ∀ op, allow op → op.Linked L) (hnear : near.Ok)
    (hfar : far.Ok) (hclk : ∀ cpu, clk.cycle cpu = clk.cycle 0)
    (h : ReachesIf linkMachine allow (fun _ => True)
      (.bootLinked near far clk frontend backend L, []) x) :
    handedAs Packet.payload .far x.2.1.dcm.log = (handedIn x.2.2).map Prod.fst ∧
    takenAs Packet.payload .far x.2.1.dcm.sends = (takenIn x.2.2).map Prod.fst ∧
    (handedIn x.2.2).map Prod.fst = (takenIn x.2.2).map Prod.fst
      ++ (x.2.1.onLink x.1).map (fun d => (d.pkt.payload, d.isWrite)) ∧
    (∀ l₁ p t l₂, x.2.2 = l₁ ++ .taken p t :: l₂ → Prompt L l₁ p t) ∧
    (x.1 = [] → Unrefused x.2.2 → ∀ i p t₀, (takenIn x.2.2).length ≤ i →
      (handedIn x.2.2)[i]? = some (p, t₀) → ∀ u, (true, u) ∈ begun x.2.2 → u < t₀ + L) := by
  have hinv := (linkInv_of_boot hL hallow hnear hfar hclk h).2
  obtain ⟨A, hA, hfst⟩ := hinv.order
  refine ⟨hinv.handed, hinv.taken, ?_, hinv.prompt, fun hnil hun i p t₀ hi hget u hu => ?_⟩
  · have hmap := congrArg (List.map Prod.fst) hA
    rw [List.map_append, List.map_map, List.map_map, hfst] at hmap
    exact hmap
  · have hlen : A.length = (takenIn x.2.2).length := by simpa using congrArg List.length hfst
    have hget' : (A ++ (x.2.1.onLink x.1).map PendingFarDispatch.due)[i]? = some (p, t₀ + L) := by
      rw [← hA, List.getElem?_map, hget]
      rfl
    rw [List.getElem?_append_right (by omega), List.getElem?_map] at hget'
    obtain ⟨d, hd, hdue⟩ := Option.map_eq_some_iff.mp hget'
    have hlt := hinv.idle (by rw [hnil]; rfl) hun d (List.mem_of_getElem? hd) u hu
    have htarget : d.targetCycle = t₀ + L := congrArg Prod.snd hdue
    omega

/-- A read miss at cycle 0: the far fetch is handed over at cycle 1, too early
for far memory at cycle 5, and taken at cycle 6. -/
theorem link_latency_fetch :
    ∃ s l, Worklist.drive linkMachine 60
        [.finishWarmup, .addRq (.readOf 7), .tick (.at 1 (by decide)), .operate,
          .tick (.at 5 (by decide)), .operate, .tick (.at 6 (by decide)), .operate]
        (.bootLinked (.new 0 0 0 0) (.new 0 0 0 0) .zero 0 0 5, []) = some (s, l) ∧
      (handedIn l).map (fun x => (x.1.1.address, x.2)) = [(7, 1)] ∧
      (takenIn l).map (fun x => (x.1.1.address, x.2)) = [(7, 6)] ∧
      (∀ l₁ p t l₂, l = l₁ ++ .taken p t :: l₂ → Prompt 5 l₁ p t) ∧
      (Unrefused l → ∀ i p t₀, (takenIn l).length ≤ i → (handedIn l)[i]? = some (p, t₀) →
        ∀ u, (true, u) ∈ begun l → u < t₀ + 5) := by
  obtain ⟨⟨s, l⟩, hs, hseen⟩ := Option.map_eq_some_iff.mp (show (Worklist.drive linkMachine 60
    [.finishWarmup, .addRq (.readOf 7), .tick (.at 1 (by decide)), .operate,
      .tick (.at 5 (by decide)), .operate, .tick (.at 6 (by decide)), .operate]
    (.bootLinked (.new 0 0 0 0) (.new 0 0 0 0) .zero 0 0 5, [])).map
      (fun x => ((handedIn x.2).map (fun x => (x.1.1.address, x.2)),
        (takenIn x.2).map (fun x => (x.1.1.address, x.2))))
      = some ([(7, 1)], [(7, 6)]) from by decide +kernel)
  have hr : ReachesIf linkMachine (Op.Linked 5) (fun _ => True)
      (.bootLinked (.new 0 0 0 0) (.new 0 0 0 0) .zero 0 0 5, []) ([], (s, l)) := by
    refine Worklist.drive_reaches ?_ .refl hs
    simp [Op.Linked, Clock.at]
  obtain ⟨-, -, -, hprompt, hlate⟩ := link_latency (by decide) (fun _ h => h)
    (MemoryController.new_ok ..) (MemoryController.new_ok ..) (fun _ => rfl) hr
  exact ⟨s, l, hs, (Prod.mk.inj hseen).1, (Prod.mk.inj hseen).2, hprompt, hlate rfl⟩

end Run

end DramCache
