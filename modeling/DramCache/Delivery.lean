import DramCache.History
import DramCache.Steps

/-!
# Delivery

Every packet handed over for a controller is waiting for it or has been
taken by it, once. Near memory takes them in the order they were handed
over, and so does far memory when the link has a latency; without one a
packet may pass those that wait for room.

The log has what was handed over, `sends` what the controllers said, and
`inbound` puts what a controller has taken before what still waits for it.
`CallStep.handedAs` says what one call does to the two, for whatever is seen
of a packet (`f`), and `CallStep.handed` for its line.
-/

namespace DramCache

open Worklist (ReachesIf)

/-! ## What is seen of a packet -/

section View

variable {α : Type*} (f : Packet → α)

/-- What is seen of a packet that is handed over for a side. -/
def Event.handedAs? (side : Side) : Event → Option (α × Bool)
  | .handNear _ _ pkt w => if side = .near then some (f pkt, w) else none
  | .handFar _ pkt w => if side = .far then some (f pkt, w) else none
  | _ => none

def handedAs (side : Side) (log : List Event) : List (α × Bool) :=
  log.filterMap (Event.handedAs? f side)

theorem handedAs_append (side : Side) (l₁ l₂ : List Event) :
    handedAs f side (l₁ ++ l₂) = handedAs f side l₁ ++ handedAs f side l₂ := List.filterMap_append ..

def Send.takenAs? (side : Side) (x : Send) : Option (α × Bool) :=
  if x.side = side ∧ x.accepted = true then some (f x.pkt, x.isWrite) else none

def takenAs (side : Side) (sends : List Send) : List (α × Bool) :=
  sends.filterMap (Send.takenAs? f side)

theorem takenAs_append (side : Side) (l₁ l₂ : List Send) :
    takenAs f side (l₁ ++ l₂) = takenAs f side l₁ ++ takenAs f side l₂ := List.filterMap_append ..

theorem takenAs_concat {x : Send} (h : x.accepted = true) (l : List Send) (y : Side) :
    takenAs f y (l ++ [x]) = takenAs f y l ++ if y = x.side then [(f x.pkt, x.isWrite)] else [] := by
  rw [takenAs_append]
  by_cases hy : y = x.side
  · simp [takenAs, Send.takenAs?, h, hy]
  · simp [takenAs, Send.takenAs?, Ne.symm hy, hy]

theorem takenAs_refused {x : Send} (h : x.accepted = false) (l : List Send) (side : Side) :
    takenAs f side (l ++ [x]) = takenAs f side l := by
  simp [takenAs, Send.takenAs?, h]

def packed (l : List (Packet × Bool)) : List (α × Bool) := l.map fun p => (f p.1, p.2)

namespace Sys

/-- What a side's controller has taken, then what waits for it. -/
def inboundAs (h : Option Call) (s : Sys) (side : Side) : List (α × Bool) :=
  takenAs f side s.dcm.sends ++ packed f (s.live h side)

theorem inboundAs_congr {h h' : Option Call} {s s' : Sys} {side : Side}
    (hsends : s'.dcm.sends = s.dcm.sends) (hlive : s'.live h' side = s.live h side) :
    s'.inboundAs f h' side = s.inboundAs f h side := by
  rw [inboundAs, inboundAs, hsends, hlive]

theorem live_congr {s s' : Sys} {side : Side} (h : Option Call)
    (hpend : s'.dcm.pending side = s.dcm.pending side) : s'.live h side = s.live h side := by
  rw [live, live, hpend]

/-- A packet is put among those on their way, behind all that were taken;
at the end unless it is offered past the pending ones and taken. -/
def JoinsAs (h : Option Call) (s s' : Sys) (side : Side) (p : α × Bool) (l : List (α × Bool)) :
    Prop :=
  ∃ l₁ l₂, s.inboundAs f h side = l₁ ++ l₂ ∧ l = l₁ ++ p :: l₂ ∧
    ((s.Direct side → s.live h side = []) ∨ s'.dcm.pending side ≠ s.dcm.pending side → l₂ = [])

variable {f}

theorem JoinsAs.last {h : Option Call} {s s' : Sys} {side : Side} {p : α × Bool}
    {l : List (α × Bool)} (hj : JoinsAs f h s s' side p l)
    (hlast : (s.Direct side → s.live h side = []) ∨ s'.dcm.pending side ≠ s.dcm.pending side) :
    l = s.inboundAs f h side ++ [p] := by
  obtain ⟨l₁, l₂, hin, rfl, hnil⟩ := hj
  rw [hin, hnil hlast, List.append_nil]

section Send

variable {s s' : Sys} {side : Side} {pkt : Packet} {w : Bool} {ks : List Call}

/-- A packet the controller takes is the next it has taken. -/
theorem Sent.takenAs (hf : ∀ pkt, f (s.stamp pkt) = f pkt) (hs : Sent s side pkt w s' true ks)
    (x : Side) : DramCache.takenAs f x s'.dcm.sends
      = DramCache.takenAs f x s.dcm.sends ++ if x = side then [(f pkt, w)] else [] := by
  cases hs with
  | wrote _ hsends ho =>
      rw [hsends, takenAs_concat f ho, hf]
  | inserted _ _ _ _ _ _ hsends =>
      rw [hsends, takenAs_concat f rfl, hf]
  | forwarded _ _ hsends =>
      rw [hsends, takenAs_concat f rfl, hf]

theorem takenAs_of_refused
    (hsends : s'.dcm.sends = s.dcm.sends ∨ w = false ∧
      ∃ i, s'.dcm.sends = s.dcm.sends ++ [⟨side, s.stamp pkt, false, .merged i⟩]) (x : Side) :
    DramCache.takenAs f x s'.dcm.sends = DramCache.takenAs f x s.dcm.sends := by
  rcases hsends with hsends | ⟨-, i, hsends⟩
  · rw [hsends]
  · rw [hsends, takenAs_refused f rfl]

/-- A dispatched packet joins those of its side. -/
theorem Dispatched.inboundAs {h : Option Call} (hf : ∀ pkt, f (s.stamp pkt) = f pkt)
    (hd : Dispatched s side pkt w s' ks) (hpop : ∀ x, h = some x.pop → s.dcm.pending x ≠ []) :
    JoinsAs f h s s' side (f pkt, w) (s'.inboundAs f h side) ∧
      ∀ x, x ≠ side → s'.inboundAs f h x = s.inboundAs f h x := by
  cases hd with
  | sent hs hdirect hpend =>
      refine ⟨⟨DramCache.takenAs f side s.dcm.sends, packed f (s.live h side), rfl, ?_,
        fun hlive => ?_⟩, fun x hx => ?_⟩
      · rw [Sys.inboundAs, hs.takenAs hf, if_pos rfl, live_congr h (hpend side), List.append_assoc]
        rfl
      · rw [hlive.resolve_right (not_not.mpr (hpend side)) hdirect]
        rfl
      · rw [Sys.inboundAs, hs.takenAs hf, if_neg hx, live_congr h (hpend x), List.append_nil,
          Sys.inboundAs]
  | queued _ hpend hother hsends =>
      have hlive : s'.live h side = s.live h side ++ [(pkt, w)] := by
        unfold live
        split
        · rename_i hh
          rw [hpend, List.tail_append_of_ne_nil (hpop side hh)]
        · exact hpend
      refine ⟨⟨s.inboundAs f h side, [], (List.append_nil _).symm, ?_, fun _ => rfl⟩,
        fun x hx => ?_⟩
      · rw [Sys.inboundAs, takenAs_of_refused hsends, hlive, packed, List.map_append,
          ← List.append_assoc]
        rfl
      · rw [Sys.inboundAs, takenAs_of_refused hsends, live_congr h (hother x hx), Sys.inboundAs]

end Send

/-! ### What a call hands over -/

theorem handedAs_silent {side : Side} {evs : List Event}
    (h : ∀ ev ∈ evs, ev.handedAs? f side = none) : handedAs f side evs = [] :=
  List.filterMap_eq_nil_iff.mpr h

/-- Only the calls that dispatch hand over. -/
theorem handedAs_of_emits {c : Call} {ev : Event} (hc : c.dispatches = false)
    (h : c.emits ev = true) (side : Side) : ev.handedAs? f side = none := by
  cases ev with
  | handNear => cases c <;> first | (cases hc; done) | cases h
  | handFar => cases c <;> first | (cases hc; done) | cases h
  | _ => rfl

variable (f)

/-- Nothing is handed over for a side, or one packet is, which joins those
on their way to its controller. -/
def HandsOverAs (h h' : Option Call) (s s' : Sys) (x : Side) : Prop :=
  handedAs f x s'.dcm.log = handedAs f x s.dcm.log ∧ s'.inboundAs f h' x = s.inboundAs f h x ∨
    ∃ p, handedAs f x s'.dcm.log = handedAs f x s.dcm.log ++ [p] ∧
      JoinsAs f h s s' x p (s'.inboundAs f h' x)

variable {f}

/-- A packet that is dispatched and logged. -/
theorem Dispatched.handsOverAs {s s' : Sys} {side : Side} {pkt : Packet} {w : Bool}
    {L : List Call} {ev : Event} {h : Option Call} (hf : ∀ pkt, f (s.stamp pkt) = f pkt)
    (hd : Dispatched s side pkt w s' L) (hpop : ∀ x, h = some x.pop → s.dcm.pending x ≠ [])
    (hlog : s'.dcm.log = s.dcm.log ++ [ev])
    (hev : ∀ x, ev.handedAs? f x = if x = side then some (f pkt, w) else none) (x : Side) :
    HandsOverAs f h h s s' x := by
  have hlog' : DramCache.handedAs f x s'.dcm.log
      = DramCache.handedAs f x s.dcm.log ++ (ev.handedAs? f x).toList := by
    rw [hlog, handedAs_append]
    cases he : ev.handedAs? f x <;> simp [DramCache.handedAs, he]
  obtain ⟨hjoins, hother⟩ := hd.inboundAs hf hpop
  rw [HandsOverAs, hlog', hev]
  by_cases hx : x = side
  · subst hx
    rw [if_pos rfl]
    exact .inr ⟨_, rfl, hjoins⟩
  · rw [if_neg hx]
    exact .inl ⟨List.append_nil _, hother x hx⟩

/-- What one call hands over. -/
theorem CallStep.handedAs {s s' : Sys} {c : Call} {K ks : List Call}
    (hf : ∀ pkt, f (s.stamp pkt) = f pkt) (hp : Poised (c :: K) s)
    (hstep : CallStep s c s' ks) (x : Side) :
    HandsOverAs f (hook (c :: K)) (hook (ks ++ K)) s s' x := by
  -- one packet is dispatched and logged
  have hone : ∀ {side pkt w L ev}, Dispatched s side pkt w s' L → ks = L ∨
      (∃ k, k.rank = 1 ∧ ks = L ++ [k]) → c.rank ≠ 2 →
      s'.dcm.log = s.dcm.log ++ [ev] →
      (∀ x, ev.handedAs? f x = if x = side then some (f pkt, w) else none) →
      HandsOverAs f (hook (c :: K)) (hook (ks ++ K)) s s' x := by
    intro side pkt w L ev hd hks hc hlog hev
    have hhook : hook (ks ++ K) = hook (c :: K) := by
      refine hook_replaced (fun k hk => ?_) hc
      rcases hks with rfl | ⟨k', hk', rfl⟩
      · exact hd.calls_rank k hk
      · rcases List.mem_append.mp hk with hk | hk
        · exact hd.calls_rank k hk
        · rw [List.mem_singleton.mp hk, hk']
    rw [hhook]
    exact hd.handsOverAs hf hp.pop hlog hev x
  have hlog : ∀ {m : Manager}, s'.dcm.core = m → s'.dcm.log = m.log := fun h => by
    rw [← h]
    rfl
  cases hstep with
  | core hc ht hks hfront =>
      obtain ⟨evs, hevs, hemit⟩ := hfront.emits
      have hrank := Call.rank_of_not_dispatches hc
      refine .inl ⟨?_, inboundAs_congr f ht.sends ?_⟩
      · have hlog : s'.dcm.log = s.dcm.log ++ evs := hevs
        have hsilent : DramCache.handedAs f x evs = [] :=
          handedAs_silent fun ev hev => handedAs_of_emits hc (hemit ev hev) x
        rw [hlog, handedAs_append, hsilent, List.append_nil]
      · rw [hook_replaced (fun k hk => Call.rank_of_not_bystander (hks k hk)) hrank]
        exact live_congr _ (ht.pending x)
  | drive hd =>
      cases hd with
      | idle => exact .inl ⟨rfl, by rw [List.nil_append, hook_cons (by simp [Call.rank])]⟩
      | readNear now hl hs hcore hd =>
          exact hone hd (.inl rfl) (by simp [Call.rank]) (hlog hcore) fun x => rfl
      | readFar now hl hs hcore hd =>
          exact hone hd (.inl rfl) (by simp [Call.rank]) (hlog hcore) fun x => rfl
      | writeNear now hl hs hcore hd =>
          exact hone hd (.inr ⟨_, rfl, rfl⟩) (by simp [Call.rank]) (hlog hcore) fun x => rfl
  | fill hcore hd => exact hone hd (.inl rfl) (by simp [Call.rank]) (hlog hcore) fun x => rfl
  | kept hcore ht =>
      refine .inl ⟨by rw [hlog hcore]; rfl, inboundAs_congr f ht.sends ?_⟩
      rw [List.nil_append, hook_cons (by simp [Call.rank])]
      exact live_congr _ (ht.pending x)
  | drained _ hcore hd _ =>
      exact hone hd (.inl rfl) (by simp [Call.rank]) (hlog hcore) fun x => rfl
  | @released side _ _ hcore hr =>
      refine .inl ⟨by rw [hlog hcore]; rfl, ?_⟩
      have hbefore : hook (side.process :: K) = none :=
        hp.stacked.hook_phase (by simp) (by simp)
      cases hr with
      | kept _ hpend hsends =>
          rw [List.nil_append, hp.stacked.hook_tail (by simp), hbefore, inboundAs, inboundAs,
            live_congr none (hpend x)]
          congr 1
          rcases hsends with hsends | ⟨_, _, hsends⟩ <;> rw [hsends]
          exact takenAs_refused f rfl ..
      | @sent pkt w _ ks hfront hpend hsent =>
          have hafter : hook (ks ++ [side.pop] ++ K) = some side.pop :=
            hook_pushed hsent.calls_rank side.pop_rank
          rw [hbefore, hafter, inboundAs, inboundAs, hsent.takenAs hf]
          by_cases hx : x = side
          · subst hx
            rw [if_pos rfl, live, if_pos rfl, live, if_neg (by simp), hpend, hfront,
              List.append_assoc]
            rfl
          · have hpop : some side.pop ≠ some x.pop := fun heq =>
              hx (Side.pop_inj (Option.some.inj heq)).symm
            rw [if_neg hx, live, if_neg hpop, live, if_neg (by simp), hpend, List.append_nil]
  | @popped side _ hcore _ hpend hother hsends =>
      refine .inl ⟨by rw [hlog hcore]; rfl, ?_⟩
      have hafter : hook ([side.process] ++ K) = none :=
        hp.stacked.hook_phase (by simp) (by simp)
      rw [hafter, hook_cons_self side.pop_rank]
      refine inboundAs_congr f hsends ?_
      rw [live, if_neg (by simp), live]
      by_cases hx : x = side
      · rw [hx, if_pos rfl, hpend]
      · rw [if_neg fun heq => hx (Side.pop_inj (Option.some.inj heq)).symm, hother x hx]
  | served hc hdcm =>
      refine .inl ⟨by rw [hdcm], inboundAs_congr f (by rw [hdcm]) ?_⟩
      obtain ⟨side, rfl | rfl⟩ := hc <;>
        rw [List.nil_append, hook_cons (by simp [Call.rank]), live, live, hdcm]
  | @finished side _ i b pkt hdcm =>
      refine .inl ⟨by rw [hdcm], inboundAs_congr f (by rw [hdcm]) ?_⟩
      have hbefore : hook (.operateController side :: K) = none :=
        hp.stacked.hook_phase (by simp [Call.rank]) (by simp [Call.rank])
      have hafter : hook ([.returnData side pkt, .processReadDone side i b] ++ K)
          = some (.processReadDone side i b) := rfl
      rw [hbefore, hafter, live_readDone, hdcm]
      rfl
  | @readDone side i b _ hdcm =>
      refine .inl ⟨by rw [hdcm], inboundAs_congr f (by rw [hdcm]) ?_⟩
      rw [List.nil_append, hp.stacked.hook_tail (by simp [Call.rank]), hook_cons_self rfl,
        live_readDone, live, hdcm, if_neg (by simp)]

theorem EnterStep.handedAs {s s' : Sys} {op : Op} {ks : List Call} (hstep : EnterStep s op s' ks)
    (x : Side) : DramCache.handedAs f x s'.dcm.log = DramCache.handedAs f x s.dcm.log ∧
      s'.inboundAs f (hook ks) x = s.inboundAs f none x := by
  obtain ⟨evs, hlog, hevs⟩ := hstep.front.log_append
  constructor
  · have hlog : s'.dcm.log = s.dcm.log ++ evs := hlog
    have hsilent : DramCache.handedAs f x evs = [] := handedAs_silent fun ev hev => by
      have hadm := hevs ev hev
      cases ev <;> first | rfl | cases hadm
    rw [hlog, handedAs_append, hsilent, List.append_nil]
  · rw [(FrontEnter.stacked hstep.front).2]
    exact inboundAs_congr f hstep.calm.2 (live_congr none (hstep.calm.1 x))

end Sys

end View

/-! ## Lines on their way -/

/-- A packet on its way to a controller: its line, and whether it is
written. -/
abbrev Parcel := Nat × Bool

def Event.handed? (side : Side) : Event → Option Parcel
  | .handNear _ _ pkt w => if side = .near then some (pkt.address, w) else none
  | .handFar _ pkt w => if side = .far then some (pkt.address, w) else none
  | _ => none

/-- The packets handed over for a side, in order. -/
def handed (side : Side) (log : List Event) : List Parcel := log.filterMap (Event.handed? side)

theorem handed_append (side : Side) (l₁ l₂ : List Event) :
    handed side (l₁ ++ l₂) = handed side l₁ ++ handed side l₂ := List.filterMap_append ..

def Send.taken? (side : Side) (x : Send) : Option Parcel :=
  if x.side = side ∧ x.accepted = true then some (x.pkt.address, x.isWrite) else none

/-- The packets a side's controller has taken, in order. -/
def taken (side : Side) (sends : List Send) : List Parcel := sends.filterMap (Send.taken? side)

theorem taken_append (side : Side) (l₁ l₂ : List Send) :
    taken side (l₁ ++ l₂) = taken side l₁ ++ taken side l₂ := List.filterMap_append ..

theorem taken_concat {x : Send} (h : x.accepted = true) (l : List Send) (y : Side) :
    taken y (l ++ [x])
      = taken y l ++ if y = x.side then [(x.pkt.address, x.isWrite)] else [] :=
  takenAs_concat Packet.address h l y

def parcels (l : List (Packet × Bool)) : List Parcel := l.map fun p => (p.1.address, p.2)

namespace Sys

/-- What a side's controller has taken, then what waits for it. -/
def inbound (h : Option Call) (s : Sys) (side : Side) : List Parcel :=
  taken side s.dcm.sends ++ parcels (s.live h side)

/-- A packet is put among those on their way, behind all that were taken;
at the end unless it is offered past the pending ones. -/
def Joins (h : Option Call) (s : Sys) (side : Side) (p : Parcel) (l : List Parcel) : Prop :=
  ∃ l₁ l₂, s.inbound h side = l₁ ++ l₂ ∧ l = l₁ ++ p :: l₂ ∧
    ((s.Direct side → s.live h side = []) → l₂ = [])

theorem Joins.perm {h : Option Call} {s : Sys} {side : Side} {p : Parcel} {l : List Parcel}
    (hj : Joins h s side p l) : l.Perm (p :: s.inbound h side) := by
  obtain ⟨l₁, l₂, hin, rfl, -⟩ := hj
  rw [hin]
  exact List.perm_middle

theorem Joins.last {h : Option Call} {s : Sys} {side : Side} {p : Parcel} {l : List Parcel}
    (hj : Joins h s side p l) (hdirect : s.Direct side → s.live h side = []) :
    l = s.inbound h side ++ [p] := by
  obtain ⟨l₁, l₂, hin, rfl, hlast⟩ := hj
  rw [hin, hlast hdirect, List.append_nil]

theorem handed_silent {side : Side} {evs : List Event} (h : ∀ ev ∈ evs, ev.handed? side = none) :
    handed side evs = [] := List.filterMap_eq_nil_iff.mpr h

/-- Nothing is handed over for a side, or one packet is, which joins those
on their way to its controller. -/
def HandsOver (h h' : Option Call) (s s' : Sys) (x : Side) : Prop :=
  handed x s'.dcm.log = handed x s.dcm.log ∧ s'.inbound h' x = s.inbound h x ∨
    ∃ p, handed x s'.dcm.log = handed x s.dcm.log ++ [p] ∧ Joins h s x p (s'.inbound h' x)

/-- What one call hands over. -/
theorem CallStep.handed {s s' : Sys} {c : Call} {K ks : List Call} (hp : Poised (c :: K) s)
    (hstep : CallStep s c s' ks) (x : Side) :
    HandsOver (hook (c :: K)) (hook (ks ++ K)) s s' x := by
  rcases hstep.handedAs (f := Packet.address) (fun _ => rfl) hp x with
    hsame | ⟨p, hlog, l₁, l₂, hin, hl, hlast⟩
  · exact .inl hsame
  · exact .inr ⟨p, hlog, l₁, l₂, hin, hl, fun hdirect => hlast (.inl hdirect)⟩

theorem EnterStep.handed {s s' : Sys} {op : Op} {ks : List Call} (hstep : EnterStep s op s' ks)
    (x : Side) : DramCache.handed x s'.dcm.log = DramCache.handed x s.dcm.log ∧
      s'.inbound (hook ks) x = s.inbound none x :=
  hstep.handedAs (f := Packet.address) x

end Sys

/-! ## Throughout a run -/

section Run

variable {allow : Op → Prop} {ok : Worklist.Config Sys Call → Prop} {s₀ : Sys}
  {x : Worklist.Config Sys Call}

theorem Sys.Fresh.handed {s : Sys} (h : s.Fresh) (side : Side) :
    DramCache.handed side s.dcm.log = [] ∧ s.inbound none side = [] := by
  constructor
  · refine Sys.handed_silent fun ev hev => ?_
    have hwarm := h.log ev hev
    cases ev <;> first | rfl | cases hwarm
  · have hpend : s.dcm.pending side = [] := by
      cases side with
      | near => rw [Manager.pending, h.near, List.map_nil]
      | far => rw [Manager.pending, h.far, List.map_nil]
    rw [Sys.inbound, Sys.live, if_neg (by simp), hpend, h.sends]
    rfl

/-- **Nothing handed over is lost or duplicated.** -/
theorem delivered_of_reaches (hroi : ∀ op, allow op → op.Roi) (h₀ : s₀.Fresh)
    (h : ReachesIf machine allow ok s₀ x) (side : Side) :
    (handed side x.2.dcm.log).Perm (x.2.inbound (hook x.1) side) := by
  refine system_invariant hroi h₀
    (P := fun K s => (handed side s.dcm.log).Perm (s.inbound (hook K) side)) ?_ ?_ ?_ h
  · obtain ⟨hlog, hin⟩ := h₀.handed side
    rw [hlog]
    exact hin ▸ .refl _
  · intro op s s' ks _ _ hstep hp
    obtain ⟨hlog, hin⟩ := hstep.handed side
    rw [hlog, hin]
    exact hp
  · intro c K s s' ks _ _ hpoised hstep hp
    rcases hstep.handed hpoised side with ⟨hlog, hin⟩ | ⟨p, hlog, hjoins⟩
    · rw [hlog, hin]
      exact hp
    · rw [hlog]
      exact (List.perm_append_singleton ..).trans ((hp.cons p).trans hjoins.perm.symm)

/-- Packets are taken in the order they were handed over, as long as none
is offered past a pending one. -/
theorem ordered_of_reaches (hroi : ∀ op, allow op → op.Roi) (h₀ : s₀.Fresh) {side : Side}
    (hdirect : ∀ y, ReachesIf machine allow ok s₀ y → y.2.Direct side →
      y.2.live (hook y.1) side = [])
    (h : ReachesIf machine allow ok s₀ x) :
    handed side x.2.dcm.log = x.2.inbound (hook x.1) side := by
  refine system_invariant hroi h₀
    (P := fun K s => handed side s.dcm.log = s.inbound (hook K) side) ?_ ?_ ?_ h
  · obtain ⟨hlog, hin⟩ := h₀.handed side
    exact hlog.trans hin.symm
  · intro op s s' ks _ _ hstep hp
    obtain ⟨hlog, hin⟩ := hstep.handed side
    rw [hlog, hin]
    exact hp
  · intro c K s s' ks _ hr hpoised hstep hp
    rcases hstep.handed hpoised side with ⟨hlog, hin⟩ | ⟨p, hlog, hjoins⟩
    · rw [hlog, hin]
      exact hp
    · rw [hlog, hp, hjoins.last (hdirect _ hr)]

end Run

end DramCache
