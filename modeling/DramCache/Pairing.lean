import Mathlib.Algebra.BigOperators.Group.List.Basic
import Mathlib.Algebra.Order.Group.Multiset
import Mathlib.Tactic.Abel
import DramCache.History
import DramCache.Steps

/-!
# Reads and their owners

At a call boundary every ORB entry waits for one read, which is pending
for its controller or stands in the controller's read queue, and every
such read is waited for. Inside an operation a read may also be in a
callback, and what a hook is about to take no longer counts where it
stands: `outstanding` and `answering` are the two accounts, `Paired` says
that together they are the ORB entries that wait.
-/

namespace DramCache

open Worklist (ReachesIf)

/-- The state of an ORB entry that waits for a side's response. -/
def Side.awaits : Side → ReqState
  | .near => .waitingLocMemReadResp
  | .far => .waitingFarMemReadResp

theorem Side.awaits_waiting (side : Side) : side.awaits.waiting = true := by cases side <;> rfl

theorem Side.eq_of_awaits {st : ReqState} (h : st.waiting = true) :
    st = Side.near.awaits ∨ st = Side.far.awaits := by
  cases st <;> first | exact .inl rfl | exact .inr rfl | cases h

/-- How many ORB entries of an address wait for a side. -/
def Manager.owner (m : Manager) (side : Side) (a : Nat) : Nat :=
  if (m.orb.lookup a).map OrbEntry.state = some side.awaits then 1 else 0

/-! ## Reads on their way -/

/-- The addresses of the reads among pending packets. -/
def reads (l : List (Packet × Bool)) : Multiset Nat :=
  ↑((l.filter fun p => !p.2).map fun p => p.1.address)

@[simp] theorem reads_append (l₁ l₂ : List (Packet × Bool)) :
    reads (l₁ ++ l₂) = reads l₁ + reads l₂ := by simp [reads]

@[simp] theorem reads_cons (p : Packet × Bool) (l : List (Packet × Bool)) :
    reads (p :: l) = (if p.2 then 0 else {p.1.address}) + reads l := by
  cases hp : p.2 <;> simp [reads, hp, Multiset.singleton_add]

@[simp] theorem reads_nil : reads [] = 0 := rfl

/-- A read of a side that is being called back. -/
def Call.answers (side : Side) : Call → Multiset Nat
  | .returnData sd pkt => if sd = side then {pkt.address} else 0
  | _ => 0

def answering (side : Side) (K : List Call) : Multiset Nat := (K.map (Call.answers side)).sum

@[simp] theorem answering_nil (side : Side) : answering side [] = 0 := rfl

@[simp] theorem answering_cons (side : Side) (c : Call) (K : List Call) :
    answering side (c :: K) = c.answers side + answering side K := by simp [answering]

@[simp] theorem answering_append (side : Side) (K L : List Call) :
    answering side (K ++ L) = answering side K + answering side L := by simp [answering]

theorem answering_eq_zero {side : Side} {K : List Call}
    (h : ∀ k ∈ K, k.bystander = false) : answering side K = 0 := by
  refine List.sum_eq_zero fun x hx => ?_
  obtain ⟨k, hk, rfl⟩ := List.mem_map.mp hx
  have := h k hk
  cases k <;> first | rfl | cases this

namespace Sys

/-- The lines of a side's read queue a hook leaves there. -/
def queued (h : Option Call) (s : Sys) (side : Side) : List Nat :=
  match h with
  | some (.processReadDone sd i _) =>
      if sd = side then (s.mc side).rq.lines.set i 0 else (s.mc side).rq.lines
  | _ => (s.mc side).rq.lines

theorem queued_congr {h : Option Call} {s s' : Sys} {side : Side}
    (hlines : (s'.mc side).rq.lines = (s.mc side).rq.lines) :
    s'.queued h side = s.queued h side := by
  unfold queued
  split <;> rw [hlines]

/-- The reads of a side on their way, pending or queued. -/
def outstanding (h : Option Call) (s : Sys) (side : Side) : Multiset Nat :=
  reads (s.live h side) + Slots.used 0 (s.queued h side)

/-- The reads of a side that are pending or in its controller's read
queue. -/
def readsOf (s : Sys) (side : Side) : Multiset Nat :=
  reads (s.dcm.pending side) + (s.mc side).rq.held

theorem outstanding_none (s : Sys) (side : Side) : s.outstanding none side = s.readsOf side := rfl

/-! ### Sending a packet adds its read -/

theorem outstanding_congr {h : Option Call} {s s' : Sys} {side : Side}
    (hpend : s'.dcm.pending side = s.dcm.pending side)
    (hlines : (s'.mc side).rq.lines = (s.mc side).rq.lines) :
    s'.outstanding h side = s.outstanding h side := by
  have hlive : s'.live h side = s.live h side := by rw [live, live, hpend]
  rw [outstanding, outstanding, hlive, queued_congr hlines]

/-! ### What the hooks leave -/

section Hooks

variable {s s' : Sys}

theorem queued_pop (s : Sys) (side x : Side) : s.queued (some side.pop) x = s.queued none x := by
  cases side <;> rfl

theorem queued_readDone {side : Side} {i b : Nat}
    (hlines : (s'.mc side).rq.lines = (s.mc side).rq.lines.set i 0)
    (hother : ∀ x, x ≠ side → s'.mc x = s.mc x) (x : Side) :
    s'.queued none x = s.queued (some (.processReadDone side i b)) x := by
  simp only [queued]
  by_cases hx : side = x
  · rw [if_pos hx, ← hx, hlines]
  · rw [if_neg hx, hother x (Ne.symm hx)]

/-- The read that is called back leaves the queue. -/
theorem used_finished {side : Side} {i b : Nat} {pkt : Packet} (hmc : Served s s')
    (hline : (s.mc side).rq.lines[i]? = some pkt.address) (hpkt : pkt.address ≠ 0) (x : Side) :
    Slots.used 0 (s'.queued (some (.processReadDone side i b)) x)
        + (if side = x then {pkt.address} else 0)
      = Slots.used 0 (s.queued none x) := by
  have hnone : s.queued none x = (s.mc x).rq.lines := rfl
  rw [queued, (hmc x).2, hnone]
  by_cases hx : side = x
  · subst hx
    rw [if_pos rfl, if_pos rfl, Slots.used_free hline hpkt, ← Multiset.singleton_add, add_comm]
  · rw [if_neg hx, if_neg hx, add_zero]

theorem outstanding_finished {side : Side} {i b : Nat} {pkt : Packet} (hdcm : s'.dcm = s.dcm)
    (hmc : Served s s') (hline : (s.mc side).rq.lines[i]? = some pkt.address)
    (hpkt : pkt.address ≠ 0) (x : Side) :
    s'.outstanding (some (.processReadDone side i b)) x + (if side = x then {pkt.address} else 0)
      = s.outstanding none x := by
  have hlive : s'.live (some (.processReadDone side i b)) x = s.live none x := by
    rw [live_readDone, hdcm]
    rfl
  rw [outstanding, outstanding, hlive, add_assoc, used_finished hmc hline hpkt]

theorem outstanding_readDone {side : Side} {i b : Nat} (hdcm : s'.dcm = s.dcm)
    (hlines : (s'.mc side).rq.lines = (s.mc side).rq.lines.set i 0)
    (hother : ∀ x, x ≠ side → s'.mc x = s.mc x) (x : Side) :
    s'.outstanding none x = s.outstanding (some (.processReadDone side i b)) x := by
  have hlive : s'.live none x = s.live (some (.processReadDone side i b)) x := by
    rw [live_readDone, ← hdcm]
    rfl
  rw [outstanding, outstanding, hlive, queued_readDone hlines hother]

/-- A pop takes off what its hook left out. -/
theorem outstanding_popped {side : Side} (hmc : ∀ x, s'.mc x = s.mc x)
    (hpend : s'.dcm.pending side = (s.dcm.pending side).tail)
    (hother : ∀ x, x ≠ side → s'.dcm.pending x = s.dcm.pending x) (x : Side) :
    s'.outstanding none x = s.outstanding (some side.pop) x := by
  have hlive : s'.live none x = s.live (some side.pop) x := by
    unfold live
    by_cases hx : x = side
    · simp [hx, hpend]
    · rw [if_neg (by simp), if_neg fun heq => hx (Side.pop_inj (Option.some.inj heq)).symm,
        hother x hx]
  have hqueued : s'.queued none x = s.queued none x := queued_congr (by rw [hmc])
  rw [outstanding, outstanding, hlive, queued_pop, hqueued]

end Hooks

theorem callbacks_answering {p : Packet} (h : p.SingleFlag) (side x : Side) :
    answering x (callbacks side p) = if side = x then {p.address} else 0 := by
  unfold Packet.SingleFlag at h
  unfold callbacks
  cases hi : p.instruction <;> cases hd : p.isData <;> simp_all [Call.answers]

/-- The read a packet stands for, on its side. -/
def asked (side : Side) (pkt : Packet) (w : Bool) (x : Side) : Multiset Nat :=
  if x = side ∧ w = false then {pkt.address} else 0

variable {h : Option Call} {s s' : Sys} {side : Side} {pkt : Packet} {w : Bool}
  {ks : List Call}

/-- A line filled into a free slot is one more used slot, whatever slot the
hook holds. -/
theorem queued_fill {j : Nat} (h0 : (s.mc side).rq.lines[j]? = some 0) (hpkt : pkt.address ≠ 0)
    (hlines : (s'.mc side).rq.lines = (s.mc side).rq.lines.set j pkt.address)
    (hheld : ∀ sd i b, h = some (.processReadDone sd i b) →
      ((s.mc sd).rq.slotAt i).pkt.address ≠ 0) :
    Slots.used 0 (s'.queued h side) = {pkt.address} + Slots.used 0 (s.queued h side) := by
  have hplain : Slots.used 0 ((s.mc side).rq.lines.set j pkt.address)
      = {pkt.address} + Slots.used 0 (s.mc side).rq.lines := by
    rw [Slots.used_fill h0 hpkt, Multiset.singleton_add]
  unfold queued
  split
  · rename_i sd i b
    by_cases hsd : sd = side
    · subst hsd
      have hne : i ≠ j := (line_set h0 hlines (hheld sd i b rfl)).1
      rw [if_pos rfl, if_pos rfl, hlines, List.set_comm _ _ hne.symm, Slots.used_fill ?_ hpkt,
        Multiset.singleton_add]
      rw [List.getElem?_set_ne hne]
      exact h0
    · rw [if_neg hsd, if_neg hsd, hlines, hplain]
  · rw [hlines, hplain]

theorem Sent.asked (hs : Sent s side pkt w s' true ks)
    (hpend : ∀ x, s'.dcm.pending x = s.dcm.pending x)
    (hheld : ∀ sd i b, h = some (.processReadDone sd i b) →
      ((s.mc sd).rq.slotAt i).pkt.address ≠ 0)
    (hflag : w = false → pkt.SingleFlag) (x : Side) :
    s'.outstanding h x + answering x ks = s.outstanding h x + Sys.asked side pkt w x := by
  cases hs with
  | wrote hmc _ _ =>
      rw [outstanding_congr (hpend x) (by rw [(hmc x).2])]
      simp [Sys.asked]
  | inserted _ hother hpkt h0 hlines _ _ =>
      by_cases hx : x = side
      · subst hx
        have hlive : s'.live h x = s.live h x := by rw [live, live, hpend]
        rw [outstanding, outstanding, hlive, queued_fill h0 hpkt hlines hheld, Sys.asked,
          if_pos ⟨rfl, rfl⟩, answering_nil]
        abel
      · rw [outstanding_congr (hpend x) (by rw [hother x hx])]
        simp [Sys.asked, hx]
  | forwarded hmc _ _ =>
      rw [outstanding_congr (hpend x) (by rw [hmc]), answering_append,
        callbacks_answering (p := s.stamp pkt) (hflag rfl), stamp_address]
      by_cases hx : x = side
      · simp [Sys.asked, hx, Call.answers]
      · simp [Sys.asked, hx, Call.answers, Ne.symm hx]

theorem Dispatched.asked (hd : Dispatched s side pkt w s' ks)
    (hpop : ∀ x, h = some x.pop → s.dcm.pending x ≠ [])
    (hheld : ∀ sd i b, h = some (.processReadDone sd i b) →
      ((s.mc sd).rq.slotAt i).pkt.address ≠ 0)
    (hflag : w = false → pkt.SingleFlag) (x : Side) :
    s'.outstanding h x + answering x ks = s.outstanding h x + Sys.asked side pkt w x := by
  cases hd with
  | sent hs _ hpend => exact hs.asked hpend hheld hflag x
  | queued hmc hpend hother _ =>
      by_cases hx : x = side
      · subst hx
        have hqueued : s'.queued h x = s.queued h x := by
          unfold Sys.queued
          split <;> rw [hmc]
        have hlive : s'.live h x = s.live h x ++ [(pkt, w)] := by
          unfold live
          split
          · rename_i hh
            rw [hpend, List.tail_append_of_ne_nil (hpop x hh)]
          · exact hpend
        rw [outstanding, outstanding, hlive, hqueued, reads_append, Sys.asked]
        cases w
        · simp [add_right_comm]
        · simp
      · rw [outstanding_congr (hother x hx) (by rw [hmc])]
        simp [Sys.asked, hx]

end Sys

/-! ## Flags -/

/-- Every request asks for exactly one port: `CACHE` makes its write-backs
with the flags of a fresh `PACKET`. -/
def Op.OneFlag (op : Op) : Prop :=
  ∀ w pkt, op.request? = some (w, pkt) → pkt.SingleFlag

/-- The requests the manager works on, or makes wait, ask for one port. -/
structure Flagged (m : Manager) : Prop where
  orb : ∀ {a e}, m.orb.lookup a = some e → e.pkt.SingleFlag
  crb : ∀ c ∈ m.crb, c.pkt.SingleFlag

namespace Flagged

variable {m m' : Manager}

theorem insert (h : Flagged m) {a : Nat} {e : OrbEntry} (horb : m'.orb = m.orb.insert a e)
    (hcrb : m'.crb ⊆ m.crb) (he : e.pkt.SingleFlag) : Flagged m' where
  orb {b f} hf := by
    rw [horb, Keyed.lookup_insert] at hf
    split at hf
    · cases hf
      exact he
    · exact h.orb hf
  crb c hc := h.crb c (hcrb hc)

theorem erase (h : Flagged m) {a : Nat} (horb : m'.orb = m.orb.erase a)
    (hcrb : m'.crb = m.crb) : Flagged m' where
  orb {b f} hf := by
    rw [horb, Keyed.lookup_erase] at hf
    split at hf
    · cases hf
    · exact h.orb hf
  crb := by
    rw [hcrb]
    exact h.crb

theorem congr (h : Flagged m) (horb : m'.orb = m.orb) (hcrb : m'.crb = m.crb) : Flagged m' where
  orb := by
    rw [horb]
    exact h.orb
  crb := by
    rw [hcrb]
    exact h.crb

theorem step {c : Call} {ks : List Call} (h : Flagged m) (hstep : FrontStep m c m' ks) :
    Flagged m' := by
  cases hstep with
  | @nearEnter side pkt e st now hl _ _ =>
      have he := h.orb hl
      refine h.insert (a := e.pkt.address) (e := { e with state := st }) ?_ ?_ he <;>
        simp [Manager.enterState, Manager.emit]
  | @nearHit _ _ e lat now _ _ _ _ =>
      refine h.erase (a := e.pkt.address) ?_ ?_ <;> simp [Manager.emit]
  | @farDone _ _ e lat now _ _ =>
      refine h.erase (a := e.pkt.address) ?_ ?_ <;>
        simp [Manager.emit, Manager.farAnswered, Manager.count]
  | readNear now hl _ _ =>
      have he := h.orb hl
      exact h.insert rfl (List.Subset.refl _) he
  | readFar now hl _ _ =>
      have he := h.orb hl
      exact h.insert rfl (List.Subset.refl _) he
  | writeNear now hl _ =>
      have he := h.orb hl
      exact h.insert rfl (List.Subset.refl _) he
  | complete now hl => exact h.erase (Manager.retire_orb ..) (Manager.retire_crb ..)
  | @promote i c now hw =>
      exact h.insert (Manager.admitEntry_orb ..) List.eraseP_sublist.subset
        (h.crb c (waiter?_spec hw).1)
  | @flag a i =>
      rcases m.flagConflict_eq a i with hf | ⟨e, hl, hf⟩ <;> rw [hf]
      · exact h
      · have he := h.orb hl
        exact h.insert rfl (List.Subset.refl _) he
  | responses clk =>
      obtain ⟨due, rest, -, hr⟩ := Manager.releaseResponses_eq clk m.pendingResponses m
      rw [Manager.processPendingResponses, hr]
      exact h.congr rfl rfl
  | _ => exact h.congr rfl rfl

theorem enter {op : Op} {ks : List Call} (h : Flagged m) (hstep : FrontEnter m op m' ks)
    (hop : op.OneFlag) : Flagged m' := by
  cases hstep with
  | queued now hreq _ _ =>
      refine ⟨h.orb, fun c hc => ?_⟩
      rcases List.mem_append.mp hc with hc | hc
      · exact h.crb c hc
      · rw [List.mem_singleton.mp hc]
        exact hop _ _ hreq
  | admitted now hreq _ _ _ =>
      exact h.insert (Manager.admitEntry_orb ..) (List.Subset.refl _) (hop _ _ hreq)
  | _ => exact h.congr rfl rfl

theorem fresh {s : Sys} (h : s.Fresh) : Flagged s.dcm.core where
  orb {a e} he := by
    have hl : s.dcm.orb.lookup a = some e := he
    rw [h.orb, AList.lookup_empty] at hl
    cases hl
  crb c hc := by
    have hcrb : s.dcm.core.crb = [] := h.crb
    rw [hcrb] at hc
    cases hc

end Flagged

/-! ## Owners -/

section Owner

variable {m m' : Manager} {a : Nat} {e : OrbEntry}

theorem owner_of_lookup (h : m.orb.lookup a = some e) (side : Side) :
    m.owner side a = if e.state = side.awaits then 1 else 0 := by simp [Manager.owner, h]

theorem owner_of_none (h : m.orb.lookup a = none) (side : Side) : m.owner side a = 0 := by
  simp [Manager.owner, h]

theorem exists_owner {side : Side} (h : m.owner side a ≠ 0) :
    ∃ e, m.orb.lookup a = some e ∧ e.state = side.awaits := by
  cases hl : m.orb.lookup a with
  | none => exact absurd (owner_of_none hl side) h
  | some e =>
      rw [owner_of_lookup hl] at h
      exact ⟨e, rfl, by simpa using h⟩

theorem owner_insert (horb : m'.orb = m.orb.insert a e) (side : Side) (b : Nat) :
    m'.owner side b
      = if b = a then (if e.state = side.awaits then 1 else 0) else m.owner side b := by
  rw [Manager.owner, horb, Keyed.lookup_insert]
  by_cases hb : b = a
  · simp [hb]
  · rw [if_neg hb, if_neg hb, Manager.owner]

theorem owner_erase (horb : m'.orb = m.orb.erase a) (side : Side) (b : Nat) :
    m'.owner side b = if b = a then 0 else m.owner side b := by
  rw [Manager.owner, horb, Keyed.lookup_erase]
  by_cases hb : b = a
  · simp [hb]
  · rw [if_neg hb, if_neg hb, Manager.owner]

theorem owner_congr (horb : m'.orb = m.orb) (side : Side) (b : Nat) :
    m'.owner side b = m.owner side b := by rw [Manager.owner, horb, Manager.owner]

/-- An entry that does not wait owns nothing. -/
theorem not_awaits {st : ReqState} (h : st.waiting = false) (side : Side) :
    st ≠ side.awaits := by
  rintro rfl
  rw [side.awaits_waiting] at h
  cases h

theorem not_waiting_of_drivable {st : ReqState} (h : st.drivable = true) : st.waiting = false := by
  cases st <;> first | rfl | cases h

theorem owns_idle {st : ReqState} (h : st.waiting = false) (side : Side) :
    (if st = side.awaits then 1 else 0 : Nat) = 0 := if_neg (not_awaits h side)

/-- The entry of a callback stops waiting for its side. -/
theorem owner_answered {side : Side} {pkt : Packet} {x : Side} {b : Nat}
    (hl : m.orb.lookup pkt.address = some e) (hs : e.state = side.awaits)
    (hown : m'.owner x b = if b = pkt.address then 0 else m.owner x b) :
    m.owner x b = m'.owner x b + ((Call.returnData side pkt).answers x).count b := by
  rw [hown]
  by_cases hb : b = pkt.address
  · subst hb
    rw [if_pos rfl, owner_of_lookup hl, hs]
    cases side <;> cases x <;> simp [Side.awaits, Call.answers]
  · rw [if_neg hb]
    have hnot : ((Call.returnData side pkt).answers x).count b = 0 := by
      simp only [Call.answers]
      split <;> simp [hb]
    rw [hnot, add_zero]

/-- An entry that waits for what its address was owed comes or changes. -/
theorem owner_insert_same {x : Side} (horb : m'.orb = m.orb.insert a e)
    (hold : m.owner x a = if e.state = x.awaits then 1 else 0) (b : Nat) :
    m'.owner x b = m.owner x b := by
  rw [owner_insert horb]
  by_cases hb : b = a
  · rw [if_pos hb, hb, hold]
  · rw [if_neg hb]

end Owner

/-- A callback that meets the entry it answers ends its wait; no other
step of the core but `driveState` begins or ends one. -/
theorem FrontStep.owner {m m' : Manager} {c : Call} {ks K : List Call}
    (hstep : FrontStep m c m' ks) (hc : c.dispatches = false)
    (hinv : OrbInv (Ctl.of (c :: K)) m) (hbyp : m.bypassOutstandingReads = 0)
    (hanswer : ∀ side pkt, c = .returnData side pkt →
      ∃ e, m.orb.lookup pkt.address = some e ∧ e.state = side.awaits) (x : Side) (b : Nat) :
    m.owner x b = m'.owner x b + (c.answers x).count b := by
  have hsame : m'.owner x b = m.owner x b → c.answers x = 0 →
      m.owner x b = m'.owner x b + (c.answers x).count b := by
    intro hown hno
    rw [hown, hno, Multiset.count_zero, add_zero]
  cases hstep with
  | quiet hby _ hr =>
      refine hsame (owner_congr rfl x b) ?_
      cases c <;> first | rfl | exact absurd rfl (hr _ _)
  | bypassed now hmem => simp [hbyp] at hmem
  | untracked hl =>
      obtain ⟨e, hl', -⟩ := hanswer _ _ rfl
      rw [hl] at hl'
      cases hl'
  | stray hl hs =>
      obtain ⟨e, hl', hs'⟩ := hanswer _ _ rfl
      obtain rfl : _ = e := by simpa [hl] using hl'
      rw [hs', Side.awaits_waiting] at hs
      cases hs
  | @nearEnter side pkt e st now hl hs hst =>
      obtain ⟨e', hl', hside⟩ := hanswer _ _ rfl
      obtain rfl : e = e' := by simpa [hl] using hl'
      refine owner_answered hl hside ?_
      have hst' : ({ e with state := st } : OrbEntry).state.waiting = false := by
        rcases hst with ⟨rfl, -⟩ | ⟨rfl, -⟩ <;> rfl
      have horb : (((m.emit (.answered side e)).nearAnswered e now).enterState e st).orb
          = m.orb.insert e.pkt.address { e with state := st } := by
        simp [Manager.enterState, Manager.emit]
      rw [owner_insert horb, owns_idle hst', (hinv.entry hl).addr]
  | @nearHit side pkt e lat now hl hs hw hh =>
      obtain ⟨e', hl', hside⟩ := hanswer _ _ rfl
      obtain rfl : e = e' := by simpa [hl] using hl'
      refine owner_answered hl hside ?_
      have horb : (((m.emit (.answered side e)).nearAnswered e now).retire e lat now).orb
          = m.orb.erase e.pkt.address := by simp [Manager.emit]
      rw [owner_erase horb, (hinv.entry hl).addr]
  | @farDone side pkt e lat now hl hs =>
      obtain ⟨e', hl', hside⟩ := hanswer _ _ rfl
      obtain rfl : e = e' := by simpa [hl] using hl'
      refine owner_answered hl hside ?_
      have horb : (((m.emit (.answered side e)).farAnswered).retire e lat now).orb
          = m.orb.erase e.pkt.address := by simp [Manager.emit, Manager.farAnswered, Manager.count]
      rw [owner_erase horb, (hinv.entry hl).addr]
  | driveIdle => cases hc
  | readNear => cases hc
  | readFar => cases hc
  | writeNear => cases hc
  | fill => cases hc
  | completeNone hl => exact hsame (owner_congr rfl x b) rfl
  | @complete a lat e now hl =>
      obtain ⟨e', hl', hfit⟩ := hinv.focus (a := a) rfl
      obtain rfl : e = e' := by simpa [hl] using hl'
      have hs : e.state = .waitingLocMemWriteResp := hfit
      rw [owner_erase (Manager.retire_orb ..), (hinv.entry hl).addr]
      by_cases hb : b = a
      · rw [if_pos hb, hb, owner_of_lookup hl, owns_idle (by rw [hs]; rfl)]
        rfl
      · rw [if_neg hb]
        rfl
  | promoteNone hw => exact hsame (owner_congr rfl x b) rfl
  | @promote i w now hw =>
      have hl := hinv.waiter_none hw
      have hdrive : ((m.takeWaiter i).admittedEntry w.pkt w.isWriteReq (some w.arrivalCycle)
          now).state.drivable = true := Manager.initialChoice_drivable _
      refine hsame (owner_insert_same (Manager.admitEntry_orb ..) ?_ b) rfl
      exact (owner_of_none hl x).trans (owns_idle (not_waiting_of_drivable hdrive) x).symm
  | @flag a i =>
      rcases m.flagConflict_eq a i with hf | ⟨e, hl, hf⟩
      · rw [hf]
        rfl
      · have horb : (m.flagConflict a i).orb = m.orb.insert a { e with conflict := true } := by
          rw [hf]
        exact hsame (owner_insert_same horb (owner_of_lookup hl x) b) rfl
  | drained => cases hc
  | responses clk =>
      obtain ⟨due, rest, -, hr⟩ := Manager.releaseResponses_eq clk m.pendingResponses m
      refine hsame (owner_congr ?_ x b) rfl
      rw [Manager.processPendingResponses, hr]
  | samples => exact hsame (owner_congr rfl x b) rfl

/-- `driveState` lets an entry wait. -/
theorem owner_issue {m m' : Manager} {a : Nat} {e : OrbEntry} {st : ReqState}
    (hl : m.orb.lookup a = some e) (hs : e.state.waiting = false)
    (horb : m'.orb = m.orb.insert a { e with state := st, issued := true }) (x : Side) (b : Nat) :
    m'.owner x b = m.owner x b + if b = a ∧ st = x.awaits then 1 else 0 := by
  rw [owner_insert horb]
  by_cases hb : b = a
  · subst hb
    rw [if_pos rfl, owner_of_lookup hl, if_neg (not_awaits hs x)]
    simp
  · simp [hb]

/-- A new entry does not wait yet. -/
theorem FrontEnter.owner {m m' : Manager} {op : Op} {ks : List Call}
    (hstep : FrontEnter m op m' ks) (hinv : OrbInv .calm m) (x : Side) (b : Nat) :
    m'.owner x b = m.owner x b := by
  cases hstep with
  | @admitted _ w pkt now _ hc _ _ =>
      have hl := hinv.lookup_none hc
      rw [owner_insert (Manager.admitEntry_orb ..)]
      by_cases hb : b = pkt.address
      · rw [if_pos hb, hb, owner_of_none hl, if_neg]
        exact not_awaits (not_waiting_of_drivable (Manager.initialChoice_drivable _)) x
      · rw [if_neg hb]
        rfl
  | _ => exact owner_congr rfl x b

theorem FrontEnter.answering {m m' : Manager} {op : Op} {ks : List Call}
    (hstep : FrontEnter m op m' ks) (x : Side) : answering x ks = 0 := by
  cases hstep <;> rfl

/-! ## The pairing -/

namespace Sys

/-- The reads on their way are those the ORB waits for. -/
structure Paired (K : List Call) (s : Sys) : Prop where
  flag : ∀ side pkt, (pkt, false) ∈ s.dcm.pending side → pkt.SingleFlag
  count : ∀ side a, (s.outstanding (hook K) side + answering side K).count a
    = s.dcm.owner side a

namespace Paired

variable {s s' : Sys} {c : Call} {K ks : List Call}

/-- A callback finds the entry it answers. -/
theorem answered (h : Paired K s) {side : Side} {pkt : Packet}
    (hk : Call.returnData side pkt ∈ K) :
    ∃ e, s.dcm.orb.lookup pkt.address = some e ∧ e.state = side.awaits := by
  refine exists_owner fun h0 => ?_
  rw [← h.count side pkt.address, Multiset.count_eq_zero] at h0
  refine h0 (Multiset.mem_add.mpr (.inr ?_))
  obtain ⟨K₁, K₂, rfl⟩ := List.append_of_mem hk
  simp [Call.answers]

/-- The general step: the flags are kept, and what is on its way grows by
what the ORB begins to wait for. -/
theorem of_balance (h : Paired (c :: K) s)
    (hflag : ∀ side pkt, (pkt, false) ∈ s'.dcm.pending side → pkt.SingleFlag)
    (hbal : ∀ side a, (s'.outstanding (hook (ks ++ K)) side + answering side ks).count a
      + s.dcm.owner side a = (s.outstanding (hook (c :: K)) side + c.answers side).count a
        + s'.dcm.owner side a) : Paired (ks ++ K) s' := by
  refine ⟨hflag, fun side a => ?_⟩
  have h1 := h.count side a
  have h2 := hbal side a
  simp only [answering_cons, answering_append, Multiset.count_add] at h1 h2 ⊢
  omega

end Paired

/-- What is pending stays flagged. -/
theorem Dispatched.flag {s s' : Sys} {side : Side} {pkt : Packet} {w : Bool} {ks : List Call}
    (hd : Dispatched s side pkt w s' ks) (hflag : w = false → pkt.SingleFlag)
    (h : ∀ x p, (p, false) ∈ s.dcm.pending x → p.SingleFlag) (x : Side) (p : Packet)
    (hp : (p, false) ∈ s'.dcm.pending x) : p.SingleFlag := by
  cases hd with
  | sent _ _ hpend =>
      rw [hpend] at hp
      exact h x p hp
  | queued _ hpend hother _ =>
      by_cases hx : x = side
      · subst hx
        rw [hpend] at hp
        rcases List.mem_append.mp hp with hp | hp
        · exact h x p hp
        · obtain ⟨rfl, rfl⟩ : p = pkt ∧ false = w := by simpa using hp
          exact hflag rfl
      · rw [hother x hx] at hp
        exact h x p hp

namespace Paired

variable {s s' : Sys} {c : Call} {K ks : List Call}

/-- A packet is dispatched and its entry, if it is a read, begins to
wait. -/
theorem dispatched (h : Paired (c :: K) s) (hp : Poised (c :: K) s) {side : Side} {pkt : Packet}
    {w : Bool} {L : List Call} (hd : Dispatched s side pkt w s' ks)
    (hflag : w = false → pkt.SingleFlag) (hc : c.rank ≠ 2) (hno : ∀ x, c.answers x = 0)
    (hmore : ∀ k ∈ L, k.bystander = false)
    (hown : ∀ x b, s'.dcm.owner x b = s.dcm.owner x b + (asked side pkt w x).count b) :
    Paired (ks ++ L ++ K) s' := by
  have hhook : hook (ks ++ L ++ K) = hook (c :: K) :=
    hook_replaced (List.forall_mem_append.mpr
      ⟨hd.calls_rank, fun k hk => Call.rank_of_not_bystander (hmore k hk)⟩) hc
  refine h.of_balance (hd.flag hflag h.flag) fun x b => ?_
  have hbal := congrArg (Multiset.count b) (hd.asked hp.pop hp.held hflag x)
  rw [hhook, hown, hno, answering_append, answering_eq_zero hmore]
  simp only [Multiset.count_add, Multiset.count_zero] at hbal ⊢
  omega

/-- An entry's read is dispatched. -/
theorem asks (h : Paired (c :: K) s) (hp : Poised (c :: K) s) {side : Side} {a now : Nat}
    {e : OrbEntry} (hl : s.dcm.orb.lookup a = some e) (haddr : e.pkt.address = a)
    (hs : e.state.waiting = false) (hflag : e.pkt.SingleFlag)
    (horb : s'.dcm.orb = s.dcm.orb.insert a { e with state := side.awaits, issued := true })
    (hd : Dispatched s side (Manager.subRequest e .load now) false s' ks) (hc : c.rank ≠ 2)
    (hno : ∀ x, c.answers x = 0) : Paired (ks ++ K) s' := by
  have hpair := h.dispatched hp hd (fun _ => hflag) hc hno (L := []) (by simp) fun x b => ?_
  · rwa [List.append_nil] at hpair
  · rw [owner_issue hl hs horb]
    congr 1
    have hside : side.awaits = x.awaits ↔ x = side := by
      cases side <;> cases x <;> simp [Side.awaits]
    by_cases hx : x = side
    · simp [Sys.asked, Manager.subRequest, haddr, hx, Multiset.count_singleton]
    · simp [Sys.asked, hside, hx]

theorem drive (h : Paired (c :: K) s) (hp : Poised (c :: K) s) {a : Nat} (hc : c = .driveState a)
    (hinv : OrbInv (Ctl.of (c :: K)) s.dcm.core) (hfl : Flagged s.dcm.core)
    (hd : Drive s a s' ks) : Paired (ks ++ K) s' := by
  subst hc
  have haddr : ∀ {e}, s.dcm.orb.lookup a = some e → e.pkt.address = a :=
    fun hl => (hinv.entry hl).addr
  cases hd with
  | idle _ =>
      refine h.of_balance h.flag fun x b => ?_
      rw [List.nil_append, hook_cons (by simp [Call.rank])]
      rfl
  | readNear now hl hs hcore hd =>
      refine h.asks hp hl (haddr hl) (by rw [hs]; rfl) (hfl.orb hl) ?_ hd (by simp [Call.rank])
        fun _ => rfl
      rw [← haddr hl]
      exact congrArg Manager.orb hcore
  | readFar now hl hs hcore hd =>
      refine h.asks hp hl (haddr hl) (by rw [hs]; rfl) (hfl.orb hl) ?_ hd (by simp [Call.rank])
        fun _ => rfl
      rw [← haddr hl]
      exact congrArg Manager.orb hcore
  | @writeNear e _ now hl hs hcore hd =>
      refine h.dispatched hp hd (fun hw => by cases hw) (by simp [Call.rank]) (fun _ => rfl)
        (L := [.completeRequest a 0]) (by simp [Call.bystander]) fun x b => ?_
      have horb : s'.dcm.orb = s.dcm.orb.insert a
          { e with state := .waitingLocMemWriteResp, issued := true } := by
        rw [← haddr hl]
        exact congrArg Manager.orb hcore
      rw [owner_issue hl (by rw [hs]; rfl) horb]
      cases x <;> simp [Sys.asked, Side.awaits]

/-- What a pop takes off is no longer on its way there. -/
theorem outstanding_pop {side : Side} {pkt : Packet} {w : Bool} {rest : List (Packet × Bool)}
    (hfront : s.dcm.pending side = (pkt, w) :: rest) (x : Side) : s.outstanding none x
      = s.outstanding (some side.pop) x + asked side pkt w x := by
  rw [outstanding, outstanding, queued_pop]
  by_cases hx : x = side
  · subst hx
    rw [live, live, if_neg (by simp), if_pos rfl, hfront]
    cases w
    · simp only [reads_cons, List.tail_cons, Sys.asked, and_self, if_true, Bool.false_eq_true,
        if_false]
      abel
    · simp [Sys.asked]
  · have hpop : some side.pop ≠ some x.pop := fun heq =>
      hx (Side.pop_inj (Option.some.inj heq)).symm
    rw [live, live, if_neg (by simp), if_neg hpop]
    simp [Sys.asked, hx]

/-- A step of the traffic that leaves the core alone. -/
theorem still (h : Paired (c :: K) s) (hcore : s'.dcm.core = s.dcm.core)
    (hflag : ∀ side pkt, (pkt, false) ∈ s'.dcm.pending side → pkt.SingleFlag)
    (hout : ∀ x, s'.outstanding (hook (ks ++ K)) x + answering x ks
      = s.outstanding (hook (c :: K)) x + c.answers x) : Paired (ks ++ K) s' := by
  refine h.of_balance hflag fun x b => ?_
  have horb : s'.dcm.core.orb = s.dcm.core.orb := by rw [hcore]
  exact congrArg₂ (Multiset.count b · + ·) (hout x) (owner_congr horb x b).symm

/-- A step of the core that leaves the traffic alone. -/
theorem core (h : Paired (c :: K) s) (hinv : OrbInv (Ctl.of (c :: K)) s.dcm.core) (hlive : s.Live)
    (hc : c.dispatches = false) (ht : SameTraffic s s') (hks : ∀ k ∈ ks, k.bystander = false)
    (hf : FrontStep s.dcm.core c s'.dcm.core ks) : Paired (ks ++ K) s' := by
  have hhook : hook (ks ++ K) = hook (c :: K) :=
    hook_replaced (fun k hk => Call.rank_of_not_bystander (hks k hk))
      (Call.rank_of_not_dispatches hc)
  refine h.of_balance (fun side pkt => ?_) fun x b => ?_
  · rw [ht.pending]
    exact h.flag side pkt
  · have hown : s.dcm.owner x b = s'.dcm.owner x b + (c.answers x).count b := by
      refine hf.owner hc hinv hlive.noBypassReads (fun side pkt hr => ?_) x b
      subst hr
      exact h.answered (List.mem_cons_self ..)
    rw [hhook, answering_eq_zero hks, outstanding_congr (ht.pending x) (by rw [ht.mc]), hown,
      Multiset.count_add, Multiset.count_add, Multiset.count_zero]
    omega

/-- A write is handed over. -/
theorem writes (h : Paired (c :: K) s) (hp : Poised (c :: K) s) {side : Side} {pkt : Packet}
    (hd : Dispatched s side pkt true s' []) (horb : s'.dcm.core.orb = s.dcm.core.orb)
    (hc : c.rank ≠ 2) (hno : ∀ x, c.answers x = 0) : Paired ([] ++ K) s' := by
  refine h.dispatched hp hd (fun hw => by cases hw) hc hno (L := []) (by simp) fun x b => ?_
  have hown : s'.dcm.owner x b = s.dcm.owner x b := owner_congr horb x b
  rw [hown]
  simp [Sys.asked]

/-- A pending packet is offered. -/
theorem released {side : Side} (h : Paired (side.process :: K) s)
    (hp : Poised (side.process :: K) s) (hcore : s'.dcm.core = s.dcm.core)
    (hr : Released s side side.pop s' ks) : Paired (ks ++ K) s' := by
  have hno : ∀ x, side.process.answers x = 0 := fun x => by cases side <;> rfl
  cases hr with
  | kept hmc hpend _ =>
      refine h.still hcore (fun x pkt => ?_) fun x => ?_
      · rw [hpend]
        exact h.flag x pkt
      · rw [List.nil_append, hook_cons (by simp), hno, answering_nil,
          outstanding_congr (hpend x) (by rw [hmc])]
  | @sent pkt w _ ks hfront hpend hsent =>
      have hflag : w = false → pkt.SingleFlag := by
        rintro rfl
        refine h.flag side pkt ?_
        rw [hfront]
        exact List.mem_cons_self ..
      refine h.still hcore (fun x pkt => ?_) fun x => ?_
      · rw [hpend]
        exact h.flag x pkt
      · have hbefore : hook (side.process :: K) = none :=
          hp.stacked.hook_phase (by simp) (by simp)
        have hafter : hook (ks ++ [side.pop] ++ K) = some side.pop :=
          hook_pushed hsent.calls_rank side.pop_rank
        have hbal := hsent.asked (h := none) hpend (by simp) hflag x
        have hpop : answering x [side.pop] = 0 := by cases side <;> rfl
        rw [outstanding_pop ((hpend side).trans hfront), add_right_comm] at hbal
        rw [hbefore, hafter, hno, answering_append, hpop, add_zero, add_zero]
        exact add_right_cancel hbal

theorem popped {side : Side} (h : Paired (side.pop :: K) s) (hp : Poised (side.pop :: K) s)
    (hcore : s'.dcm.core = s.dcm.core) (hmc : ∀ x, s'.mc x = s.mc x)
    (hpend : s'.dcm.pending side = (s.dcm.pending side).tail)
    (hother : ∀ x, x ≠ side → s'.dcm.pending x = s.dcm.pending x) :
    Paired ([side.process] ++ K) s' := by
  refine h.still hcore (fun x pkt hpkt => ?_) fun x => ?_
  · by_cases hx : x = side
    · subst hx
      rw [hpend] at hpkt
      exact h.flag x pkt (List.mem_of_mem_tail hpkt)
    · rw [hother x hx] at hpkt
      exact h.flag x pkt hpkt
  · have hafter : hook ([side.process] ++ K) = none :=
      hp.stacked.hook_phase (by simp) (by simp)
    have hno : side.pop.answers x = 0 ∧ answering x [side.process] = 0 := by
      cases side <;> exact ⟨rfl, rfl⟩
    rw [hafter, hook_cons_self side.pop_rank, hno.1, hno.2, outstanding_popped hmc hpend hother]

/-- A read is done and called back. -/
theorem finished {side : Side} {i b : Nat} {pkt : Packet}
    (h : Paired (.operateController side :: K) s) (hp : Poised (.operateController side :: K) s)
    (hdcm : s'.dcm = s.dcm) (hmc : Served s s')
    (hline : (s.mc side).rq.lines[i]? = some pkt.address) (hpkt : pkt.address ≠ 0) :
    Paired ([.returnData side pkt, .processReadDone side i b] ++ K) s' := by
  refine h.still (by rw [hdcm]) (by rw [hdcm]; exact h.flag) fun x => ?_
  have hbefore : hook (.operateController side :: K) = none :=
    hp.stacked.hook_phase (by simp [Call.rank]) (by simp [Call.rank])
  have hafter : hook ([.returnData side pkt, .processReadDone side i b] ++ K)
      = some (.processReadDone side i b) := rfl
  rw [hbefore, hafter, ← outstanding_finished (b := b) hdcm hmc hline hpkt]
  simp [Call.answers]

theorem step (h : Paired (c :: K) s) (hp : Poised (c :: K) s)
    (hinv : OrbInv (Ctl.of (c :: K)) s.dcm.core) (hfl : Flagged s.dcm.core) (hlive : s.Live)
    (hstep : CallStep s c s' ks) : Paired (ks ++ K) s' := by
  cases hstep with
  | core hc ht hks hf => exact h.core hinv hlive hc ht hks hf
  | drive hd => exact h.drive hp rfl hinv hfl hd
  | fill hcore hd =>
      exact h.writes hp hd (by rw [hcore]; rfl) (by simp [Call.rank]) fun _ => rfl
  | kept hcore ht =>
      refine h.still hcore (fun x pkt => ?_) fun x => ?_
      · rw [ht.pending]
        exact h.flag x pkt
      · rw [List.nil_append, hook_cons (by simp [Call.rank]),
          outstanding_congr (ht.pending x) (by rw [ht.mc])]
        rfl
  | drained _ hcore hd _ =>
      exact h.writes hp hd (by rw [hcore]; rfl) (by simp [Call.rank]) fun _ => rfl
  | released side hcore hr => exact h.released hp hcore hr
  | popped side hcore hmc hpend hother => exact h.popped hp hcore hmc hpend hother
  | served hc hdcm hmc =>
      refine h.still (by rw [hdcm]) (by rw [hdcm]; exact h.flag) fun x => ?_
      have hcong : ∀ o, s'.outstanding o x = s.outstanding o x := fun o =>
        outstanding_congr (by rw [hdcm]) (hmc x).2
      obtain ⟨side, rfl | rfl⟩ := hc <;>
        rw [List.nil_append, hook_cons (by simp [Call.rank]), hcong] <;> rfl
  | finished hdcm hmc hline hpkt => exact h.finished hp hdcm hmc hline hpkt
  | @readDone side i b _ hdcm hmc hlines hother =>
      refine h.still (by rw [hdcm]) (by rw [hdcm]; exact h.flag) fun x => ?_
      rw [List.nil_append, hp.stacked.hook_tail (by simp [Call.rank]), hook_cons_self rfl,
        outstanding_readDone hdcm hlines hother]
      rfl

theorem enter (h : Paired [] s) {op : Op} (hinv : OrbInv .calm s.dcm.core)
    (hstep : EnterStep s op s' ks) : Paired ks s' := by
  refine ⟨fun x pkt => ?_, fun x b => ?_⟩
  · rw [hstep.calm.1]
    exact h.flag x pkt
  · have hcount := h.count x b
    have hown : s'.dcm.owner x b = s.dcm.owner x b := hstep.front.owner hinv x b
    rw [(FrontEnter.stacked hstep.front).2, hstep.front.answering, hown,
      outstanding_congr (hstep.calm.1 x) (by rw [hstep.mc])]
    exact hcount

theorem fresh (h : s.Fresh) : Paired [] s := by
  have hheld : ∀ x, (s.mc x).rq.held = 0 := by
    have hnew : ∀ a b c d, (MemoryController.new a b c d).rq.held = 0 := fun _ _ _ _ => rfl
    intro x
    cases x with
    | near =>
        obtain ⟨tRP, tRCD, tCAS, dbus, hmc⟩ := h.nearMC
        show s.nearMC.rq.held = 0
        rw [hmc, hnew]
    | far =>
        obtain ⟨tRP, tRCD, tCAS, dbus, hmc⟩ := h.farMC
        show s.farMC.rq.held = 0
        rw [hmc, hnew]
  have hpend : ∀ x, s.dcm.pending x = [] := by
    intro x
    cases x with
    | near => rw [Manager.pending, h.near, List.map_nil]
    | far => rw [Manager.pending, h.far, List.map_nil]
  refine ⟨fun x pkt => ?_, fun x b => ?_⟩
  · rw [hpend]
    simp
  · have hnone : hook [] = none := rfl
    rw [hnone, outstanding_none, readsOf, hpend, hheld, owner_of_none]
    · simp
    · rw [h.orb, AList.lookup_empty]

end Paired

end Sys

/-! ## What a callback reports -/

/-- `return_data` has looked its entry up. -/
def Event.isReport : Event → Bool
  | .answered .. | .untracked .. => true
  | _ => false

theorem upcalls_unreported {why : Upcall} {pkt : Packet} {now : Nat} :
    ∀ ev ∈ Manager.upcalls why pkt now, ev.isReport = false := by
  intro ev hev
  simp only [Manager.upcalls, List.mem_append] at hev
  rcases hev with hev | hev <;> split at hev <;> simp_all [Event.isReport]

theorem retired_unreported {e : OrbEntry} {lat now : Nat} :
    ∀ ev ∈ Event.retired e now :: Manager.respondNow e lat now, ev.isReport = false := by
  intro ev hev
  rcases List.mem_cons.mp hev with rfl | hev
  · rfl
  · unfold Manager.respondNow at hev
    split at hev
    · exact upcalls_unreported ev hev
    · cases hev

theorem victimEvents_unreported {e : OrbEntry} :
    ∀ ev ∈ Manager.victimEvents e, ev.isReport = false := by
  intro ev hev
  simp only [Manager.victimEvents] at hev
  split at hev <;> simp_all [Event.isReport]

/-- A report says what the callback found. -/
def Event.ReportOf (c : Call) (m : Manager) (ev : Event) : Prop :=
  ev.isReport = true → ∃ side pkt, c = .returnData side pkt ∧
    (ev = .untracked side pkt.address ∧ m.orb.lookup pkt.address = none
      ∨ ∃ e, ev = .answered side e ∧ m.orb.lookup pkt.address = some e)

theorem FrontStep.reported {m m' : Manager} {c : Call} {ks : List Call}
    (h : FrontStep m c m' ks) :
    ∃ evs, m'.log = m.log ++ evs ∧ ∀ ev ∈ evs, ev.ReportOf c m := by
  have hsame : m'.log = m.log → ∃ evs, m'.log = m.log ++ evs ∧ ∀ ev ∈ evs, ev.ReportOf c m :=
    fun hlog => ⟨[], by rw [hlog, List.append_nil], by simp⟩
  have hquiet : ∀ {l}, m'.log = m.log ++ l → (∀ ev ∈ l, ev.isReport = false) →
      ∃ evs, m'.log = m.log ++ evs ∧ ∀ ev ∈ evs, ev.ReportOf c m := by
    intro l hlog hevs
    refine ⟨l, hlog, fun ev hev hr => ?_⟩
    rw [hevs ev hev] at hr
    cases hr
  have hfound : ∀ {side pkt e l}, c = .returnData side pkt →
      m.orb.lookup pkt.address = some e → m'.log = m.log ++ .answered side e :: l →
      (∀ ev ∈ l, ev.isReport = false) →
      ∃ evs, m'.log = m.log ++ evs ∧ ∀ ev ∈ evs, ev.ReportOf c m := by
    intro side pkt e l hc hl hlog hevs
    refine ⟨_, hlog, fun ev hev hr => ?_⟩
    rcases List.mem_cons.mp hev with rfl | hev
    · exact ⟨side, pkt, hc, .inr ⟨e, rfl, hl⟩⟩
    · rw [hevs ev hev] at hr
      cases hr
  cases h with
  | bypassed now _ => exact hquiet rfl upcalls_unreported
  | @untracked side pkt hl =>
      refine ⟨[.untracked side pkt.address], rfl, fun ev hev _ => ?_⟩
      rw [List.mem_singleton.mp hev]
      exact ⟨side, pkt, rfl, .inl ⟨rfl, hl⟩⟩
  | stray hl _ => exact hfound (l := []) rfl hl rfl (by simp)
  | @nearEnter _ _ e _ _ hl _ _ =>
      refine hfound (l := Manager.victimEvents e) rfl hl ?_ victimEvents_unreported
      simp [Manager.enterState, Manager.emit]
  | @nearHit _ _ e lat now hl _ _ _ =>
      refine hfound (l := Manager.victimEvents e ++ .retired e now :: Manager.respondNow e lat now)
        rfl hl ?_ fun ev hev => ?_
      · simp [Manager.emit]
      · rcases List.mem_append.mp hev with hev | hev
        · exact victimEvents_unreported ev hev
        · exact retired_unreported ev hev
  | @farDone _ _ e lat now hl _ =>
      refine hfound (l := .retired e now :: Manager.respondNow e lat now) rfl hl ?_
        retired_unreported
      simp [Manager.emit, Manager.farAnswered, Manager.count]
  | readNear => exact hquiet (l := [_]) rfl (by simp [Event.isReport])
  | readFar => exact hquiet (l := [_]) rfl (by simp [Event.isReport])
  | writeNear => exact hquiet (l := [_]) rfl (by simp [Event.isReport])
  | complete now _ => exact hquiet (Manager.retire_log ..) retired_unreported
  | promote now _ => exact hquiet (Manager.admitEntry_log ..) (by simp [Event.isReport])
  | @flag a i =>
      rcases m.flagConflict_eq a i with hf | ⟨e, -, hf⟩ <;> exact hsame (by rw [hf])
  | fill => exact hquiet (l := [_]) rfl (by simp [Event.isReport])
  | drained => exact hquiet (l := [_]) rfl (by simp [Event.isReport])
  | responses clk =>
      obtain ⟨due, rest, -, hr⟩ := Manager.releaseResponses_eq clk m.pendingResponses m
      refine hquiet (by rw [Manager.processPendingResponses, hr]) fun ev hev => ?_
      obtain ⟨r, -, hev⟩ := List.mem_flatMap.mp hev
      exact upcalls_unreported ev hev
  | _ => exact hsame rfl

/-- A report of a callback that met the entry it answers. -/
def Event.Matched : Event → Prop
  | .answered side e => e.state = side.awaits
  | .untracked .. => False
  | _ => True

theorem Event.matched_of_unreported {ev : Event} (h : ev.isReport = false) : ev.Matched := by
  cases ev <;> trivial

/-! ## Throughout a run -/

section Run

open Worklist (Reaches)
open Sys (Paired)

variable {allow : Op → Prop} {ok : Worklist.Config Sys Call → Prop} {s₀ : Sys}
  {x : Worklist.Config Sys Call}

theorem flagged_of_reaches (hallow : ∀ op, allow op → op.Roi ∧ op.OneFlag) (h₀ : s₀.Fresh)
    (h : ReachesIf machine allow ok s₀ x) : Flagged x.2.dcm.core := by
  refine front_invariant (I := fun _ _ => True) (P := fun _ m => Flagged m)
    (fun op ha => (hallow op ha).1) h₀.live (fun _ _ => trivial) (.fresh h₀) ?_ ?_ h
  · intro op m m' ks ha hstep _ hp
    exact hp.enter hstep (hallow op ha).2
  · intro c K m m' ks hstep _ hp
    exact hp.step hstep

/-- Reads and ORB entries are paired throughout every run. -/
theorem paired_of_reaches (hallow : ∀ op, allow op → op.Roi ∧ op.OneFlag) (h₀ : s₀.Fresh)
    (h : ReachesIf machine allow ok s₀ x) : Paired x.1 x.2 := by
  have hroi : ∀ op, allow op → op.Roi := fun op ha => (hallow op ha).1
  refine system_invariant hroi h₀ (.fresh h₀) ?_ ?_ h
  · intro op s s' ks _ hr hstep hp
    exact hp.enter (orbInv_of_reaches hroi h₀ hr).2 hstep
  · intro c K s s' ks _ hr hpoised hstep hp
    exact hp.step hpoised (orbInv_of_reaches hroi h₀ hr).2 (flagged_of_reaches hallow h₀ hr)
      (live_of_reaches hroi h₀.live hr) hstep

/-- A callback about to run meets the entry it answers. -/
theorem answered_of_reaches (hallow : ∀ op, allow op → op.Roi ∧ op.OneFlag) (h₀ : s₀.Fresh)
    {K : List Call} {s : Sys} {side : Side} {pkt : Packet}
    (h : ReachesIf machine allow ok s₀ (.returnData side pkt :: K, s)) :
    ∃ e, s.dcm.orb.lookup pkt.address = some e ∧ e.state = side.awaits :=
  (paired_of_reaches hallow h₀ h).answered (List.mem_cons_self ..)

/-- Every callback so far met the entry it answered. -/
theorem matched_of_reaches (hallow : ∀ op, allow op → op.Roi ∧ op.OneFlag) (h₀ : s₀.Fresh)
    (h : ReachesIf machine allow ok s₀ x) : ∀ ev ∈ x.2.dcm.log, ev.Matched := by
  refine front_invariant (P := fun _ m => ∀ ev ∈ m.log, ev.Matched)
    (I := fun K m => ∀ side pkt K', K = .returnData side pkt :: K' →
      ∃ e, m.orb.lookup pkt.address = some e ∧ e.state = side.awaits)
    (fun op ha => (hallow op ha).1) h₀.live ?_ ?_ ?_ ?_ h
  · rintro ⟨K, s⟩ hr side pkt K' rfl
    exact answered_of_reaches hallow h₀ hr
  · intro ev hev
    have := h₀.log ev hev
    cases ev <;> trivial
  · intro op m m' ks _ hstep _ hp
    obtain ⟨evs, hlog, hevs⟩ := hstep.log_append
    intro ev hev
    rw [hlog] at hev
    rcases List.mem_append.mp hev with hev | hev
    · exact hp ev hev
    · have hadm := hevs ev hev
      cases ev <;> trivial
  · intro c K m m' ks hstep hans hp ev hev
    obtain ⟨evs, hlog, hevs⟩ := hstep.reported
    rw [hlog] at hev
    rcases List.mem_append.mp hev with hev | hev
    · exact hp ev hev
    · by_cases hr : ev.isReport = true
      · obtain ⟨side, pkt, rfl, hrep⟩ := hevs ev hev hr
        obtain ⟨e, hl, hs⟩ := hans side pkt K rfl
        rcases hrep with ⟨-, hnone⟩ | ⟨e', rfl, hl'⟩
        · rw [hl] at hnone
          cases hnone
        · obtain rfl : e = e' := by simpa [hl] using hl'
          exact hs
      · exact Event.matched_of_unreported (by simpa using hr)

/-- **Every read has its owner and every owner its read.** At a call
boundary an ORB entry waits for its near or for its far read, of which
exactly one is pending or queued on that side and none on the other, and
every read pending or queued is waited for. Whenever a controller calls
back, the entry is there and in the state of that side, and no callback
has found an untracked address. -/
theorem reads_owned (hallow : ∀ op, allow op → op.Roi ∧ op.OneFlag) (h₀ : s₀.Fresh) :
    (∀ s, Reaches machine allow s₀ ([], s) →
      (∀ a e, s.dcm.orb.lookup a = some e →
        e.state = .waitingLocMemReadResp ∧ (s.readsOf .near).count a = 1
          ∧ (s.readsOf .far).count a = 0
        ∨ e.state = .waitingFarMemReadResp ∧ (s.readsOf .near).count a = 0
          ∧ (s.readsOf .far).count a = 1) ∧
      ∀ side, ∀ a ∈ s.readsOf side,
        ∃ e, s.dcm.orb.lookup a = some e ∧ e.state = side.awaits) ∧
    (∀ side pkt K s, Reaches machine allow s₀ (.returnData side pkt :: K, s) →
      ∃ e, s.dcm.orb.lookup pkt.address = some e ∧ e.state = side.awaits) ∧
    ∀ K s, Reaches machine allow s₀ (K, s) → ∀ side a, .untracked side a ∉ s.dcm.log := by
  refine ⟨fun s hr => ⟨fun a e hl => ?_, fun side a ha => ?_⟩,
    fun side pkt K s hr => answered_of_reaches hallow h₀ hr, fun K s hr side a hmem => ?_⟩
  · have hpair : ∀ side, (s.readsOf side).count a = s.dcm.owner side a := fun side => by
      simpa [hook, Sys.outstanding_none] using (paired_of_reaches hallow h₀ hr).count side a
    have hrest := (orbInv_of_reaches (fun op ha => (hallow op ha).1) h₀ hr).2.rest hl
      (by simp [Ctl.of, Ctl.focus])
    rw [hpair, hpair, owner_of_lookup hl, owner_of_lookup hl]
    rcases Side.eq_of_awaits hrest with hs | hs <;> rw [hs] <;> simp [Side.awaits]
  · have hpair := (paired_of_reaches hallow h₀ hr).count side a
    refine exists_owner fun h0 => ?_
    rw [h0] at hpair
    have hnot : a ∉ s.readsOf side := by simpa [hook, Sys.outstanding_none] using hpair
    exact hnot ha
  · exact matched_of_reaches hallow h₀ hr _ hmem

/-- A read miss behind its near read, with a conflicting read waiting. -/
theorem reads_owned_two_reads :
    ∃ s, Worklist.drive machine 60
        [.addRq (.readOf 5), .addRq (.readOf (5 + dcmNumLines)), .operate]
        (.cold .baselineCascadeLake 0) = some s ∧
      ∀ side, ∀ a ∈ s.readsOf side,
        ∃ e, s.dcm.orb.lookup a = some e ∧ e.state = side.awaits := by
  obtain ⟨s, hs⟩ := Option.isSome_iff_exists.mp (show (Worklist.drive machine 60
    [.addRq (.readOf 5), .addRq (.readOf (5 + dcmNumLines)), .operate]
    (.cold .baselineCascadeLake 0)).isSome from by decide +kernel)
  have hr : Reaches machine (fun op => op.Roi ∧ op.OneFlag)
      (.cold .baselineCascadeLake 0) ([], s) := by
    refine Worklist.drive_reaches ?_ .refl hs
    simp [Op.Roi, Op.OneFlag, Op.request?, Packet.readOf, Packet.SingleFlag]
  exact ⟨s, hs, ((reads_owned (fun _ h => h) (Sys.cold_fresh ..)).1 s hr).2⟩

/-- A packet for both ports. -/
def Packet.readForBoth (address : Nat) : Packet := { Packet.readOf address with instruction := true }

/-- Line 5 is written twice, the second time by a packet that carries both
flags: the read of its tag check is answered from the near write queue, once
for each flag. The first answer completes the write, the second finds nobody. -/
theorem write_for_both_untracked :
    ∃ s, Worklist.drive machine 60
        [.addWq (.readOf 5), .operate, .addWq (.readForBoth 5)] (.cold .baselineCascadeLake 0)
          = some s ∧
      Reaches machine (fun op => op.Roi ∧ op.Nonzero ∧ op.SingleFlag)
        (.cold .baselineCascadeLake 0) ([], s) ∧
      .untracked .near 5 ∈ s.dcm.log := by
  have hcheck : ((Worklist.drive machine 60
      [.addWq (.readOf 5), .operate, .addWq (.readForBoth 5)]
      (.cold .baselineCascadeLake 0)).map fun s =>
        decide (.untracked .near 5 ∈ s.dcm.log)) = some true := by
    decide +kernel
  obtain ⟨s, hs, hmem⟩ := Option.map_eq_some_iff.mp hcheck
  refine ⟨s, hs, Worklist.drive_reaches ?_ .refl hs, of_decide_eq_true hmem⟩
  simp [Op.Roi, Op.Nonzero, Op.SingleFlag, Op.request?, Packet.readOf, Packet.readForBoth,
    Packet.SingleFlag]

end Run

end DramCache
