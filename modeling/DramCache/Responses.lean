import DramCache.Conservation
import DramCache.Pairing

/-!
# One response for every read

When every request asks for one port, every read dispatched for an entry
moves it on exactly once, a read miss completes on its far response, and
the upper level is called once for each read. A read that asks for both
ports is called back twice where a write queue answers it: the second
callback meets the entry in its next state and completes the miss without
far memory.
-/

namespace DramCache

open Worklist (ReachesIf Reaches)

/-! ## Reads dispatched and answered -/

/-- A read dispatched to a side for a request. -/
def Event.readFor (side : Side) (r : Nat) : Event → Bool
  | .handNear rid _ _ w => decide (side = .near ∧ rid = r ∧ w = false)
  | .handFar rid _ w => decide (side = .far ∧ rid = some r ∧ w = false)
  | _ => false

/-- A callback of a side that moves a request on that waits for it. -/
def Event.advances (side : Side) (r : Nat) : Event → Bool
  | .answered sd e => decide (sd = side ∧ e.requestId = r ∧ e.state = side.awaits)
  | _ => false

/-- An ORB entry of a request that waits for a side. -/
def OrbEntry.waitsFor (side : Side) (r : Nat) (e : OrbEntry) : Bool :=
  decide (e.requestId = r ∧ e.state = side.awaits)

namespace Manager

def dispatches (m : Manager) (side : Side) (r : Nat) : Nat := m.log.countP (Event.readFor side r)

def advances (m : Manager) (side : Side) (r : Nat) : Nat := m.log.countP (Event.advances side r)

def waits (m : Manager) (side : Side) (r : Nat) : Nat :=
  Keyed.total (fun e => (e.waitsFor side r).toNat) m.orb

end Manager

/-- Every dispatched read has moved its request on, or is waited for. -/
def Advanced (m : Manager) : Prop :=
  ∀ side r, m.dispatches side r = m.advances side r + m.waits side r

theorem OrbEntry.waitsFor_of_not_waiting {e : OrbEntry} (h : e.state.waiting = false)
    (side : Side) (r : Nat) : e.waitsFor side r = false := by
  have := not_awaits h side
  simp [OrbEntry.waitsFor, this]

/-- Events that are neither a hand-over nor a callback. -/
def Event.aside : Event → Bool
  | .handNear .. | .handFar .. | .answered .. => false
  | _ => true

theorem aside_counts {evs : List Event} (h : ∀ ev ∈ evs, ev.aside) (side : Side) (r : Nat) :
    evs.countP (Event.readFor side r) = 0 ∧ evs.countP (Event.advances side r) = 0 := by
  constructor <;> refine List.countP_eq_zero.mpr fun ev hev => ?_ <;>
    have := h ev hev <;>
    cases ev <;> simp_all [Event.aside, Event.readFor, Event.advances]

theorem victimEvents_aside (e : OrbEntry) : ∀ ev ∈ Manager.victimEvents e, ev.aside := by
  intro ev hev
  rw [Manager.mem_victimEvents hev]
  rfl

theorem upcalls_aside {why : Upcall} {pkt : Packet} {now : Nat} :
    ∀ ev ∈ Manager.upcalls why pkt now, ev.aside := by
  intro ev hev
  obtain ⟨port, rfl⟩ := Manager.mem_upcalls hev
  rfl

theorem retired_aside (e : OrbEntry) (lat now : Nat) :
    ∀ ev ∈ Event.retired e now :: Manager.respondNow e lat now, ev.aside := by
  intro ev hev
  rcases List.mem_cons.mp hev with rfl | hev
  · rfl
  · obtain ⟨port, rfl⟩ := Manager.mem_respondNow hev
    rfl

namespace Advanced

variable {m m' : Manager} {l : List Event}

/-- The general step: what is dispatched is waited for, what advances waits
no more. -/
theorem move (h : Advanced m) (hlog : m'.log = m.log ++ l)
    (hbal : ∀ side r, l.countP (Event.readFor side r) + m.waits side r
      = l.countP (Event.advances side r) + m'.waits side r) : Advanced m' := by
  intro side r
  have h1 := h side r
  have h2 := hbal side r
  simp only [Manager.dispatches, Manager.advances, hlog, List.countP_append] at h1 ⊢
  omega

theorem still (h : Advanced m) (hlog : m'.log = m.log ++ l) (hevs : ∀ ev ∈ l, ev.aside)
    (horb : m'.orb = m.orb) : Advanced m' := by
  refine h.move hlog fun side r => ?_
  have hc := aside_counts hevs side r
  rw [hc.1, hc.2, Manager.waits, Manager.waits, horb]

theorem change (h : Advanced m) {a : Nat} {e : OrbEntry} (hl : m.orb.lookup a = some e)
    (e' : OrbEntry) (horb : m'.orb = m.orb.insert a e') (hlog : m'.log = m.log ++ l)
    (hbal : ∀ side r, l.countP (Event.readFor side r) + (e.waitsFor side r).toNat
      = l.countP (Event.advances side r) + (e'.waitsFor side r).toNat) : Advanced m' := by
  refine h.move hlog fun side r => ?_
  have hb := hbal side r
  have hw := Keyed.total_insert (fun e => (e.waitsFor side r).toNat) hl e'
  rw [Manager.waits, Manager.waits, horb]
  omega

theorem leave (h : Advanced m) {a : Nat} {e : OrbEntry} (hl : m.orb.lookup a = some e)
    (horb : m'.orb = m.orb.erase a) (hlog : m'.log = m.log ++ l)
    (hbal : ∀ side r, l.countP (Event.readFor side r) + (e.waitsFor side r).toNat
      = l.countP (Event.advances side r)) : Advanced m' := by
  refine h.move hlog fun side r => ?_
  have hb := hbal side r
  have hw := Keyed.total_erase (fun e => (e.waitsFor side r).toNat) hl
  rw [Manager.waits, Manager.waits, horb]
  omega

theorem arrive (h : Advanced m) {a : Nat} {e : OrbEntry} (hl : m.orb.lookup a = none)
    (horb : m'.orb = m.orb.insert a e) (hs : e.state.waiting = false)
    (hlog : m'.log = m.log ++ l) (hevs : ∀ ev ∈ l, ev.aside) : Advanced m' := by
  refine h.move hlog fun side r => ?_
  have hc := aside_counts hevs side r
  rw [hc.1, hc.2, Manager.waits, Manager.waits, horb, Keyed.total_insert_new _ hl,
    OrbEntry.waitsFor_of_not_waiting hs, Bool.toNat_false, Nat.zero_add, Nat.zero_add]

/-- A callback meets the entry it answers. -/
theorem answered_counts {d : Side} {e : OrbEntry} (hs : e.state = d.awaits)
    (hevs : ∀ ev ∈ l, ev.aside) (x : Side) (r : Nat) :
    (Event.answered d e :: l).countP (Event.readFor x r) = 0 ∧
    (Event.answered d e :: l).countP (Event.advances x r) = (e.waitsFor x r).toNat := by
  have hc := aside_counts hevs x r
  rw [List.countP_cons, List.countP_cons, hc.1, hc.2]
  refine ⟨by simp [Event.readFor], ?_⟩
  by_cases hx : d = x
  · subst hx
    by_cases hr : e.requestId = r <;> simp [Event.advances, OrbEntry.waitsFor, hs, hr]
  · have hne : d.awaits ≠ x.awaits := by
      cases d <;> cases x <;> simp [Side.awaits] <;> exact absurd rfl hx
    simp [Event.advances, OrbEntry.waitsFor, hs, hx, hne]

theorem step {c : Call} {ks K : List Call} (h : Advanced m) (hstep : FrontStep m c m' ks)
    (hinv : OrbInv (Ctl.of (c :: K)) m)
    (hanswer : ∀ side pkt, c = .returnData side pkt →
      ∃ e, m.orb.lookup pkt.address = some e ∧ e.state = side.awaits) : Advanced m' := by
  have hidle : ∀ {e : OrbEntry} side r, e.state.waiting = false →
      (e.waitsFor side r).toNat = 0 := fun side r hs => by
    rw [OrbEntry.waitsFor_of_not_waiting hs, Bool.toNat_false]
  have hmet : ∀ {side pkt e}, c = .returnData side pkt → m.orb.lookup pkt.address = some e →
      e.state = side.awaits := by
    intro side pkt e hc hl
    obtain ⟨e', hl', hs⟩ := hanswer side pkt hc
    obtain rfl : e = e' := by simpa [hl] using hl'
    exact hs
  cases hstep with
  | bypassed now _ => exact h.still rfl upcalls_aside rfl
  | untracked hl => exact h.still (l := [_]) rfl (by simp [Event.aside]) rfl
  | @stray side pkt e hl hs =>
      rw [hmet rfl hl, Side.awaits_waiting] at hs
      cases hs
  | @nearEnter side pkt e st now hl _ hst =>
      have hst' : st.waiting = false := by rcases hst with ⟨rfl, -⟩ | ⟨rfl, -⟩ <;> rfl
      have hmeet := hmet rfl hl
      rw [← (hinv.entry hl).addr] at hl
      refine h.change (l := .answered side e :: Manager.victimEvents e) hl { e with state := st }
        (by simp [Manager.enterState, Manager.emit]) (by simp [Manager.enterState, Manager.emit])
        fun x r => ?_
      have hc := answered_counts hmeet (victimEvents_aside e) x r
      rw [hc.1, hc.2, hidle (e := { e with state := st }) x r hst', Nat.zero_add, Nat.add_zero]
  | @nearHit side pkt e lat now hl _ _ _ =>
      have hmeet := hmet rfl hl
      rw [← (hinv.entry hl).addr] at hl
      refine h.leave (l := .answered side e :: (Manager.victimEvents e
        ++ .retired e now :: Manager.respondNow e lat now)) hl (by simp [Manager.emit])
        (by simp [Manager.emit]) fun x r => ?_
      have hc := answered_counts (d := side) hmeet (l := Manager.victimEvents e
        ++ .retired e now :: Manager.respondNow e lat now) (fun ev hev => ?_) x r
      · rw [hc.1, hc.2, Nat.zero_add]
      · rcases List.mem_append.mp hev with hev | hev
        · exact victimEvents_aside e ev hev
        · exact retired_aside e lat now ev hev
  | @farDone side pkt e lat now hl _ =>
      have hmeet := hmet rfl hl
      rw [← (hinv.entry hl).addr] at hl
      refine h.leave (l := .answered side e :: .retired e now :: Manager.respondNow e lat now) hl
        (by simp [Manager.emit, Manager.farAnswered, Manager.count])
        (by simp [Manager.emit, Manager.farAnswered, Manager.count]) fun x r => ?_
      have hc := answered_counts hmeet (retired_aside e lat now) x r
      rw [hc.1, hc.2, Nat.zero_add]
  | @readNear a e _ now hl hs _ =>
      rw [← (hinv.entry hl).addr] at hl
      refine h.change (l := [_]) hl _ rfl rfl fun x r => ?_
      rw [hidle x r (by rw [hs]; rfl)]
      by_cases hr : e.requestId = r <;> cases x <;>
        simp [Event.readFor, Event.advances, OrbEntry.waitsFor, Side.awaits, hr]
  | @readFar a e _ now hl hs _ =>
      rw [← (hinv.entry hl).addr] at hl
      refine h.change (l := [_]) hl _ rfl rfl fun x r => ?_
      rw [hidle x r (by rw [hs]; rfl)]
      by_cases hr : e.requestId = r <;> cases x <;>
        simp [Event.readFor, Event.advances, OrbEntry.waitsFor, Side.awaits, hr]
  | @writeNear a e now hl hs =>
      rw [← (hinv.entry hl).addr] at hl
      refine h.change (l := [_]) hl _ rfl rfl fun x r => ?_
      rw [hidle x r (by rw [hs]; rfl), hidle x r rfl]
      simp [Event.readFor, Event.advances]
  | @complete a lat e now hl =>
      obtain ⟨e', hl', hfit⟩ := hinv.focus (a := a) rfl
      obtain rfl : e = e' := by simpa [hl] using hl'
      have hs : e.state = .waitingLocMemWriteResp := hfit
      rw [← (hinv.entry hl).addr] at hl
      refine h.leave hl (Manager.retire_orb ..) (Manager.retire_log ..) fun x r => ?_
      have hc := aside_counts (retired_aside e lat now) x r
      rw [hc.1, hc.2, hidle x r (by rw [hs]; rfl)]
  | @promote i w now hw =>
      exact h.arrive (hinv.waiter_none hw) (Manager.admitEntry_orb ..)
        (not_waiting_of_drivable (Manager.initialChoice_drivable _)) (Manager.admitEntry_log ..)
        (by simp [Event.aside])
  | @flag a i =>
      rcases m.flagConflict_eq a i with hf | ⟨e, hl, hf⟩ <;> rw [hf]
      · exact h
      · exact h.change (l := []) hl _ rfl (List.append_nil _).symm fun _ _ => rfl
  | @fill rid i pkt =>
      refine h.move (l := [_]) rfl fun x r => ?_
      have hwait : (m.fillNear rid i pkt).waits x r = m.waits x r := rfl
      rw [hwait]
      simp [Event.readFor, Event.advances]
  | @drained front =>
      refine h.move (l := [_]) rfl fun x r => ?_
      have hwait : (m.drained front).waits x r = m.waits x r := rfl
      rw [hwait]
      simp [Event.readFor, Event.advances]
  | responses clk =>
      obtain ⟨due, rest, -, hr⟩ := Manager.releaseResponses_eq clk m.pendingResponses m
      rw [Manager.processPendingResponses, hr]
      refine h.still rfl (fun ev hev => ?_) rfl
      obtain ⟨r, -, hev⟩ := List.mem_flatMap.mp hev
      exact upcalls_aside ev hev
  | _ => exact h

theorem enter {op : Op} {ks : List Call} (h : Advanced m) (hstep : FrontEnter m op m' ks)
    (hinv : OrbInv .calm m) : Advanced m' := by
  obtain ⟨evs, hlog, hevs⟩ := hstep.log_append
  have haside : ∀ ev ∈ evs, ev.aside := by
    intro ev hev
    have hadm := hevs ev hev
    cases ev <;> first | rfl | cases hadm
  cases hstep with
  | @admitted _ w pkt now _ hc _ _ =>
      exact h.arrive (hinv.lookup_none hc) (Manager.admitEntry_orb ..)
        (not_waiting_of_drivable (Manager.initialChoice_drivable _)) hlog haside
  | _ => exact h.still hlog haside rfl

end Advanced

/-! ## Read misses complete on their far response -/

/-- A read miss is completed after a far callback has met its entry. -/
def Fetched (m : Manager) : Prop :=
  ∀ pre e cycle post, m.log = pre ++ .retired e cycle :: post → e.isWriteReq = false →
    e.isHit = false → .answered .far e ∈ pre

namespace Fetched

variable {m m' : Manager}

theorem step {c : Call} {ks K : List Call} (h : Fetched m) (hstep : FrontStep m c m' ks)
    (hinv : OrbInv (Ctl.of (c :: K)) m)
    (hanswer : ∀ side pkt, c = .returnData side pkt →
      ∃ e, m.orb.lookup pkt.address = some e ∧ e.state = side.awaits) : Fetched m' := by
  intro pre e cycle post hsplit hw hh
  obtain ⟨evs, hlog⟩ := hstep.log_append
  rw [hlog] at hsplit
  rcases Keyed.split_append hsplit with ⟨post', hold⟩ | ⟨pre', rfl, rfl⟩
  · exact h pre e cycle post' hold hw hh
  · have hmem : Event.retired e cycle ∈ pre' ++ .retired e cycle :: post := by simp
    have hret := (hstep.retired hlog hmem).2.2
    -- a hit is no miss, a written request no read
    generalize hevs : pre' ++ Event.retired e cycle :: post = evs at hret
    cases hret with
    | hit _ hh' =>
        rw [hh] at hh'
        cases hh'
    | @written a lat _ hl =>
        obtain ⟨e', hl', hfit⟩ := hinv.focus (a := a) rfl
        obtain rfl : e = e' := by simpa [hl] using hl'
        have hwrite := (hinv.entry hl).nearWrite (.inr hfit)
        rw [hw] at hwrite
        cases hwrite
    | @fetched side pkt lat hl hs =>
        obtain ⟨e', hl', hmeet⟩ := hanswer side pkt rfl
        obtain rfl : e = e' := by simpa [hl] using hl'
        have hfar : side = .far := by
          cases side
          · rw [hs] at hmeet
            cases hmeet
          · rfl
        subst hfar
        refine List.mem_append_right _ ?_
        cases pre' with
        | nil => cases hevs
        | cons ev pre' =>
            obtain ⟨rfl, -⟩ := List.cons.inj hevs
            exact List.mem_cons_self ..

theorem enter {op : Op} {ks : List Call} (h : Fetched m) (hstep : FrontEnter m op m' ks) :
    Fetched m' := by
  intro pre e cycle post hsplit hw hh
  obtain ⟨evs, hlog, hevs⟩ := hstep.log_append
  rw [hlog] at hsplit
  rcases Keyed.split_append hsplit with ⟨post', hold⟩ | ⟨pre', rfl, rfl⟩
  · exact h pre e cycle post' hold hw hh
  · have := hevs (.retired e cycle) (by simp)
    cases this

end Fetched

/-! ## The upper level is called once for each read -/

def Event.delivered? : Event → Option Packet
  | .upcall .response _ pkt _ => some pkt
  | _ => none

/-- The packets the upper level's `return_data` got as responses, once for
each call. -/
def delivered (log : List Event) : List Packet := log.filterMap Event.delivered?

/-- The packets of the reads among some requests. -/
def readPackets (rs : Multiset Request) : Multiset Packet :=
  (rs.filter fun r => r.1 = false).map Prod.snd

theorem readPackets_add (rs rs' : Multiset Request) :
    readPackets (rs + rs') = readPackets rs + readPackets rs' := by simp [readPackets]

/-- When no call of the upper level strays, the finished reads are those
delivered. -/
theorem delivered_eq : ∀ {log : List Event},
    (∀ ev ∈ strays log, ev.delivered? = none) →
      (delivered log : Multiset Packet) = readPackets ↑(finished log)
  | [], _ => rfl
  | ev :: log, h => by
      have hrest : (delivered log : Multiset Packet) = readPackets ↑(finished log) := by
        refine delivered_eq fun ev' hev' => h ev' ?_
        rw [← List.singleton_append, strays_append]
        exact List.mem_append_right _ hev'
      have hsplit : (delivered (ev :: log) : Multiset Packet) = ↑(delivered [ev]) + ↑(delivered log) := by
        rw [Multiset.coe_add]
        exact congrArg _ (List.filterMap_append (l := [ev]) ..)
      have hone : (delivered [ev] : Multiset Packet) = readPackets ↑(finished [ev]) := by
        have hev := fun ev' hev' => h ev' (by
          rw [← List.singleton_append, strays_append]
          exact List.mem_append_left _ hev')
        cases ev with
        | upcall why port pkt c =>
            cases why with
            | response =>
                by_cases hport : port = pkt.port
                · simp [delivered, finished, readPackets, Event.delivered?, Event.finished?, hport,
                    Multiset.filter_singleton]
                · have := hev (.upcall .response port pkt c) (by
                    simp [strays, Event.stray?, hport])
                  cases this
            | bypass => rfl
            | warmup => rfl
        | retired e c =>
            cases hw : e.isWriteReq <;>
              simp [delivered, finished, readPackets, Event.delivered?, Event.finished?, hw,
                Multiset.filter_singleton]
        | _ => rfl
      rw [hsplit, hone, hrest, ← readPackets_add, Multiset.coe_add, ← finished_append,
        List.singleton_append]

/-! ## One response -/

/-- What the caches rely on: every callback meets an entry waiting for its
side, every read dispatched has moved its request on or is waited for, read
misses complete on their far response, and every read accepted is still
with the manager or was delivered. -/
structure Sys.OneResponse (s : Sys) : Prop where
  met : ∀ side e, .answered side e ∈ s.dcm.log → e.state = side.awaits
  once : ∀ side r, s.dcm.dispatches side r = s.dcm.advances side r + s.dcm.waits side r
  fetched : Fetched s.dcm
  delivered : readPackets ↑(accepted s.dcm.log) = readPackets ↑s.dcm.waiting
    + readPackets s.dcm.working + readPackets ↑s.dcm.held + ↑(delivered s.dcm.log)

/-- The requests of the caches: a read asks for a port or for both, a
write-back for one. -/
def Op.FromCaches (op : Op) : Prop :=
  ∀ w pkt, op.request? = some (w, pkt) →
    if w then pkt.SingleFlag else (pkt.instruction || pkt.isData) = true

section Run

variable {allow : Op → Prop} {ok : Worklist.Config Sys Call → Prop} {s₀ : Sys}

theorem advanced_of_reaches (hallow : ∀ op, allow op → op.Roi ∧ op.OneFlag) (h₀ : s₀.Fresh)
    {x : Worklist.Config Sys Call} (h : ReachesIf machine allow ok s₀ x) :
    Advanced x.2.dcm.core ∧ Fetched x.2.dcm.core := by
  have hroi : ∀ op, allow op → op.Roi := fun op ha => (hallow op ha).1
  refine front_invariant (P := fun _ m => Advanced m ∧ Fetched m)
    (I := fun K m => OrbInv (Ctl.of K) m ∧ ∀ side pkt K', K = .returnData side pkt :: K' →
      ∃ e, m.orb.lookup pkt.address = some e ∧ e.state = side.awaits)
    hroi h₀.live ?_ ⟨?_, ?_⟩ ?_ ?_ h
  · rintro ⟨K, s⟩ hr
    refine ⟨(orbInv_of_reaches hroi h₀ hr).2, ?_⟩
    rintro side pkt K' rfl
    exact answered_of_reaches hallow h₀ hr
  · intro side r
    have haside : ∀ ev ∈ s₀.dcm.log, ev.aside := fun ev hev => by
      have := h₀.log ev hev
      cases ev <;> first | rfl | cases this
    have hc := aside_counts haside side r
    have horb : s₀.dcm.core.orb = ∅ := h₀.orb
    show s₀.dcm.log.countP _ = s₀.dcm.log.countP _ + _
    rw [hc.1, hc.2, Manager.waits, horb]
    rfl
  · intro pre e cycle post hlog
    have hmem : Event.retired e cycle ∈ s₀.dcm.log := by
      show _ ∈ s₀.dcm.core.log
      rw [hlog]
      simp
    cases h₀.log _ hmem
  · intro op m m' ks _ hstep hinv hp
    exact ⟨hp.1.enter hstep hinv.1, hp.2.enter hstep⟩
  · intro c K m m' ks hstep hinv hp
    have hans : ∀ side pkt, c = .returnData side pkt →
        ∃ e, m.orb.lookup pkt.address = some e ∧ e.state = side.awaits := by
      rintro side pkt rfl
      exact hinv.2 side pkt K rfl
    exact ⟨hp.1.step hstep hinv.1 hans, hp.2.step hstep hinv.1 hans⟩

/-- **One response for every read**, in every run after warm-up and outside
bypass mode whose requests ask for one port each. -/
theorem one_response (hallow : ∀ op, allow op → op.Roi ∧ op.OneFlag) (h₀ : s₀.Fresh)
    {K : List Call} {s : Sys} (h : Reaches machine allow s₀ (K, s)) : s.OneResponse := by
  have hadv := advanced_of_reaches hallow h₀ h
  have hbal := balanced_of_reaches
    (fun op ha => ⟨(hallow op ha).1, fun pkt => (hallow op ha).2 false pkt⟩) h₀ h
  refine ⟨fun side e hmem => matched_of_reaches hallow h₀ h _ hmem, hadv.1, hadv.2, ?_⟩
  have hstray : ∀ ev ∈ strays s.dcm.log, ev.delivered? = none := by
    have hs : strays s.dcm.log = strays s₀.dcm.log := hbal.noStray
    intro ev hev
    rw [hs] at hev
    obtain ⟨ev', hmem, hev⟩ := List.mem_filterMap.mp hev
    have hwarm := h₀.log ev' hmem
    cases ev' with
    | upcall why port pkt c =>
        cases why with
        | warmup =>
            cases hev
            rfl
        | _ => cases hwarm
    | _ => cases hev
  have hacc : (accepted s.dcm.log : Multiset Request) = s.dcm.placed := hbal.balance
  rw [hacc, Manager.placed, readPackets_add, readPackets_add, readPackets_add,
    delivered_eq hstray]

/-- A read miss with a conflicting read behind it, run to the end. -/
theorem one_response_two_reads :
    ∃ s, Worklist.drive machine 60
        [.addRq (.readOf 5), .addRq (.readOf (5 + dcmNumLines)), .operate, .operate]
        (.cold .baselineCascadeLake 0) = some s ∧ s.OneResponse := by
  obtain ⟨s, hs⟩ := Option.isSome_iff_exists.mp (show (Worklist.drive machine 60
    [.addRq (.readOf 5), .addRq (.readOf (5 + dcmNumLines)), .operate, .operate]
    (.cold .baselineCascadeLake 0)).isSome from by decide +kernel)
  have hr : Reaches machine (fun op => op.Roi ∧ op.OneFlag)
      (.cold .baselineCascadeLake 0) ([], s) := by
    refine Worklist.drive_reaches ?_ .refl hs
    simp [Op.Roi, Op.OneFlag, Op.request?, Packet.readOf, Packet.SingleFlag]
  exact ⟨s, hs, one_response (fun _ h => h) (Sys.cold_fresh ..) hr⟩

/-- Line 5 is written, evicted by a read of its index, and read for both
ports while its write still stands in the near write queue. The near read
is called back twice: the third request leaves the far read it dispatched
unanswered, and its packet is delivered twice. -/
theorem both_ports_answered_twice :
    ∃ s, Worklist.drive machine 60
        [.addWq (.readOf 5), .operate, .addRq (.readOf (5 + dcmNumLines)), .operate,
          .addRq (.readForBoth 5)] (.cold .baselineCascadeLake 0) = some s ∧
      Reaches machine (fun op => op.Roi ∧ op.Nonzero ∧ op.FromCaches)
        (.cold .baselineCascadeLake 0) ([], s) ∧
      ¬ s.OneResponse ∧ ¬ Fetched s.dcm ∧
      s.dcm.dispatches .far 3 = 1 ∧ s.dcm.advances .far 3 = 0 ∧ s.dcm.waits .far 3 = 0 ∧
      accepted s.dcm.log
        = [(true, .readOf 5), (false, .readOf (5 + dcmNumLines)), (false, .readForBoth 5)] ∧
      delivered s.dcm.log
        = [.readOf (5 + dcmNumLines), .readForBoth 5, .readForBoth 5] := by
  have hcheck : ((Worklist.drive machine 60
      [.addWq (.readOf 5), .operate, .addRq (.readOf (5 + dcmNumLines)), .operate,
        .addRq (.readForBoth 5)] (.cold .baselineCascadeLake 0)).map fun s =>
      (s.dcm.log.any fun ev => match ev with
        | .retired e _ =>
            !e.isWriteReq && !e.isHit && !(s.dcm.log.contains (.answered .far e))
        | _ => false) &&
      decide (s.dcm.dispatches .far 3 = 1 ∧ s.dcm.advances .far 3 = 0 ∧ s.dcm.waits .far 3 = 0 ∧
        accepted s.dcm.log
          = [(true, .readOf 5), (false, .readOf (5 + dcmNumLines)), (false, .readForBoth 5)] ∧
        delivered s.dcm.log
          = [.readOf (5 + dcmNumLines), .readForBoth 5, .readForBoth 5])) = some true := by
    decide +kernel
  obtain ⟨s, hs, hcheck⟩ := Option.map_eq_some_iff.mp hcheck
  obtain ⟨hmiss, hfacts⟩ := Bool.and_eq_true_iff.mp hcheck
  have hfetched : ¬ Fetched s.dcm := by
    intro hf
    obtain ⟨ev, hev, hmiss⟩ := List.any_eq_true.mp hmiss
    cases ev with
    | retired e cycle =>
        obtain ⟨pre, post, hlog⟩ := List.append_of_mem hev
        simp only [Bool.and_eq_true, Bool.not_eq_true', List.contains_eq_mem,
          decide_eq_false_iff_not] at hmiss
        refine hmiss.2 ?_
        rw [hlog]
        exact List.mem_append_left _ (hf pre e cycle post hlog hmiss.1.1 hmiss.1.2)
    | _ => cases hmiss
  refine ⟨s, hs, Worklist.drive_reaches ?_ .refl hs, fun h => hfetched h.fetched, hfetched,
    of_decide_eq_true hfacts⟩
  simp [Op.Roi, Op.Nonzero, Op.FromCaches, Op.request?, Packet.readOf, Packet.readForBoth,
    Packet.SingleFlag, dcmNumLines]

end Run

end DramCache
