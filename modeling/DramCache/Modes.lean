import DramCache.Orb

/-!
# Runs in every mode

Before the end of warm-up and in bypass mode an operation stays aside: it
touches neither the ORB nor the CRB nor WB, and the calls it leaves only
pass packets on. So what the front end's steps keep, every run of the
component keeps from its construction on, whatever is switched when.
-/

namespace DramCache

open Worklist (ReachesIf Reaches)

/-- Events of the warm-up and of bypass mode. -/
def Event.isAside : Event → Bool
  | .warmed .. | .upcall .warmup .. | .handFar none .. => true
  | _ => false

/-- An operation of the warm-up or of bypass mode, or one that enters or
leaves bypass mode. -/
structure Aside (m m' : Manager) : Prop where
  orb : m'.orb = m.orb
  crb : m'.crb = m.crb
  wb : m'.wb = m.wb
  responses : m'.pendingResponses = m.pendingResponses
  nextRequestId : m'.nextRequestId = m.nextRequestId
  stats : ∃ reads writes updates, m'.stats =
    { m.stats with bypassReads := reads, bypassWrites := writes, warmupTagUpdates := updates }
  log : ∃ evs, m'.log = m.log ++ evs ∧ ∀ ev ∈ evs, ev.isAside

theorem Aside.trans {m₁ m₂ m₃ : Manager} (h₁ : Aside m₁ m₂) (h₂ : Aside m₂ m₃) :
    Aside m₁ m₃ where
  orb := h₂.orb.trans h₁.orb
  crb := h₂.crb.trans h₁.crb
  wb := h₂.wb.trans h₁.wb
  responses := h₂.responses.trans h₁.responses
  nextRequestId := h₂.nextRequestId.trans h₁.nextRequestId
  stats := by
    obtain ⟨_, _, _, hs₁⟩ := h₁.stats
    obtain ⟨r, w, u, hs₂⟩ := h₂.stats
    exact ⟨r, w, u, by rw [hs₂, hs₁]⟩
  log := by
    obtain ⟨evs₁, hl₁, he₁⟩ := h₁.log
    obtain ⟨evs₂, hl₂, he₂⟩ := h₂.log
    refine ⟨evs₁ ++ evs₂, by rw [hl₂, hl₁, List.append_assoc], fun ev hev => ?_⟩
    exact (List.mem_append.mp hev).elim (he₁ ev) (he₂ ev)

theorem Aside.refl (m : Manager) : Aside m m :=
  ⟨rfl, rfl, rfl, rfl, rfl, ⟨_, _, _, rfl⟩, [], (List.append_nil _).symm,
    fun _ h => (List.not_mem_nil h).elim⟩

theorem Aside.of_core {m m₁ m₂ : Manager} (h : Aside m m₁.core) (hc : m₂.core = m₁.core) :
    Aside m m₂.core := hc ▸ h

/-! ## The three ways to stay aside -/

theorem warmupTagUpdate_aside (m : Manager) (pkt : Packet) (w : Bool) :
    Aside m.core (m.warmupTagUpdate pkt w).core where
  orb := rfl
  crb := rfl
  wb := rfl
  responses := rfl
  nextRequestId := rfl
  stats := ⟨_, _, _, rfl⟩
  log := ⟨[.warmed w pkt], rfl, by simp [Event.isAside]⟩

theorem callUpper_aside (m : Manager) (pkt : Packet) (now : Nat) :
    Aside m.core (m.callUpper .warmup pkt now).core where
  orb := rfl
  crb := rfl
  wb := rfl
  responses := rfl
  nextRequestId := rfl
  stats := ⟨_, _, _, rfl⟩
  log := ⟨Manager.upcalls .warmup pkt now, rfl, fun ev hev => by
    obtain ⟨port, rfl⟩ := Manager.mem_upcalls hev
    rfl⟩

namespace Sys

theorem bypassed_aside {s s' : Sys} {pkt : Packet} {w : Bool} (h : Aside s.dcm.core s'.dcm.core) :
    Aside s.dcm.core (s'.dispatchToFarGuaranteed pkt w).1.dcm.core ∧
      ∀ k ∈ (s'.dispatchToFarGuaranteed pkt w).2, k.bystander :=
  ⟨h.of_core (dispatchToFarGuaranteed_core ..), fun _ => dispatchToFarGuaranteed_bystander⟩

/-- **Entering an operation in any mode.** -/
theorem enter_open (s : Sys) (op : Op) :
    FrontEnter s.dcm.core op (s.enter op).1.dcm.core (s.enter op).2 ∨
    Aside s.dcm.core (s.enter op).1.dcm.core ∧ ∀ k ∈ (s.enter op).2, k.bystander := by
  have hkeep : s.dcm.bypassDcache = true → s.dcm.core.bypassDcache = true := id
  cases op with
  | addRq pkt =>
      simp only [enter, addRq]
      split
      · right
        refine ⟨?_, fun k hk => (List.not_mem_nil hk).elim⟩
        split
        · exact (warmupTagUpdate_aside ..).trans (callUpper_aside ..)
        · exact callUpper_aside ..
      · split
        · exact .inr (bypassed_aside
            ⟨rfl, rfl, rfl, rfl, rfl, ⟨_, _, _, rfl⟩, _, rfl, by simp [Event.isAside]⟩)
        · exact .inl (admission_frontEnter rfl)
  | addWq pkt =>
      simp only [enter, addWq]
      split
      · right
        refine ⟨?_, fun k hk => (List.not_mem_nil hk).elim⟩
        split
        · exact warmupTagUpdate_aside ..
        · exact .refl _
      · split
        · exact .inr (bypassed_aside
            ⟨rfl, rfl, rfl, rfl, rfl, ⟨_, _, _, rfl⟩, _, rfl, by simp [Event.isAside]⟩)
        · exact .inl (admission_frontEnter rfl)
  | setBypassDcache b =>
      exact .inr ⟨⟨rfl, rfl, rfl, rfl, rfl, ⟨_, _, _, rfl⟩, [], (List.append_nil _).symm,
        fun _ h => (List.not_mem_nil h).elim⟩, fun k hk => (List.not_mem_nil hk).elim⟩
  | operate => exact .inl .operate
  | tick clk =>
      exact .inl (.configured rfl s.dcm.policy s.dcm.linkLatencyCycles
        s.dcm.frontendLatencyCycles s.dcm.backendLatencyCycles s.dcm.bypassDcache hkeep)
  | setPolicy pol =>
      exact .inl (.configured rfl pol s.dcm.linkLatencyCycles s.dcm.frontendLatencyCycles
        s.dcm.backendLatencyCycles s.dcm.bypassDcache hkeep)
  | setLinkLatency n =>
      exact .inl (.configured rfl s.dcm.policy n s.dcm.frontendLatencyCycles
        s.dcm.backendLatencyCycles s.dcm.bypassDcache hkeep)
  | setControllerLatency f b =>
      exact .inl (.configured rfl s.dcm.policy s.dcm.linkLatencyCycles f b
        s.dcm.bypassDcache hkeep)
  | finishWarmup =>
      exact .inl (.configured rfl s.dcm.policy s.dcm.linkLatencyCycles
        s.dcm.frontendLatencyCycles s.dcm.backendLatencyCycles s.dcm.bypassDcache hkeep)
  | resetROIStats => exact .inl .statsReset

end Sys

section Rule

variable {allow : Op → Prop} {ok : Worklist.Config Sys Call → Prop} {s₀ : Sys}
  {x : Worklist.Config Sys Call}

/-- **The invariant rule for every mode.** What the steps of the front end
keep and operations that stay aside keep holds throughout. -/
theorem open_invariant {P : List Call → Manager → Prop} (h0 : P [] s₀.dcm.core)
    (hEnter : ∀ op m m' ks, FrontEnter m op m' ks → P [] m → P ks m')
    (hAside : ∀ m m' ks, Aside m m' → (∀ k ∈ ks, k.bystander) → P [] m → P ks m')
    (hCall : ∀ c K m m' ks, FrontStep m c m' ks → P (c :: K) m → P (ks ++ K) m')
    (h : ReachesIf machine allow ok s₀ x) : P x.1 x.2.dcm.core := by
  refine ReachesIf.invariant (P := fun x => P x.1 x.2.dcm.core) h0 ?_ ?_ h
  · intro op s _ _ _ hp
    rcases s.enter_open op with hf | ⟨ha, hks⟩
    · exact hEnter op _ _ _ hf hp
    · exact hAside _ _ _ ha hks hp
  · intro c K s s' ks _ _ hp he
    exact hCall c K _ _ _ (Sys.exec_frontStep he) hp

end Rule

/-! ## The ORB and the CRB in every mode -/

theorem Aside.orbInv {m m' : Manager} {ks : List Call} (h : Aside m m')
    (hks : ∀ k ∈ ks, k.bystander) (hinv : OrbInv .calm m) :
    CalmTail ks ∧ OrbInv (Ctl.of ks) m' := by
  have hcalm : ∀ k ∈ ks, Ctl.ofCall k = .calm := fun k hk => Ctl.ofCall_bystander (hks k hk)
  refine ⟨fun k hk => hcalm k (List.mem_of_mem_tail hk), ?_⟩
  have hctl : Ctl.of ks = .calm := by
    cases ks with
    | nil => rfl
    | cons k ks => exact hcalm k (List.mem_cons_self ..)
  rw [hctl]
  exact hinv.congr h.orb h.crb h.nextRequestId

section Boot

variable {allow : Op → Prop} {ok : Worklist.Config Sys Call → Prop} {near far : MemoryController}
  {clk : Clock} {frontend backend : Nat} {x : Worklist.Config Sys Call}

theorem orbInv_of_boot
    (h : ReachesIf machine allow ok (.boot near far clk frontend backend) x) :
    CalmTail x.1 ∧ OrbInv (Ctl.of x.1) x.2.dcm.core := by
  refine open_invariant (P := fun K m => CalmTail K ∧ OrbInv (Ctl.of K) m)
    ⟨by simp [CalmTail], .empty rfl rfl⟩ ?_ ?_ ?_ h
  · rintro op m m' ks hf ⟨-, hinv⟩
    exact ⟨hf.calmTail, hinv.enter hf⟩
  · rintro m m' ks ha hks ⟨-, hinv⟩
    exact ha.orbInv hks hinv
  · rintro c K m m' ks hf ⟨hK, hinv⟩
    exact ⟨hf.calmTail hK, hinv.step hf hK⟩

end Boot

/-- **The ORB and the CRB represent what is outstanding.** An entry stands
under its own address, with that line's index and tag; an index has one
entry at most; whoever waits in the CRB waits for an entry of its index;
and neither buffer outgrows its size. -/
theorem orb_represents {near far : MemoryController} {clk : Clock} {frontend backend : Nat}
    {s : Sys} (h : Reaches machine (fun _ => True) (.boot near far clk frontend backend) ([], s)) :
    (∀ a e, s.dcm.orb.lookup a = some e → e.pkt.address = a ∧
      e.indexDC = a % dcmNumLines ∧ e.tagDC = a / dcmNumLines) ∧
    (∀ a b e f, s.dcm.orb.lookup a = some e → s.dcm.orb.lookup b = some f →
      e.indexDC = f.indexDC → a = b) ∧
    (∀ c ∈ s.dcm.crb, ∃ a e, s.dcm.orb.lookup a = some e ∧
      e.indexDC = returnIndexDC c.pkt.address) ∧
    s.dcm.orbSize ≤ dcmOrbMaxSize ∧ s.dcm.crb.length ≤ dcmCrbMaxSize := by
  have hinv : OrbInv .calm s.dcm.core := (orbInv_of_boot h).2
  refine ⟨fun a e hl => ?_, fun a b e f he hf hi => hinv.index he hf hi, fun c hc => ?_, ?_,
    hinv.crbSize⟩
  · have hok := hinv.entry hl
    exact ⟨hok.addr, hok.index, hok.tag⟩
  · rcases hinv.waits c hc with hw | hw
    · exact hw
    · cases hw
  · exact le_trans (Nat.le_add_right _ _) hinv.orbSize

/-- Two conflicting reads after a warm-up write, then bypass mode. -/
theorem orb_represents_two_reads :
    ∃ s, Worklist.drive machine 60
        [.addWq (.readOf 5), .finishWarmup, .addRq (.readOf 7), .addRq (.readOf (7 + dcmNumLines)),
          .setBypassDcache true, .addRq (.readOf 5)]
        (.boot (.new 0 0 0 0) (.new 0 0 0 0) .zero 0 0) = some s ∧
      s.dcm.orbSize = 1 ∧ s.dcm.crb.length = 1 ∧
      ∀ c ∈ s.dcm.crb, ∃ a e, s.dcm.orb.lookup a = some e ∧
        e.indexDC = returnIndexDC c.pkt.address := by
  obtain ⟨s, hs, hsize⟩ := Option.map_eq_some_iff.mp (show (Worklist.drive machine 60
    [.addWq (.readOf 5), .finishWarmup, .addRq (.readOf 7), .addRq (.readOf (7 + dcmNumLines)),
      .setBypassDcache true, .addRq (.readOf 5)]
    (.boot (.new 0 0 0 0) (.new 0 0 0 0) .zero 0 0)).map
      (fun s => (s.dcm.orbSize, s.dcm.crb.length)) = some (1, 1) from by decide +kernel)
  have hr : Reaches machine (fun _ => True) (.boot (.new 0 0 0 0) (.new 0 0 0 0) .zero 0 0)
      ([], s) := Worklist.drive_reaches (fun _ _ => trivial) .refl hs
  exact ⟨s, hs, (Prod.mk.inj hsize).1, (Prod.mk.inj hsize).2, (orb_represents hr).2.2.1⟩

end DramCache
