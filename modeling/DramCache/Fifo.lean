import DramCache.Llc
import DramCache.Ring

/-!
# `PACKET_QUEUE` as a queue

`add_queue`, `remove_queue` of the head entry and `check_queue` of
`src/block.cc`, on a queue of any size and any name. The queue named `L1D_WQ`
is searched by `full_addr`, every other one by `address`. What the entries
from `head` on amount to is a list (`queue_refines_fifo`).
-/

namespace DramCache

namespace CacheQueue

/-! ## The functions -/

/-- What `check_queue` compares. -/
def key (name : String) (pkt : CachePacket) : Nat :=
  if name = "L1D_WQ" then pkt.fullAddr else pkt.address

/-- `check_queue` of the queue with this `NAME`; `none` is -1. -/
def checkNamed (name : String) (q : CacheQueue) (pkt : CachePacket) : Option Nat :=
  if q.head = q.tail ∧ q.occupancy = 0 then none
  else q.scanned.find? fun i => key name (q.entryAt i) == key name pkt

/-- `add_queue`; `none` is its failing sanity check. -/
def addQueue (q : CacheQueue) (pkt : CachePacket) : Option CacheQueue :=
  if q.occupancy ≠ 0 ∧ q.head = q.tail then none
  else some
    { q with
      entry := q.entry.set q.tail pkt
      occupancy := q.occupancy + 1
      tail := if q.tail + 1 ≥ q.size then 0 else q.tail + 1 }

end CacheQueue

/-- What a user of the queue does; only the head entry is removed. -/
inductive QueueOp where
  | addQueue (pkt : CachePacket)
  | removeQueue
deriving Repr, DecidableEq

namespace QueueOp

def exec (q : CacheQueue) : QueueOp → Option CacheQueue
  | .addQueue pkt => q.addQueue pkt
  | .removeQueue => q.removeQueue q.head

/-- The same on a list: nothing is added to a full queue, and nothing removed
from an empty one. -/
def fifo (size : Nat) : List CachePacket → QueueOp → Option (List CachePacket)
  | xs, .addQueue pkt => if xs.length < size then some (xs ++ [pkt]) else none
  | _ :: xs, .removeQueue => some xs
  | [], .removeQueue => none

end QueueOp

namespace CacheQueue

/-! ## The list a queue holds -/

structure Fifo (q : CacheQueue) (xs : List CachePacket) : Prop where
  ring : Ring.Holds q.size q.head q.tail q.entry {} xs
  occupancy : q.occupancy = xs.length

variable {q q' : CacheQueue} {xs xs' : List CachePacket}

theorem new_fifo {size : Nat} (hsize : 0 < size) : (new size).Fifo [] :=
  ⟨Ring.holds_nil hsize, rfl⟩

/-- Head and tail meet when the queue is full and when it is empty. -/
theorem Fifo.head_eq_tail (h : q.Fifo xs) :
    q.head = q.tail ↔ xs = [] ∨ xs.length = q.size := by
  have hhead := h.ring.head_lt
  have hbound := h.ring.bound
  rw [h.ring.tail_eq, Ring.cell_eq hhead hbound, ← List.length_eq_zero_iff]
  split <;> omega

theorem Fifo.addQueue (h : q.Fifo xs) {pkt : CachePacket} (hroom : xs.length < q.size) :
    ∃ q', q.addQueue pkt = some q' ∧ q'.Fifo (xs ++ [pkt]) ∧ q'.size = q.size := by
  have hok : ¬ (q.occupancy ≠ 0 ∧ q.head = q.tail) := by
    rintro ⟨hocc, heq⟩
    rw [h.occupancy] at hocc
    rcases h.head_eq_tail.mp heq with rfl | hfull
    · exact hocc rfl
    · omega
  rw [CacheQueue.addQueue, if_neg hok]
  refine ⟨_, rfl, ⟨h.ring.push hroom, ?_⟩, rfl⟩
  rw [List.length_append, List.length_singleton]
  exact congrArg (· + 1) h.occupancy

theorem Fifo.removeQueue {pkt : CachePacket} (h : q.Fifo (pkt :: xs)) :
    ∃ q', q.removeQueue q.head = some q' ∧ q'.Fifo xs ∧ q'.size = q.size := by
  have hocc : q.occupancy = xs.length + 1 := h.occupancy
  rw [CacheQueue.removeQueue, if_neg (by omega)]
  refine ⟨_, rfl, ⟨h.ring.pop, ?_⟩, rfl⟩
  change dec32 q.occupancy = xs.length
  rw [dec32, if_neg (by omega), hocc, Nat.add_sub_cancel]

/-- One operation. -/
theorem Fifo.exec (h : q.Fifo xs) {op : QueueOp} (hop : QueueOp.fifo q.size xs op = some xs') :
    ∃ q', QueueOp.exec q op = some q' ∧ q'.Fifo xs' ∧ q'.size = q.size := by
  cases op with
  | addQueue pkt =>
      rw [QueueOp.fifo] at hop
      split at hop
      · rename_i hroom
        obtain rfl := Option.some.inj hop
        exact h.addQueue hroom
      · cases hop
  | removeQueue =>
      cases xs with
      | nil => cases hop
      | cons pkt xs =>
          obtain rfl := Option.some.inj hop
          exact h.removeQueue

/-- A sequence of operations. -/
theorem Fifo.run {size : Nat} (h : q.Fifo xs) (hsize : q.size = size) {ops : List QueueOp}
    (hops : ops.foldlM (QueueOp.fifo size) xs = some xs') :
    ∃ q', ops.foldlM QueueOp.exec q = some q' ∧ q'.Fifo xs' ∧ q'.size = size := by
  induction ops generalizing q xs with
  | nil =>
      obtain rfl := Option.some.inj hops
      exact ⟨q, rfl, h, hsize⟩
  | cons op ops ih =>
      rw [List.foldlM_cons] at hops
      obtain ⟨xs₁, hop, hops⟩ := Option.bind_eq_some_iff.mp hops
      obtain ⟨q₁, hq₁, h₁, hsize₁⟩ := h.exec (hsize ▸ hop)
      obtain ⟨q', hq', h', hsize'⟩ := ih h₁ (hsize₁.trans hsize) hops
      refine ⟨q', ?_, h', hsize'⟩
      rw [List.foldlM_cons, hq₁]
      exact hq'

/-! ## Searching it -/

section Check

variable {name : String} {pkt : CachePacket}

theorem Fifo.entryAt (h : q.Fifo xs) (i : Nat) (e : CachePacket) (hi : xs[i]? = some e) :
    q.entryAt (Ring.cell q.size q.head i) = e := by
  rw [CacheQueue.entryAt, h.ring.live i (List.getElem?_eq_some_iff.mp hi).1, hi]
  rfl

theorem Fifo.checkNamed_none (h : q.Fifo xs) :
    q.checkNamed name pkt = none ↔ ∀ e ∈ xs, key name e ≠ key name pkt := by
  rw [checkNamed]
  split
  · rename_i hempty
    have hnil : xs = [] := List.length_eq_zero_iff.mp (h.occupancy ▸ hempty.2)
    simp [hnil]
  · rename_i hne
    have hxs : xs ≠ [] := fun hnil => hne ⟨h.head_eq_tail.mpr (.inl hnil), by
      rw [h.occupancy, hnil]
      rfl⟩
    refine (h.ring.find_scan_none (q := fun e => key name e == key name pkt) hxs
      fun i e hi => ?_).trans ?_
    · rw [h.entryAt i e hi]
    · simp

theorem Fifo.checkNamed_some (h : q.Fifo xs) (j : Nat) :
    q.checkNamed name pkt = some j ↔ ∃ i e, xs[i]? = some e ∧ Ring.cell q.size q.head i = j ∧
      key name e = key name pkt ∧
      ∀ i' < i, ∀ e', xs[i']? = some e' → key name e' ≠ key name pkt := by
  rw [checkNamed]
  split
  · rename_i hempty
    have hnil : xs = [] := List.length_eq_zero_iff.mp (h.occupancy ▸ hempty.2)
    simp [hnil]
  · rename_i hne
    have hxs : xs ≠ [] := fun hnil => hne ⟨h.head_eq_tail.mpr (.inl hnil), by
      rw [h.occupancy, hnil]
      rfl⟩
    refine (h.ring.find_scan (q := fun e => key name e == key name pkt) hxs
      (fun i e hi => ?_) j).trans ?_
    · rw [h.entryAt i e hi]
    · simp

end Check

end CacheQueue

/-- **A `PACKET_QUEUE` is a queue.** However packets are added, never to a full
queue, and the head entry is removed, no sanity check fails, the live slots are
the `occupancy` many from `head` on, in the order in which the packets came,
every other slot is empty, and `check_queue` finds the oldest live packet with
the same key, or nothing when there is none. -/
theorem queue_refines_fifo {size : Nat} (hsize : 1 ≤ size) {ops : List QueueOp}
    {xs : List CachePacket} (hops : ops.foldlM (QueueOp.fifo size) [] = some xs) :
    ∃ q, ops.foldlM QueueOp.exec (.new size) = some q ∧ q.size = size ∧
      q.occupancy = xs.length ∧ xs.length ≤ size ∧
      (∀ i < xs.length, q.entry[(q.head + i) % size]? = xs[i]?) ∧
      (∀ j < size, (∀ i < xs.length, (q.head + i) % size ≠ j) → q.entryAt j = {}) ∧
      ∀ name pkt,
        (q.checkNamed name pkt = none ↔
          ∀ e ∈ xs, CacheQueue.key name e ≠ CacheQueue.key name pkt) ∧
        ∀ j, q.checkNamed name pkt = some j ↔
          ∃ i e, xs[i]? = some e ∧ (q.head + i) % size = j ∧
            CacheQueue.key name e = CacheQueue.key name pkt ∧
            ∀ i' < i, ∀ e', xs[i']? = some e' →
              CacheQueue.key name e' ≠ CacheQueue.key name pkt := by
  obtain ⟨q, hq, h, rfl⟩ := (CacheQueue.new_fifo hsize).run rfl hops
  refine ⟨q, hq, rfl, h.occupancy, h.ring.bound, h.ring.live, fun j hj hdead => ?_,
    fun name pkt => ⟨h.checkNamed_none, h.checkNamed_some⟩⟩
  obtain ⟨i, hi, hij⟩ := Ring.exists_cell h.ring.head_lt hj
  have hlen : xs.length ≤ i := not_lt.mp fun hlt => hdead i hlt hij
  rw [← hij, CacheQueue.entryAt, h.ring.dead i hi hlen]
  rfl

/-- Three packets through a queue of two, which is full and has wrapped. -/
theorem queue_refines_fifo_wrapped :
    ∃ q, [QueueOp.addQueue { address := 5 }, .addQueue { address := 6 }, .removeQueue,
        .addQueue { address := 6, instrId := 1 }].foldlM QueueOp.exec (.new 2) = some q ∧
      q.head = 1 ∧ q.occupancy = 2 ∧ q.checkNamed "L1D_RQ" { address := 6 } = some 1 ∧
      q.checkNamed "L1D_RQ" { address := 5 } = none := by
  obtain ⟨q, hq, -, hocc, -, -, -, hcheck⟩ := @queue_refines_fifo 2 (by decide)
    [.addQueue { address := 5 }, .addQueue { address := 6 }, .removeQueue,
      .addQueue { address := 6, instrId := 1 }]
    [{ address := 6 }, { address := 6, instrId := 1 }] (by decide)
  have hhead : q.head = 1 := by
    have h := congrArg (Option.map CacheQueue.head) hq
    exact Option.some.inj (h.symm.trans (by decide))
  refine ⟨q, hq, hhead, hocc, ((hcheck _ _).2 1).mpr ⟨0, _, rfl, ?_, by decide, by omega⟩,
    (hcheck _ _).1.mpr (by decide)⟩
  rw [hhead]

end DramCache
