import Mathlib.Data.List.Basic

/-!
# Packets and packet queues

The `PACKET` and `PACKET_QUEUE` of `inc/block.h`, as far as the memory
controllers and the DRAM cache manager use them, and the configuration
constants of `inc/champsim.h` they depend on.

`PACKET::scheduled` is written by the controller that holds the packet in
one of its queues and by nobody else, so it is a field of the queue's
`Slot` here: a packet offered from outside has no say in it. A slot whose
address is 0 is empty, as everywhere in the source.
-/

namespace DramCache

/-! ## Constants and machine arithmetic -/

def uint64Max : Nat := 18446744073709551615

def uint32Max : Nat := 4294967295

def numCpus : Nat := 1

/-- `x - y` on `uint64_t`. -/
def sub64 (x y : Nat) : Nat := if y ≤ x then x - y else x + (uint64Max + 1) - y

/-- `x--` on `uint32_t`. -/
def dec32 (x : Nat) : Nat := if x = 0 then uint32Max else x - 1

/-- `current_core_cycle[]`. The last cycle number is `UINT64_MAX`, which
the source uses as "never", so no clock shows it. -/
structure Clock where
  cycle : Nat → Nat
  cycle_lt : ∀ cpu, cycle cpu < uint64Max

/-! ## Packets -/

/-- `LOAD`, `RFO`, `PREFETCH`, `WRITEBACK`. -/
inductive AccessType where
  | load
  | rfo
  | prefetch
  | writeback
deriving Repr, DecidableEq

/-- The fields of `PACKET` that the modelled code reads or that tell two
packets apart; `instrId` stands for the payload nobody here looks at. -/
structure Packet where
  instruction : Bool := false
  isData : Bool := true
  type : AccessType := .load
  cpu : Nat := numCpus
  address : Nat := 0
  fullAddr : Nat := 0
  instrId : Nat := 0
  eventCycle : Nat := uint64Max
deriving Repr, DecidableEq

/-- A read packet asks for exactly one of the two upper-level ports. -/
def Packet.SingleFlag (p : Packet) : Prop := p.instruction ≠ p.isData

instance (p : Packet) : Decidable p.SingleFlag := inferInstanceAs (Decidable (_ ≠ _))

/-- A data read of a line. -/
def Packet.readOf (address : Nat) : Packet := { address := address, cpu := 0 }

/-- All clocks at 0. -/
def Clock.zero : Clock := { cycle := fun _ => 0, cycle_lt := fun _ => by decide }

/-- All clocks at one cycle. -/
def Clock.at (n : Nat) (h : n < uint64Max) : Clock := { cycle := fun _ => n, cycle_lt := fun _ => h }

/-- One element of a controller queue's `entry[]`. -/
structure Slot where
  pkt : Packet := {}
  scheduled : Bool := false
deriving Repr, DecidableEq

/-- `PACKET empty_packet`. -/
def Slot.empty : Slot := {}

@[simp] theorem Slot.empty_address : Slot.empty.pkt.address = 0 := rfl

@[simp] theorem Slot.empty_scheduled : Slot.empty.scheduled = false := rfl

/-! ## Packet queues -/

/-- `PACKET_QUEUE`, the part a memory controller uses. -/
structure PacketQueue where
  size : Nat
  head : Nat := 0
  tail : Nat := 0
  occupancy : Nat := 0
  nextScheduleIndex : Nat := 0
  nextProcessIndex : Nat := 0
  nextScheduleCycle : Nat := uint64Max
  nextProcessCycle : Nat := uint64Max
  access : Nat := 0
  forward : Nat := 0
  rowBufferHit : Nat := 0
  rowBufferMiss : Nat := 0
  full : Nat := 0
  entry : List Slot
deriving Repr, DecidableEq

namespace PacketQueue

/-- `PACKET_QUEUE()` followed by the controller's `SIZE` and `entry`. -/
def new (size : Nat) : PacketQueue :=
  { size := size, entry := List.replicate size Slot.empty }

/-- The slot at an index, an empty one beyond the array. -/
def slotAt (q : PacketQueue) (i : Nat) : Slot := (q.entry[i]?).getD Slot.empty

def setSlot (q : PacketQueue) (i : Nat) (sl : Slot) : PacketQueue :=
  { q with entry := q.entry.set i sl }

/-- The line addresses slot by slot, 0 where a slot is empty. -/
def lines (q : PacketQueue) : List Nat := q.entry.map fun sl => sl.pkt.address

/-- `remove_queue(&entry[i])`; `none` is its failing sanity check. -/
def removeQueue (q : PacketQueue) (i : Nat) : Option PacketQueue :=
  if q.occupancy = 0 ∧ q.head = q.tail then none
  else some
    { q with
      entry := q.entry.set i Slot.empty
      occupancy := dec32 q.occupancy
      head := if q.head + 1 ≥ q.size then 0 else q.head + 1 }

/-- The running minimum of the controller's scans: the smallest
`event_cycle` below the bound carried so far, the first slot on ties. -/
def scanMin (sel : Slot → Bool) : List Slot → Nat → Nat × Nat → Nat × Nat
  | [], _, best => best
  | sl :: rest, i, best =>
      scanMin sel rest (i + 1)
        (if sel sl && decide (sl.pkt.eventCycle < best.1) then (sl.pkt.eventCycle, i) else best)

/-- The minimum over a whole queue: `(UINT64_MAX, SIZE)` when no selected
slot lies below `UINT64_MAX`. -/
def minSlot (q : PacketQueue) (sel : Slot → Bool) : Nat × Nat :=
  scanMin sel q.entry 0 (uint64Max, q.size)

/-- `update_schedule_cycle`. -/
def updateScheduleCycle (q : PacketQueue) : PacketQueue :=
  let best := q.minSlot fun sl => decide (sl.pkt.address ≠ 0) && !sl.scheduled
  { q with nextScheduleCycle := best.1, nextScheduleIndex := best.2 }

/-- `update_process_cycle`. -/
def updateProcessCycle (q : PacketQueue) : PacketQueue :=
  let best := q.minSlot fun sl => sl.scheduled
  { q with nextProcessCycle := best.1, nextProcessIndex := best.2 }

/-- `check_dram_queue`: the first slot with the packet's address. -/
def checkDramQueue (q : PacketQueue) (pkt : Packet) : Option Nat :=
  q.entry.findIdx? fun sl => sl.pkt.address == pkt.address

/-- The loop "search for the empty index" of `add_rq` and `add_wq`. -/
def emptyIndex (q : PacketQueue) : Option Nat :=
  q.entry.findIdx? fun sl => sl.pkt.address == 0

/-- `entry[index] = *packet; occupancy++`, then `update_schedule_cycle`;
with no empty slot the loop falls through and nothing is stored. -/
def insert (q : PacketQueue) (pkt : Packet) : PacketQueue :=
  match q.emptyIndex with
  | some i =>
      updateScheduleCycle
        { q with entry := q.entry.set i { pkt := pkt }, occupancy := q.occupancy + 1 }
  | none => q.updateScheduleCycle

end PacketQueue

end DramCache
