import LinkedsemiZephyr.Lib.LapRing
import LinkedsemiZephyr.Lib.BitMask

/-! Transfer request blocks and the rings of `xhci.c`: `xhci_ring_init`, `xhci_enqueue_trb`
and the cycle bit that controller and driver tell new entries by. -/
namespace LinkedsemiZephyr.Xhci

structure XhciTrb where
  paramater : Nat
  status : UInt32
  control : UInt32
  deriving DecidableEq, Repr

def trbTypeBitmask : UInt32 := 0xfc00
def trbCycle : UInt32 := 1
def linkToggle : UInt32 := 2

def trbType (p : UInt32) : UInt32 := p <<< 10

def trbLink : UInt32 := 6
def trbTransfer : UInt32 := 32
def trbCompletion : UInt32 := 33
def trbPortStatus : UInt32 := 34

def XhciTrb.cycle (t : XhciTrb) : UInt32 := t.control &&& trbCycle
def XhciTrb.type (t : XhciTrb) : UInt32 := t.control &&& trbTypeBitmask

inductive RingType where
  | eventRing | commandRing | ctrlRing | bulkRing | intrRing
  deriving DecidableEq, Repr

/-- `struct xhci_ring`; `trb` is an address, the entries there are kept apart. -/
structure XhciRing where
  trb : Nat
  numTrb : Nat
  type : RingType
  writeIndex : Nat
  readIndex : Nat
  cycleBit : UInt32
  deriving DecidableEq, Repr

/-- `ring->trb + i`. -/
def XhciRing.trbAt (ring : XhciRing) (i : Nat) : Nat := ring.trb + 16 * i

def xhciRingInit (trb numTrb : Nat) (type : RingType) : XhciRing × List XhciTrb :=
  let mem := List.replicate numTrb ⟨0, 0, 0⟩
  let ring := { cycleBit := 1, trb, numTrb, readIndex := 0, writeIndex := 0, type }
  (ring, if type ≠ .eventRing then mem.set (numTrb - 1)
    ⟨trb, 0, trbType trbLink ||| linkToggle⟩ else mem)

/-- `xhci_enqueue_trb` up to the cache flush. -/
def storeTrb (ring : XhciRing) (mem : List XhciTrb) (trb : XhciTrb) : XhciRing × List XhciTrb :=
  ({ ring with writeIndex := ring.writeIndex + 1 }, mem.set ring.writeIndex trb)

/-- The rest of `xhci_enqueue_trb`: the Link TRB goes to the other cycle, and so does the ring. -/
def wrapLink (ring : XhciRing) (mem : List XhciTrb) : XhciRing × List XhciTrb :=
  if ring.type ≠ .eventRing ∧ ring.writeIndex = ring.numTrb - 1 then
    ({ ring with cycleBit := ring.cycleBit ^^^ 1, writeIndex := 0 },
      mem.modify ring.writeIndex fun t => { t with control := t.control ^^^ trbCycle })
  else (ring, mem)

def xhciEnqueueTrb (ring : XhciRing) (mem : List XhciTrb) (trb : XhciTrb) :
    XhciRing × List XhciTrb :=
  let (ring, mem) := storeTrb ring mem trb
  wrapLink ring mem

/-- `(size_t)(ring->trb + ring->write_index) | ring->cycle_bit`, the dequeue pointer that
`xhci_set_deq_endpoint` and `xhci_cmd_address_device` hand to the controller. -/
def XhciRing.deq (ring : XhciRing) : Nat := ring.trbAt ring.writeIndex ||| ring.cycleBit.toNat

/-! Cycle bits. -/

def bit (b : Bool) : UInt32 := if b then 1 else 0

theorem bit_injective {a b : Bool} (h : bit a = bit b) : a = b := by
  revert h
  cases a <;> cases b <;> decide

@[simp] theorem bit_xor_one (b : Bool) : bit b ^^^ 1 = bit !b := by cases b <;> rfl

@[simp] theorem bit_toNat (b : Bool) : (bit b).toNat = b.toNat := by cases b <;> rfl

def XhciTrb.marked (t : XhciTrb) : Bool := t.cycle == 1

theorem and_trbCycle (c : UInt32) : c &&& trbCycle = bit (c &&& trbCycle == 1) := by
  have h : (c &&& trbCycle).toNat < 2 := by
    rw [UInt32.toNat_and]
    exact Nat.lt_of_le_of_lt Nat.and_le_right (by decide)
  have hcases : c &&& trbCycle = 0 ∨ c &&& trbCycle = 1 := by
    rcases (by omega : (c &&& trbCycle).toNat = 0 ∨ (c &&& trbCycle).toNat = 1) with h0 | h1
    · exact .inl (UInt32.toNat_inj.mp h0)
    · exact .inr (UInt32.toNat_inj.mp h1)
  rcases hcases with h | h <;> rw [h] <;> rfl

theorem XhciTrb.cycle_eq (t : XhciTrb) : t.cycle = bit t.marked := and_trbCycle t.control

/-- A TRB before its cycle bit is put in. -/
structure Body where
  paramater : Nat
  status : UInt32
  control : UInt32
  noCycle : control &&& trbCycle = 0

/-- `control | ring->cycle_bit`. -/
def Body.trb (b : Body) (cycleBit : UInt32) : XhciTrb :=
  ⟨b.paramater, b.status, b.control ||| cycleBit⟩

theorem Body.marked_trb (b : Body) (m : Bool) : (b.trb (bit m)).marked = m := by
  have h : (b.control ||| bit m) &&& trbCycle = bit m := by
    rw [BitMask.or_and, b.noCycle]
    cases m <;> decide
  rw [XhciTrb.marked, XhciTrb.cycle, Body.trb, h]
  cases m <;> rfl

theorem Body.type_trb (b : Body) (m : Bool) :
    (b.trb (bit m)).type = b.control &&& trbTypeBitmask := by
  have hbit : bit m &&& trbTypeBitmask = 0 := by cases m <;> decide
  rw [XhciTrb.type, Body.trb, BitMask.or_and, hbit, UInt32.or_zero]

/-- What the driver enqueues is no Link TRB. -/
structure Request extends Body where
  notLink : control &&& trbTypeBitmask ≠ trbType trbLink

theorem Request.type_trb (r : Request) (m : Bool) : (r.trb (bit m)).type ≠ trbType trbLink := by
  rw [Body.type_trb]
  exact r.notLink

/-! Addresses: a ring starts on a multiple of 16, so the low four bits are free. -/

theorem or_low {a b : Nat} (ha : a % 16 = 0) (hb : b < 16) : a ||| b = a + b := by
  obtain ⟨k, rfl⟩ := Nat.dvd_of_mod_eq_zero ha
  exact (Nat.two_pow_add_eq_or_of_lt (i := 4) hb k).symm

theorem XhciRing.trbAt_mod {ring : XhciRing} (h : ring.trb % 16 = 0) (i : Nat) :
    ring.trbAt i % 16 = 0 := by
  simp only [XhciRing.trbAt]
  omega

end LinkedsemiZephyr.Xhci
