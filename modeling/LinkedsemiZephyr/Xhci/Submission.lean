import Mathlib.Algebra.Group.Nat.Defs
import LinkedsemiZephyr.Xhci.Calls
import LinkedsemiZephyr.Xhci.ProducerRing

/-! What the functions of `xhci.c` put on the rings, one call after another, and what a
controller makes of it at each doorbell. -/
namespace LinkedsemiZephyr.Xhci

def trbTrNoop : UInt32 := 8

/-! Fields of a control word. -/

theorem shiftLeft_and_eq_zero {k m : UInt32} (x : UInt32) (hk : k.toNat < 32)
    (hm : m.toNat < 2 ^ k.toNat) :
    x <<< k &&& m = 0 := by
  apply UInt32.toNat_inj.mp
  rw [UInt32.toNat_and, UInt32.toNat_shiftLeft, Nat.mod_eq_of_lt hk]
  apply Nat.eq_of_testBit_eq
  intro i
  rw [Nat.testBit_and, Nat.testBit_mod_two_pow, Nat.testBit_shiftLeft]
  by_cases hi : k.toNat ≤ i
  · have hhigh : m.toNat.testBit i = false :=
      Nat.testBit_lt_two_pow (Nat.lt_of_lt_of_le hm (Nat.pow_le_pow_right (by decide) hi))
    rw [hhigh, Bool.and_false]
    exact (Nat.zero_testBit i).symm
  · rw [decide_eq_false hi, Bool.false_and, Bool.and_false, Bool.false_and]
    exact (Nat.zero_testBit i).symm

/-- The type and cycle fields lie below the slot id. -/
theorem slotIdForTrb_and {m : UInt32} (slot : UInt32) (hm : m.toNat < 2 ^ 24) :
    slotIdForTrb slot &&& m = 0 :=
  shiftLeft_and_eq_zero _ (by decide) hm

theorem epIdForTrb_and {m : UInt32} (ep : UInt32) (hm : m.toNat < 2 ^ 16) :
    epIdForTrb ep &&& m = 0 :=
  shiftLeft_and_eq_zero _ (by decide) hm

theorem trbToSlotId_slotIdForTrb {slot : UInt32} (h : slot.toNat < 256) :
    trbToSlotId (slotIdForTrb slot) = slot := by
  have hall : ∀ n : Fin 256, trbToSlotId (slotIdForTrb (UInt32.ofNat n)) = UInt32.ofNat n := by
    decide +kernel
  have hslot := hall ⟨slot.toNat, h⟩
  rwa [UInt32.ofNat_toNat] at hslot

theorem trbToSlotId_or (a b : UInt32) :
    trbToSlotId (a ||| b) = trbToSlotId a ||| trbToSlotId b := by
  have hshift : ∀ x y : UInt32, (x ||| y) >>> 24 = x >>> 24 ||| y >>> 24 := by
    intro x y
    apply UInt32.toNat_inj.mp
    simp only [UInt32.toNat_shiftRight, UInt32.toNat_or, Nat.shiftRight_or_distrib]
  rw [trbToSlotId, BitMask.or_and, hshift]
  rfl

theorem trbToSlotId_epIdForTrb (ep : UInt32) : trbToSlotId (epIdForTrb ep) = 0 := by
  have hall : ∀ n : Fin 32, trbToSlotId (UInt32.ofNat n <<< 16) = 0 := by decide +kernel
  have hlt : ((ep + 1) &&& 0x1f).toNat < 32 := by
    rw [UInt32.toNat_and]
    exact Nat.lt_of_le_of_lt Nat.and_le_right (by decide)
  have hep := hall ⟨((ep + 1) &&& 0x1f).toNat, hlt⟩
  rwa [UInt32.ofNat_toNat] at hep

/-- A TRB a function builds for the cycle bit of its ring, with the type the function is
for and the slot id that type carries, if it carries one. -/
structure Build where
  type : UInt32
  slot : Option UInt32
  build : UInt32 → XhciTrb

def Command.build (rings : Rings) (c : Command) : Build :=
  match c with
  | .enableSlot => ⟨trbEnableSlot, none, fun cycleBit => c.trb rings cycleBit⟩
  | .disableSlot slot => ⟨trbDisableSlot, some slot, fun cycleBit => c.trb rings cycleBit⟩
  | .noop => ⟨trbCmdNoop, none, fun cycleBit => c.trb rings cycleBit⟩
  | .addressDevice slot _ _ => ⟨trbAddrDev, some slot, fun cycleBit => c.trb rings cycleBit⟩
  | .addEndpoint slot _ => ⟨trbConfigEp, some slot, fun cycleBit => c.trb rings cycleBit⟩
  | .resetDevice slot => ⟨trbResetDev, some slot, fun cycleBit => c.trb rings cycleBit⟩
  | .resetStallEndpoint slot _ => ⟨trbResetEp, some slot, fun cycleBit => c.trb rings cycleBit⟩
  | .setDeqEndpoint slot _ => ⟨trbSetDeq, some slot, fun cycleBit => c.trb rings cycleBit⟩

def Call.builds (rings : Rings) : Call → List Build
  | .command c => [c.build rings]
  | .control _ _ req data length =>
    if HasData data length then
      [⟨trbSetup, none, setupTrb req data length⟩, ⟨trbData, none, dataTrb req data length⟩,
        ⟨trbStatus, none, statusTrb req data length⟩]
    else [⟨trbSetup, none, setupTrb req data length⟩, ⟨trbStatus, none, statusTrb req data length⟩]
  | .bulk _ ep data length => [⟨trbNormal, none, normalTrb ep data length⟩]

theorem Call.builds_trbs (rings : Rings) (c : Call) :
    (c.builds rings).map Build.build = c.trbs rings := by
  cases c with
  | command c => cases c <;> rfl
  | control slot ep req data length =>
      simp only [builds, trbs]
      split <;> rfl
  | bulk slot ep data length => rfl

def Call.InRange : Call → Prop
  | .command (.disableSlot slot) | .command (.addressDevice slot _ _)
  | .command (.addEndpoint slot _)
  | .command (.resetDevice slot) | .command (.resetStallEndpoint slot _)
  | .command (.setDeqEndpoint slot _) =>
    slot.toNat < 256
  | _ => True

instance (c : Call) : Decidable c.InRange := by
  unfold Call.InRange
  split <;> infer_instance

def trTrbNoop (cycleBit : UInt32) : XhciTrb :=
  ⟨0, 0, trbType trbTrNoop ||| (1 : UInt32) <<< 5 ||| cycleBit⟩

/-- A call into `xhci.c`. `ringInit` is the `xhci_ring_init` of an endpoint's ring in
`xhci_alloc_device` and `xhci_cmd_add_endpoint`, at `trb` units of `XHCI_ALIGN`. -/
inductive DriverCall where
  | call (c : Call) (inRange : c.InRange)
  | xferNoop (slot : UInt32) (ep : UInt8) (bidir : Bool)
  | ringInit (slot epIndex : UInt32) (trb : Nat)

def DriverCall.xferInterrupt (slot : UInt32) (ep : UInt8) (data : Nat) (length : UInt32) :
    DriverCall :=
  .call (.bulk slot ep data length) trivial

namespace DriverCall

def key : DriverCall → RingKey
  | .call c _ => c.key
  | .xferNoop slot ep bidir => .endpoint slot (if bidir then controlEpIndex ep else otherEpIndex ep)
  | .ringInit slot epIndex _ => .endpoint slot epIndex

def builds (rings : Rings) : DriverCall → List Build
  | .call c _ => c.builds rings
  | .xferNoop _ _ _ => [⟨trbTrNoop, none, trTrbNoop⟩]
  | .ringInit _ _ _ => []

def ResetsDevice : DriverCall → Prop
  | .call (.command (.resetDevice _)) _ => True
  | _ => False

instance (c : DriverCall) : Decidable c.ResetsDevice := by
  unfold ResetsDevice
  split <;> infer_instance

end DriverCall

/-- An enqueued TRB: how it was built, and the cycle bit of the ring by then. -/
structure Entry where
  build : Build
  trb : XhciTrb
  cycleBit : UInt32

structure Entry.WellFormed (e : Entry) : Prop where
  type : e.trb.type = trbType e.build.type
  slot : ∀ slot ∈ e.build.slot, trbToSlotId e.trb.control = slot
  cycle : e.trb.cycle = e.cycleBit

namespace Sys

def enqueueTrb (s : Sys) (t : XhciTrb) : Sys :=
  let (ring, mem) := xhciEnqueueTrb s.ring s.mem t
  { s with ring, mem, log := s.log ++ [t] }

/-- `xhci_enqueue_trb` of a TRB just built. -/
def push (s : Sys) (b : Build) : Sys := s.enqueueTrb (b.build s.ring.cycleBit)

/-- The doorbell: the controller looks on until nothing new can be left. -/
def doorbell (s : Sys) : Sys := s.run (List.replicate (2 * s.ring.numTrb) .fetch)

def pushAll (s : Sys) : List Build → List Entry × Sys
  | [] => ([], s)
  | b :: bs =>
    let (entries, s') := (s.push b).pushAll bs
    (⟨b, b.build s.ring.cycleBit, s.ring.cycleBit⟩ :: entries, s')

end Sys

abbrev Bus := RingKey → Sys

namespace Bus

def xhciAlign : Nat := 64

def initRing (key : RingKey) (trb : Nat) : Sys :=
  .init (xhciAlign * trb) xhciRingTrbMaxNum (if key = .command then .commandRing else .ctrlRing)

/-- The endpoint rings are taken as set up, those of every slot id a command can name, also of the
slots from `XHCI_SLOT_MAX` on, which lie outside `xhci->device`. -/
def init (trbs : RingKey → Nat) : Bus := fun key => initRing key (trbs key)

def rings (b : Bus) : Rings := fun key => ((b key).ring, (b key).mem)

/-- A Set TR Dequeue Pointer command moves the controller of its endpoint. -/
def complete (b : Bus) : DriverCall → Bus
  | .call (.command (.setDeqEndpoint slot epIndex)) _ =>
    Function.update b (.endpoint slot epIndex) ((b (.endpoint slot epIndex)).step .reposition)
  | _ => b

/-- One call, up to the completion it waits for. -/
def step (b : Bus) (c : DriverCall) : List Entry × Bus :=
  match c with
  | .ringInit slot epIndex trb =>
    ([], Function.update b (.endpoint slot epIndex) (initRing (.endpoint slot epIndex) trb))
  | c =>
    let (entries, s) := (b c.key).pushAll (c.builds b.rings)
    (entries, complete (Function.update b c.key s.doorbell) c)

def run : Bus → List DriverCall → List Entry × Bus
  | b, [] => ([], b)
  | b, c :: cs =>
    let (entries, b) := b.step c
    let (rest, b) := run b cs
    (entries ++ rest, b)

end Bus

section Control
variable (slot ep : UInt32)

theorem slotIdForTrb_cycle : slotIdForTrb slot &&& trbCycle = 0 := slotIdForTrb_and slot (by decide)
theorem slotIdForTrb_type : slotIdForTrb slot &&& trbTypeBitmask = 0 :=
  slotIdForTrb_and slot (by decide)
theorem epIdForTrb_cycle : epIdForTrb ep &&& trbCycle = 0 := epIdForTrb_and ep (by decide)
theorem epIdForTrb_type : epIdForTrb ep &&& trbTypeBitmask = 0 := epIdForTrb_and ep (by decide)

end Control

namespace Build

/-- The cycle bit goes into a control word that has the type, and the slot id if it needs
one, and nothing in the place of the bit. -/
def Formed (b : Build) : Prop :=
  ∃ r : Request, (∀ cycleBit, b.build cycleBit = r.trb cycleBit) ∧
    r.control &&& trbTypeBitmask = trbType b.type ∧ ∀ slot ∈ b.slot, slot.toNat < 256 →
    trbToSlotId r.control = slot

def InRange (b : Build) : Prop := ∀ slot ∈ b.slot, slot.toNat < 256

theorem formed_of {type : UInt32} {slot : Option UInt32} {build : UInt32 → XhciTrb}
    {paramater : Nat} {status control : UInt32}
    (hbuild : ∀ cycleBit, build cycleBit = ⟨paramater, status, control ||| cycleBit⟩)
    (hcycle : control &&& trbCycle = 0) (htype : control &&& trbTypeBitmask = trbType type)
    (hlink : trbType type ≠ trbType trbLink)
    (hslot : ∀ n ∈ slot, n.toNat < 256 → trbToSlotId control = n) :
    Build.Formed ⟨type, slot, build⟩ :=
  ⟨⟨⟨paramater, status, control, hcycle⟩, htype ▸ hlink⟩, hbuild, htype, hslot⟩

theorem Formed.wellFormed {b : Build} (h : b.Formed) (hrange : b.InRange) (m : Bool) :
    Entry.WellFormed ⟨b, b.build (bit m), bit m⟩ := by
  obtain ⟨r, hbuild, htype, hslot⟩ := h
  have hlow : trbToSlotId (bit m) = 0 := by cases m <;> decide
  refine ⟨?_, ?_, ?_⟩
  · rw [hbuild, Body.type_trb, htype]
  · intro slot hs
    rw [hbuild, Body.trb, trbToSlotId_or, hslot slot hs (hrange slot hs), hlow, UInt32.or_zero]
  · rw [hbuild, XhciTrb.cycle_eq, Body.marked_trb]

end Build

/-- The two commands about one endpoint. -/
theorem Build.formed_endpoint {type : UInt32} (slot epIndex : UInt32) {build : UInt32 → XhciTrb}
    {paramater : Nat}
    (hbuild : ∀ cycleBit, build cycleBit =
      ⟨paramater, 0, trbType type ||| slotIdForTrb slot ||| epIdForTrb epIndex ||| cycleBit⟩)
    (hcycle : trbType type &&& trbCycle = 0)
    (htype : trbType type &&& trbTypeBitmask = trbType type)
    (hlink : trbType type ≠ trbType trbLink) (hfree : trbToSlotId (trbType type) = 0) :
    Build.Formed ⟨type, some slot, build⟩ := by
  refine Build.formed_of hbuild ?_ ?_ hlink ?_
  · rw [BitMask.or_and, BitMask.or_and, slotIdForTrb_cycle, epIdForTrb_cycle, hcycle]
    decide
  · rw [BitMask.or_and, BitMask.or_and, slotIdForTrb_type, epIdForTrb_type, htype, UInt32.or_zero,
      UInt32.or_zero]
  · rintro _ ⟨⟩ hrange
    rw [trbToSlotId_or, trbToSlotId_or, trbToSlotId_slotIdForTrb hrange,
      trbToSlotId_epIdForTrb, hfree, UInt32.or_zero, UInt32.zero_or]

theorem Command.build_formed {c : Command} (rings : Rings)
    (hreset : ∀ slot, c ≠ .resetDevice slot) : (c.build rings).Formed := by
  cases c with
  | resetDevice slot => exact absurd rfl (hreset slot)
  | enableSlot => exact Build.formed_of (fun _ => rfl) (by decide) (by decide) (by decide) nofun
  | noop => exact Build.formed_of (fun _ => rfl) (by decide) (by decide) (by decide) nofun
  | disableSlot slot =>
      refine Build.formed_of (fun _ => rfl) ?_ ?_ (by decide) ?_
      · rw [BitMask.or_and, slotIdForTrb_cycle]
        decide
      · rw [BitMask.or_and, slotIdForTrb_type]
        decide
      · rintro _ ⟨⟩ hrange
        rw [trbToSlotId_or, trbToSlotId_slotIdForTrb hrange]
        exact UInt32.zero_or
  | addressDevice slot inputCtx bsr =>
      refine Build.formed_of (fun _ => rfl) ?_ ?_ (by decide) ?_
      · rw [BitMask.or_and, BitMask.or_and, slotIdForTrb_cycle]
        cases bsr <;> decide
      · rw [BitMask.or_and, BitMask.or_and, slotIdForTrb_type]
        cases bsr <;> decide
      · rintro _ ⟨⟩ hrange
        have hflags : trbToSlotId (trbType trbAddrDev ||| (if bsr then trbBsr else 0)) = 0 := by
          cases bsr <;> decide
        rw [UInt32.or_assoc, trbToSlotId_or, trbToSlotId_slotIdForTrb hrange, hflags,
          UInt32.or_zero]
  | addEndpoint slot inputCtx =>
      refine Build.formed_of (fun _ => rfl) ?_ ?_ (by decide) ?_
      · rw [BitMask.or_and, slotIdForTrb_cycle]
        decide
      · rw [BitMask.or_and, slotIdForTrb_type]
        decide
      · rintro _ ⟨⟩ hrange
        rw [trbToSlotId_or, trbToSlotId_slotIdForTrb hrange]
        exact UInt32.or_zero
  | resetStallEndpoint slot epIndex =>
      exact Build.formed_endpoint slot epIndex (fun _ => rfl) (by decide) (by decide)
        (by decide) (by decide)
  | setDeqEndpoint slot epIndex =>
      exact Build.formed_endpoint slot epIndex (fun _ => rfl) (by decide) (by decide)
        (by decide) (by decide)

theorem or_right_comm (a b c : UInt32) : a ||| b ||| c = a ||| c ||| b := by
  rw [UInt32.or_assoc, UInt32.or_comm b, ← UInt32.or_assoc]

section Transfers
variable (req : UsbSetupPacket) (ep : UInt8) (data : Nat) (length : UInt32)

/-! The flags of a transfer TRB are set after its cycle bit. -/

theorem setupTrb_eq (cycleBit : UInt32) :
    setupTrb req data length cycleBit = { setupTrb req data length 0 with
      control := trbType trbSetup ||| trbIdt |||
        (if HasData data length then trbTrt (if req.isIn then trbDataIn else trbDataOut) else 0) |||
          cycleBit } := by
  rw [or_right_comm]
  rfl

theorem dataTrb_eq (cycleBit : UInt32) :
    dataTrb req data length cycleBit = { dataTrb req data length 0 with
      control :=
        trbType trbData ||| (if req.isIn then trbIsp ||| trbDirIn else 0) ||| cycleBit } := by
  rw [or_right_comm]
  rfl

theorem statusTrb_eq (cycleBit : UInt32) :
    statusTrb req data length cycleBit = { statusTrb req data length 0 with
      control := trbType trbStatus ||| trbIoc |||
        (if ¬ HasData data length ∨ ¬ req.isIn then trbDirIn else 0) ||| cycleBit } := by
  rw [or_right_comm, or_right_comm (trbType trbStatus)]
  rfl

theorem normalTrb_eq (cycleBit : UInt32) :
    normalTrb ep data length cycleBit = { normalTrb ep data length 0 with
      control := trbIoc ||| trbType trbNormal ||| (if ep &&& 0x80 ≠ 0 then trbIsp else 0) |||
        cycleBit } := by
  rw [or_right_comm]
  rfl

theorem setupTrb_formed : Build.Formed ⟨trbSetup, none, setupTrb req data length⟩ := by
  refine Build.formed_of (setupTrb_eq req data length) ?_ ?_ (by decide) nofun
  · split_ifs <;> decide
  · split_ifs <;> decide

theorem dataTrb_formed : Build.Formed ⟨trbData, none, dataTrb req data length⟩ := by
  refine Build.formed_of (dataTrb_eq req data length) ?_ ?_ (by decide) nofun
  · split_ifs <;> decide
  · split_ifs <;> decide

theorem statusTrb_formed : Build.Formed ⟨trbStatus, none, statusTrb req data length⟩ := by
  refine Build.formed_of (statusTrb_eq req data length) ?_ ?_ (by decide) nofun
  · split_ifs <;> decide
  · split_ifs <;> decide

theorem normalTrb_formed : Build.Formed ⟨trbNormal, none, normalTrb ep data length⟩ := by
  refine Build.formed_of (normalTrb_eq ep data length) ?_ ?_ (by decide) nofun
  · split_ifs <;> decide
  · split_ifs <;> decide

end Transfers

theorem Command.build_inRange {c : Command} (rings : Rings) (hrange : (Call.command c).InRange) :
    (c.build rings).InRange := by
  cases c with
  | enableSlot => nofun
  | noop => nofun
  | disableSlot slot => rintro _ ⟨⟩; exact hrange
  | addressDevice slot inputCtx bsr => rintro _ ⟨⟩; exact hrange
  | addEndpoint slot inputCtx => rintro _ ⟨⟩; exact hrange
  | resetDevice slot => rintro _ ⟨⟩; exact hrange
  | resetStallEndpoint slot epIndex => rintro _ ⟨⟩; exact hrange
  | setDeqEndpoint slot epIndex => rintro _ ⟨⟩; exact hrange

/-- Every function but one builds what it is for. -/
theorem DriverCall.builds_formed {c : DriverCall} (rings : Rings) (hreset : ¬ c.ResetsDevice) :
    ∀ b ∈ c.builds rings, b.Formed ∧ b.InRange := by
  cases c with
  | ringInit slot epIndex trb => exact fun b hb => absurd hb List.not_mem_nil
  | xferNoop slot ep bidir =>
      intro b hb
      rw [List.mem_singleton.mp hb]
      exact ⟨Build.formed_of (fun _ => rfl) (by decide) (by decide) (by decide) nofun, nofun⟩
  | call c hrange =>
      cases c with
      | command c =>
          intro b hb
          rw [List.mem_singleton.mp hb]
          refine ⟨c.build_formed rings fun slot heq => ?_, c.build_inRange rings hrange⟩
          subst heq
          exact hreset trivial
      | bulk slot ep data length =>
          intro b hb
          rw [List.mem_singleton.mp hb]
          exact ⟨normalTrb_formed ep data length, nofun⟩
      | control slot ep req data length =>
          intro b hb
          simp only [builds, Call.builds] at hb
          split at hb
          · simp only [List.mem_cons, List.not_mem_nil, or_false] at hb
            rcases hb with rfl | rfl | rfl
            · exact ⟨setupTrb_formed req data length, nofun⟩
            · exact ⟨dataTrb_formed req data length, nofun⟩
            · exact ⟨statusTrb_formed req data length, nofun⟩
          · simp only [List.mem_cons, List.not_mem_nil, or_false] at hb
            rcases hb with rfl | rfl
            · exact ⟨setupTrb_formed req data length, nofun⟩
            · exact ⟨statusTrb_formed req data length, nofun⟩

theorem DriverCall.length_builds (rings : Rings) (c : DriverCall) :
    (c.builds rings).length ≤ 3 := by
  cases c with
  | ringInit slot epIndex trb => exact Nat.zero_le 3
  | xferNoop slot ep bidir => exact Nat.le_of_ble_eq_true rfl
  | call c hrange =>
      cases c with
      | command c => exact Nat.le_of_ble_eq_true rfl
      | bulk slot ep data length => exact Nat.le_of_ble_eq_true rfl
      | control slot ep req data length =>
          simp only [builds, Call.builds]
          split <;> exact Nat.le_of_ble_eq_true rfl

namespace Sys
variable {base M n : Nat} {s : Sys}

theorem Inv.cycleBit (h : Inv base M s) : ∃ m, s.ring.cycleBit = bit m := by
  cases h.writer with
  | settled _ cycle => exact ⟨_, cycle⟩
  | turning _ _ cycle => exact ⟨_, cycle⟩

/-- With two slots to spare the next TRB may be stored wherever the controller is. -/
theorem Inv.allowed (h : Inv base M s) (hs : s.Settled) (hn : s.unconsumed + 1 < M) (r : Request) :
    s.Allowed (.enqueue r) := by
  have hle := h.taken_le
  have hback : s.unconsumed = s.log.length - (s.start + s.taken.length) := by
    rw [unconsumed, length_enqueued, Nat.sub_sub]
  refine ⟨⟨hs, by rw [h.numTrb]; omega⟩, ?_⟩
  rintro ⟨hlast, hdeq⟩
  rw [h.numTrb] at hlast
  rw [AtLink, XhciRing.trbAt, h.trb, h.numTrb, Nat.add_sub_cancel] at hdeq
  cases h.reader with
  | inRing deq _ =>
      have hslot := Nat.mod_lt (s.start + s.taken.length) (show 0 < M by omega)
      omega
  | atLink _ wraps _ _ =>
      cases h.writer with
      | turning windex _ _ => omega
      | settled windex _ =>
          rw [show s.log.length = s.start + s.taken.length + s.unconsumed by omega,
            Nat.add_mod, wraps,
            Nat.zero_add, Nat.mod_mod, Nat.mod_eq_of_lt (by omega)] at windex
          omega

theorem settled_wrap (htype : s.ring.type ≠ .eventRing) (hnum : 2 ≤ s.ring.numTrb) :
    (s.step .wrap).Settled := by
  by_cases hend : s.ring.writeIndex = s.ring.numTrb - 1
  · have hturn : (s.step .wrap).ring =
      { s.ring with cycleBit := s.ring.cycleBit ^^^ 1, writeIndex := 0 } := by
      rw [step, wrapLink, if_pos ⟨htype, hend⟩]
    rw [Settled, hturn]
    change 0 ≠ s.ring.numTrb - 1
    omega
  · have hstay : (s.step .wrap).ring = s.ring := by
      rw [step, wrapLink, if_neg fun h => hend h.2]
    rw [Settled, hstay]
    exact hend

theorem enqueueTrb_eq (s : Sys) (r : Request) :
    s.enqueueTrb (r.trb s.ring.cycleBit) = (s.step (.enqueue r)).step .wrap := rfl

/-- No call is under way, and `n` TRBs at most wait for the doorbell. -/
structure Behind (base n : Nat) (s : Sys) : Prop where
  inv : Inv base 31 s
  settled : s.Settled
  unconsumed : s.unconsumed ≤ n

theorem Behind.enqueueTrb (h : Behind base n s) (hn : n + 1 < 31) (r : Request) :
    Behind base (n + 1) (s.enqueueTrb (r.trb s.ring.cycleBit)) := by
  have hle := h.unconsumed
  have henq := h.inv.enqueue (by decide) (h.inv.allowed h.settled (by omega) r)
  rw [enqueueTrb_eq]
  refine ⟨henq.wrap (by decide), settled_wrap henq.type (by rw [henq.numTrb]; decide), ?_⟩
  change ((s.log ++ [_]).drop s.start).length - s.taken.length ≤ n + 1
  rw [Sys.unconsumed, length_enqueued] at hle
  rw [List.length_drop, List.length_append, List.length_singleton]
  omega

theorem Behind.push (h : Behind base n s) (hn : n + 1 < 31) {b : Build} (hb : b.Formed) :
    Behind base (n + 1) (s.push b) := by
  obtain ⟨r, hbuild, -⟩ := hb
  rw [Sys.push, hbuild]
  exact h.enqueueTrb hn r

theorem Behind.pushAll {bs : List Build} (h : Behind base n s) (hn : n + bs.length < 31)
    (hbs : ∀ b ∈ bs, b.Formed ∧ b.InRange) :
    (∀ e ∈ (s.pushAll bs).1, e.WellFormed) ∧ Behind base (n + bs.length) (s.pushAll bs).2 := by
  induction bs generalizing n s with
  | nil => exact ⟨fun e he => absurd he List.not_mem_nil, h⟩
  | cons b bs ih =>
      obtain ⟨hb, hrange⟩ := hbs b List.mem_cons_self
      rw [List.length_cons] at hn
      obtain ⟨hentries, hrest⟩ := ih (h.push (by omega) hb) (by omega)
        fun b' hb' => hbs b' (List.mem_cons_of_mem b hb')
      refine ⟨fun e he => ?_, ?_⟩
      · obtain ⟨m, hm⟩ := h.inv.cycleBit
        rcases List.mem_cons.mp he with rfl | he
        · rw [hm]
          exact hb.wellFormed hrange m
        · exact hentries e he
      · rw [List.length_cons, Nat.add_comm bs.length, ← Nat.add_assoc]
        exact hrest

theorem Inv.fetches (h : Inv base M s) (hM : 0 < M) (k : Nat) :
    Inv base M (s.run (List.replicate k .fetch)) := by
  induction k generalizing s with
  | zero => exact h
  | succ k ih => exact ih (h.fetch hM)

theorem fetches_frame (s : Sys) (k : Nat) :
    (s.run (List.replicate k .fetch)).ring = s.ring ∧ (s.run (List.replicate k .fetch)).enqueued =
      s.enqueued := by
  induction k generalizing s with
  | zero => exact ⟨rfl, rfl⟩
  | succ k ih => exact ih (s.step .fetch)

theorem Behind.fetch (h : Behind base n s) : Behind base n (s.step .fetch) :=
  ⟨h.inv.fetch (by decide), h.settled, Nat.le_trans (unconsumed_fetch_le s) h.unconsumed⟩

/-- The doorbell leaves nothing. -/
theorem Behind.doorbell (h : Behind base n s) (hn : n ≤ 32) : Behind base 0 s.doorbell := by
  have hframe := s.fetches_frame (2 * s.ring.numTrb)
  have hdrain : s.doorbell.taken = s.enqueued :=
    h.inv.drain (by decide) (Nat.le_trans h.unconsumed (by rw [h.inv.numTrb]; exact hn))
  refine ⟨h.inv.fetches (by decide) _, ?_, ?_⟩
  · rw [Settled, Sys.doorbell, hframe.1]
    exact h.settled
  · have hnone : s.doorbell.unconsumed = 0 := by
      rw [Sys.unconsumed, hdrain, Sys.doorbell, hframe.2, Nat.sub_self]
    exact Nat.le_of_eq hnone

theorem Behind.reposition (h : Behind base n s) (halign : base % 16 = 0) :
    Behind base 0 (s.step .reposition) := by
  refine ⟨h.inv.reposition halign (by decide) h.settled, h.settled, ?_⟩
  have hnone : (s.log.drop s.log.length).length = 0 := by
    rw [List.drop_length, List.length_nil]
  exact Nat.le_of_eq hnone

end Sys

namespace Bus
open Sys

theorem base_aligned (trb : Nat) : xhciAlign * trb % 16 = 0 := by
  rw [xhciAlign]
  omega

theorem initRing_behind (key : RingKey) (trb : Nat) :
    Behind (xhciAlign * trb) 0 (initRing key trb) := by
  refine ⟨inv_init (base_aligned trb) ?_, ?_, Nat.le_refl 0⟩
  · split <;> decide
  · change 0 ≠ 31
    decide

/-- Every ring is between two calls with nothing left on it. -/
def Idle (b : Bus) : Prop := ∀ key, ∃ trb, Behind (xhciAlign * trb) 0 (b key)

variable {b : Bus}

theorem idle_init (trbs : RingKey → Nat) : Idle (init trbs) :=
  fun key => ⟨trbs key, initRing_behind key (trbs key)⟩

theorem Idle.update (h : Idle b) (key : RingKey) {s : Sys}
    (hs : ∃ trb, Behind (xhciAlign * trb) 0 s) :
    Idle (Function.update b key s) := by
  intro k
  by_cases hk : k = key
  · subst hk
    rw [Function.update_self]
    exact hs
  · rw [Function.update_of_ne hk]
    exact h k

theorem Idle.complete (h : Idle b) (c : DriverCall) : Idle (b.complete c) := by
  unfold Bus.complete
  split
  · obtain ⟨trb, hb⟩ := h _
    exact h.update _ ⟨trb, hb.reposition (base_aligned trb)⟩
  · exact h

theorem Idle.consumed (h : Idle b) (key : RingKey) : (b key).taken = (b key).enqueued := by
  obtain ⟨trb, hb⟩ := h key
  exact hb.inv.taken_of_unconsumed (Nat.le_zero.mp hb.unconsumed)

/-- What one call keeps. -/
theorem Idle.step (h : Idle b) {c : DriverCall} (hreset : ¬ c.ResetsDevice) :
    (∀ e ∈ (b.step c).1, e.WellFormed) ∧ Idle (b.step c).2 := by
  have hformed := DriverCall.builds_formed b.rings hreset
  have hlen := DriverCall.length_builds b.rings c
  obtain ⟨trb, hring⟩ := h c.key
  obtain ⟨hentries, hpushed⟩ := hring.pushAll (by omega) hformed
  have hidle := (h.update c.key ⟨trb, hpushed.doorbell (by omega)⟩).complete c
  cases c with
  | ringInit slot epIndex trb =>
      exact ⟨fun e he => absurd he List.not_mem_nil, h.update _ ⟨trb, initRing_behind _ trb⟩⟩
  | call c hrange => exact ⟨hentries, hidle⟩
  | xferNoop slot ep bidir => exact ⟨hentries, hidle⟩

/-- What a sequence of calls keeps. -/
theorem Idle.run (h : Idle b) {calls : List DriverCall} (hreset : ∀ c ∈ calls, ¬ c.ResetsDevice) :
    (∀ e ∈ (b.run calls).1, e.WellFormed) ∧ Idle (b.run calls).2 := by
  induction calls generalizing b with
  | nil => exact ⟨fun e he => absurd he List.not_mem_nil, h⟩
  | cons c cs ih =>
      obtain ⟨hentries, hnext⟩ := h.step (hreset c List.mem_cons_self)
      obtain ⟨hrest, hlast⟩ := ih hnext fun c' hc' => hreset c' (List.mem_cons_of_mem c hc')
      refine ⟨fun e he => ?_, hlast⟩
      rcases List.mem_append.mp he with he | he
      · exact hentries e he
      · exact hrest e he

/-- `xhci_cmd_reset_device` leaves the control word empty. -/
theorem step_resetsDevice {c : DriverCall} (hreset : c.ResetsDevice) :
    ∃ e ∈ (b.step c).1, ¬ e.WellFormed := by
  unfold DriverCall.ResetsDevice at hreset
  split at hreset
  · refine ⟨_, List.mem_singleton_self _, fun h => absurd h.type ?_⟩
    change (0 : UInt32) &&& trbTypeBitmask ≠ trbType trbResetDev
    decide
  · exact hreset.elim

theorem run_resetsDevice {calls : List DriverCall} {c : DriverCall} (hc : c ∈ calls)
    (hreset : c.ResetsDevice) :
    ∃ e ∈ (b.run calls).1, ¬ e.WellFormed := by
  induction calls generalizing b with
  | nil => cases hc
  | cons c' cs ih =>
      rcases List.mem_cons.mp hc with rfl | hc
      · obtain ⟨e, he, hbad⟩ := step_resetsDevice (b := b) hreset
        exact ⟨e, List.mem_append_left _ he, hbad⟩
      · obtain ⟨e, he, hbad⟩ := ih hc
        exact ⟨e, List.mem_append_right _ he, hbad⟩

/-- Each TRB enqueued is what its function is for, under the cycle bit of its ring, and
each doorbell has it consumed. -/
def Submits (trbs : RingKey → Nat) (calls : List DriverCall) : Prop :=
  ∀ n, (∀ e ∈ ((init trbs).run (calls.take n)).1, e.WellFormed) ∧
    ∀ key, (((init trbs).run (calls.take n)).2 key).taken =
      (((init trbs).run (calls.take n)).2 key).enqueued

/-- The calls keep that exactly when none is `xhci_cmd_reset_device`. -/
theorem submits_iff (trbs : RingKey → Nat) (calls : List DriverCall) :
    Submits trbs calls ↔ ∀ c ∈ calls, ¬ c.ResetsDevice := by
  refine ⟨fun h c hc hreset => ?_, fun h n => ?_⟩
  · obtain ⟨e, he, hbad⟩ := run_resetsDevice (b := init trbs) hc hreset
    have hall := (h calls.length).1
    rw [List.take_length] at hall
    exact hbad (hall e he)
  · obtain ⟨hentries, hidle⟩ := (idle_init trbs).run fun c hc => h c (List.mem_of_mem_take hc)
    exact ⟨hentries, hidle.consumed⟩

/-- On a fresh command ring the TRB of `xhci_cmd_reset_device(1)` has the other cycle bit:
the controller leaves it, and `xhci_command_submit` waits. -/
theorem resetDevice_waits : ¬ ∀ trbs calls, Submits trbs calls := by
  intro h
  have hone := (h (fun _ => 1) [.call (.command (.resetDevice 1)) (by decide)] 1).2 .command
  exact absurd hone (by decide +kernel)

end Bus

end LinkedsemiZephyr.Xhci
