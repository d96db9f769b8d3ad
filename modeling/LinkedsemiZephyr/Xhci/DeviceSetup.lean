import LinkedsemiZephyr.Lib.GuardedRun
import LinkedsemiZephyr.Xhci.Init

/-! Setting up devices and endpoints: `xhci_alloc_device`, `xhci_cmd_address_device`,
`xhci_cmd_add_endpoint` and the shell command that calls the first two. -/
namespace LinkedsemiZephyr.Xhci
open GuardedRun

structure XhciSlotCtx where
  devInfo : UInt32 := 0
  devInfo2 : UInt32 := 0
  ttInfo : UInt32 := 0
  devState : UInt32 := 0

structure XhciEpCtx where
  epInfo0 : UInt32 := 0
  epInfo1 : UInt32 := 0
  deq : Nat := 0
  txInfo : UInt32 := 0

/-- `struct xhci_device_ctx`, what the controller writes. -/
structure XhciDeviceCtx where
  slotCtx : XhciSlotCtx := {}
  epCtx : Nat → XhciEpCtx := fun _ => {}

/-- `struct xhci_input_ctx`, what a command hands to the controller. -/
structure XhciInputCtx where
  dropFlags : UInt32 := 0
  addFlags : UInt32 := 0
  slotCtx : XhciSlotCtx := {}
  epCtx : Nat → XhciEpCtx := fun _ => {}

inductive XhciEpState where
  | disable | runing | halted | stopped | error
  deriving DecidableEq

/-- `struct xhci_ep`, with the entries of its ring. -/
structure XhciEp where
  epRing : XhciRing := ⟨0, 0, .eventRing, 0, 0, 0⟩
  trbs : List XhciTrb := []
  state : XhciEpState := .disable

/-- `struct xhci_device`, with the contents of its two contexts. -/
structure XhciDevice where
  slot : UInt32 := 0
  deviceCtx : Nat := 0
  inputCtx : Nat := 0
  output : XhciDeviceCtx := {}
  input : XhciInputCtx := {}
  ep : Nat → XhciEp := fun _ => {}
  speed : UInt32 := 0

inductive XhciEpType where
  | isoOut | bulkOut | intOut | controlBidir | isoIn | bulkIn | intIn
  deriving DecidableEq

def XhciEpType.code : XhciEpType → UInt32
  | .isoOut => 1
  | .bulkOut => 2
  | .intOut => 3
  | .controlBidir => 4
  | .isoIn => 5
  | .bulkIn => 6
  | .intIn => 7

structure XhciEpConfig where
  epType : XhciEpType
  epAddr : UInt8
  epInterval : UInt8
  epMps : UInt16

/-- `xhci_ep_2_index`, in the `uint8_t` both its callers keep it in. -/
def xhciEp2Index (ep : UInt8) (type : XhciEpType) : UInt8 :=
  if type = .controlBidir then (ep &&& 0xf) * 2 else (ep &&& 0xf) * 2 - if ep &&& 0x80 ≠ 0 then 0
  else 1

def slotCtxEntries (n : UInt32) : UInt32 := n <<< (27 : UInt32)
def slotCtxRootStr (n : UInt32) : UInt32 := n
def slotCtxSpeed (n : UInt32) : UInt32 := n <<< (20 : UInt32)
def slotCtxRoothubPortNum (n : UInt32) : UInt32 := n <<< (16 : UInt32)
def epCtxMaxPacket (n : UInt32) : UInt32 := n <<< (16 : UInt32)
def epCtxType (n : UInt32) : UInt32 := n <<< (3 : UInt32)
def epCtxErrCnt (n : UInt32) : UInt32 := (n &&& (0x3 : UInt32)) <<< (1 : UInt32)
def slotFlag : UInt32 := 1
def ep0Flag : UInt32 := 2
def xhciSlotMax : Nat := 16

/-- The two tables that are indexed by slot. -/
inductive SlotTable where
  | device
  | devCtxTab
  deriving DecidableEq

/-- One use of an index, as a C `int`. -/
structure Access where
  table : SlotTable
  index : Int
  write : Bool
  deriving DecidableEq

/-- The device tables of `struct xhci_hcd` after `xhci_init`, the blocks handed out by
`xhci_mem_alloc`, the slots enabled at the controller, and a record of the tables' uses. -/
structure XhciDevices where
  boot : Initialized
  device : Int → XhciDevice
  devCtxTab : Int → Nat
  blocks : List Nat := []
  enabled : List UInt32 := []
  accesses : List Access := []

/-- What one `xhci_alloc_device` meets: the completion of its Enable Slot command, and the
addresses of its three blocks, 0 for NULL. -/
structure AllocDeviceReply where
  enableSlot : XhciTrb
  outCtx : Nat
  inCtx : Nat
  ep0Trb : Nat

/-- What one `alloc_dev` meets: also PORTSC and the completion of Address Device. -/
structure AllocDevReply extends AllocDeviceReply where
  portsc : UInt32
  addressDevice : XhciTrb

structure AddEndpointReply where
  epTrb : Nat
  configEp : XhciTrb

/-- `GET_COMP_CODE(trb.status) == COMP_SUCCESS`. -/
def XhciTrb.Succeeded (evt : XhciTrb) : Prop := getCompCode evt.status = compSuccess

instance (evt : XhciTrb) : Decidable evt.Succeeded := inferInstanceAs (Decidable (_ = _))

def slotOf (evt : XhciTrb) : Int := if evt.Succeeded then (trbToSlotId evt.control).toNat else -1

def AllocDeviceReply.Allocated (r : AllocDeviceReply) : Prop :=
  r.outCtx ≠ 0 ∧ r.inCtx ≠ 0 ∧ r.ep0Trb ≠ 0

instance (r : AllocDeviceReply) : Decidable r.Allocated := inferInstanceAs (Decidable (_ ∧ _))

namespace XhciDevices

/-- The static `hcd` once `xhci_init` has filled it, over what stood in the table before. -/
def start (boot : Initialized) (tab : Int → Nat) : XhciDevices where
  boot := boot
  device := fun _ => {}
  devCtxTab := Function.update tab 0 boot.scratchpadTab.addr

def memAlloc (s : XhciDevices) (addr : Nat) : XhciDevices :=
  if addr = 0 then s else { s with blocks := addr :: s.blocks }

def memFree (s : XhciDevices) (addr : Nat) : XhciDevices := { s with blocks := s.blocks.erase addr }

def touch (s : XhciDevices) (table : SlotTable) (index : Int) (write : Bool) : XhciDevices :=
  { s with accesses := s.accesses ++ [⟨table, index, write⟩] }

def modifyDevice (s : XhciDevices) (slot : Int) (f : XhciDevice → XhciDevice) : XhciDevices :=
  { s.touch .device slot true with device := Function.update s.device slot (f (s.device slot)) }

/-- A write through a pointer that is read from the device. -/
def modifyThrough (s : XhciDevices) (slot : Int) (f : XhciDevice → XhciDevice) : XhciDevices :=
  { s.touch .device slot false with device := Function.update s.device slot (f (s.device slot)) }

def setDevCtxTab (s : XhciDevices) (slot : Int) (addr : Nat) : XhciDevices :=
  { s.touch .devCtxTab slot true with devCtxTab := Function.update s.devCtxTab slot addr }

/-- The controller copies the input slot context to the output slot context. -/
def takeSlotCtx (s : XhciDevices) (slot : Int) : XhciDevices :=
  let d := s.device slot
  { s with device := Function.update s.device slot { d with
    output := { d.output with slotCtx := d.input.slotCtx } } }

/-- `xhci_cmd_enable_slot`: the slot, or -1. -/
def xhciCmdEnableSlot (s : XhciDevices) (evt : XhciTrb) : XhciDevices × Int :=
  if evt.Succeeded then
    ({ s with enabled := trbToSlotId evt.control :: s.enabled }, (trbToSlotId evt.control).toNat)
  else (s, -1)

def xhciAllocDevice (s : XhciDevices) (r : AllocDeviceReply) : XhciDevices × Int :=
  let (s, slot) := s.xhciCmdEnableSlot r.enableSlot
  let s := ((s.memAlloc r.outCtx).memAlloc r.inCtx).memAlloc r.ep0Trb
  if r.outCtx = 0 ∨ r.inCtx = 0 ∨ r.ep0Trb = 0 then
    (((s.memFree r.outCtx).memFree r.inCtx).memFree r.ep0Trb, -1)
  else
    let (epRing, trbs) := xhciRingInit r.ep0Trb xhciRingTrbMaxNum .ctrlRing
    let s := s.modifyDevice slot fun d =>
      { d with
        deviceCtx := r.outCtx
        inputCtx := r.inCtx
        output := {}
        input := {}
        ep := fun i => if i = 0 then ⟨epRing, trbs, .disable⟩
          else if i < 31 then { d.ep i with state := .disable } else d.ep i
        slot := UInt32.ofInt slot }
    (s.setDevCtxTab slot r.outCtx, slot)

def xhciSetDevSpeed (s : XhciDevices) (slot : Int) (speed : UInt32) : XhciDevices :=
  s.modifyDevice slot fun d => { d with speed }

/-- The packet size of endpoint 0 before its descriptor is known. -/
def defaultMaxPacket (speed : UInt32) : UInt32 :=
  if speed = 2 then 8 else if speed = 1 ∨ speed = 3 then 64 else 0xffff

/-- `xhci_cmd_address_device`; `bsr` is `type == DEFAULT_TYPE`. On success the controller
takes the input slot context over. -/
def xhciCmdAddressDevice (s : XhciDevices) (slot : Int) (bsr : Bool) (evt : XhciTrb) :
    XhciDevices × Int :=
  let s := s.modifyThrough slot fun d =>
    let epRing := (d.ep 0).epRing
    { d with input := { d.input with
        addFlags := slotFlag ||| ep0Flag
        dropFlags := 0
        slotCtx := { d.input.slotCtx with
          devInfo := slotCtxEntries 1 ||| slotCtxRootStr 0 ||| slotCtxSpeed d.speed
          devInfo2 := slotCtxRoothubPortNum 1 }
        epCtx := Function.update d.input.epCtx 0
          (if bsr then
            { d.input.epCtx 0 with
              epInfo0 := 0
              epInfo1 := epCtxType XhciEpType.controlBidir.code |||
                epCtxMaxPacket (defaultMaxPacket d.speed) |||
                epCtxErrCnt 3
              deq := epRing.trb ||| epRing.cycleBit.toNat }
          else { d.input.epCtx 0 with deq := epRing.deq }) } }
  if evt.Succeeded then (s.takeSlotCtx slot, 0)
  else (s, -1)

/-- `alloc_dev` of `main.c`; the slot passes through a `uint8_t`. -/
def allocDev (s : XhciDevices) (r : AllocDevReply) : XhciDevices :=
  let (s, slot) := s.xhciAllocDevice r.toAllocDeviceReply
  let slotId : UInt8 := UInt8.ofInt slot
  let s := s.xhciSetDevSpeed slotId.toNat (r.portsc >>> (10 : UInt32) &&& (0xf : UInt32))
  (s.xhciCmdAddressDevice slotId.toNat true r.addressDevice).1

def xhciSlotCtxCopy (d : XhciDevice) : XhciDevice :=
  { d with input := { d.input with slotCtx := d.output.slotCtx } }

/-- `xhci_cmd_add_endpoint` up to the command: the contexts, and the endpoint's ring. -/
def prepareEndpoint (config : XhciEpConfig) (epTrb : Nat) (d : XhciDevice) : XhciDevice :=
  let epIndex := xhciEp2Index config.epAddr config.epType
  let d := xhciSlotCtxCopy d
  let (epRing, trbs) := xhciRingInit epTrb xhciRingTrbMaxNum .ctrlRing
  { d with
    input := { d.input with
      addFlags := slotFlag ||| (1 : UInt32) <<< (epIndex.toUInt32 + 1)
      dropFlags := 0
      slotCtx := { d.input.slotCtx with
        devInfo := (d.input.slotCtx.devInfo &&& ~~~slotCtxEntries 0x1f) |||
          slotCtxEntries (epIndex.toUInt32 + 1) }
      epCtx := Function.update d.input.epCtx epIndex.toNat
        { epInfo0 := config.epInterval.toUInt32 <<< (16 : UInt32)
          epInfo1 :=
            epCtxMaxPacket config.epMps.toUInt32 ||| epCtxType config.epType.code ||| epCtxErrCnt 3
          deq := epRing.trb ||| epRing.cycleBit.toNat
          txInfo := 0 } }
    ep := Function.update d.ep epIndex.toNat { d.ep epIndex.toNat with epRing, trbs } }

def runEndpoint (config : XhciEpConfig) (d : XhciDevice) : XhciDevice :=
  let epIndex := (xhciEp2Index config.epAddr config.epType).toNat
  { d with ep := Function.update d.ep epIndex { d.ep epIndex with state := .runing } }

def Running (s : XhciDevices) (slot : Int) (epIndex : Nat) : Prop :=
  ((s.device slot).ep epIndex).state = .runing

instance (s : XhciDevices) (slot : Int) (epIndex : Nat) : Decidable (s.Running slot epIndex) :=
  inferInstanceAs (Decidable (_ = _))

/-- The state in which `xhci_cmd_add_endpoint` submits its command. -/
def submitEndpoint (s : XhciDevices) (slot : Int) (config : XhciEpConfig) (epTrb : Nat) :
    XhciDevices :=
  (s.memAlloc epTrb).modifyDevice slot (prepareEndpoint config epTrb)

/-- `xhci_cmd_add_endpoint`; `none` where it clears a ring at NULL. -/
def xhciCmdAddEndpoint (s : XhciDevices) (slot : Int) (config : XhciEpConfig)
    (r : AddEndpointReply) :
    Option (XhciDevices × Int) :=
  if (s.memAlloc r.epTrb).Running slot (xhciEp2Index config.epAddr config.epType).toNat then
    some ((s.memAlloc r.epTrb).touch .device slot false, -2)
  else if r.epTrb = 0 then none
  else
    let s := s.submitEndpoint slot config r.epTrb
    if r.configEp.Succeeded then
      some ((s.takeSlotCtx slot).modifyDevice slot (runEndpoint config), 0)
    else some (s, -1)

theorem xhciCmdEnableSlot_eq (s : XhciDevices) (evt : XhciTrb) :
    s.xhciCmdEnableSlot evt =
      ({ s with
        enabled := if evt.Succeeded then trbToSlotId evt.control :: s.enabled else s.enabled },
        slotOf evt) := by
  rw [xhciCmdEnableSlot, slotOf]
  split <;> rfl

theorem memAlloc_eq (s : XhciDevices) (addr : Nat) :
    s.memAlloc addr = { s with blocks := if addr = 0 then s.blocks else addr :: s.blocks } := by
  rw [memAlloc]
  split <;> rfl

/-- Without its blocks the function has done nothing but enable the slot. -/
theorem xhciAllocDevice_failed (s : XhciDevices) {r : AllocDeviceReply} (h : ¬ r.Allocated) :
    ∃ blocks, s.xhciAllocDevice r = ({ (s.xhciCmdEnableSlot r.enableSlot).1 with blocks }, -1) := by
  have hnull : r.outCtx = 0 ∨ r.inCtx = 0 ∨ r.ep0Trb = 0 := by
    simp only [AllocDeviceReply.Allocated] at h
    omega
  simp only [xhciAllocDevice, if_pos hnull, memAlloc_eq]
  exact ⟨_, rfl⟩

theorem xhciAllocDevice_allocated (s : XhciDevices) {r : AllocDeviceReply} (h : r.Allocated) :
    (s.xhciAllocDevice r).2 = slotOf r.enableSlot ∧ (s.xhciAllocDevice r).1.accesses = s.accesses ++
      [⟨.device, slotOf r.enableSlot, true⟩, ⟨.devCtxTab, slotOf r.enableSlot, true⟩] := by
  have hnull : ¬ (r.outCtx = 0 ∨ r.inCtx = 0 ∨ r.ep0Trb = 0) := by
    rintro (hout | hin | hep)
    · exact h.1 hout
    · exact h.2.1 hin
    · exact h.2.2 hep
  simp only [xhciAllocDevice, if_neg hnull, xhciCmdEnableSlot_eq, memAlloc_eq]
  refine ⟨trivial, ?_⟩
  simp only [setDevCtxTab, modifyDevice, touch, List.append_assoc]
  rfl

theorem xhciAllocDevice_boot (s : XhciDevices) (r : AllocDeviceReply) :
    (s.xhciAllocDevice r).1.boot = s.boot := by
  simp only [xhciAllocDevice, xhciCmdEnableSlot_eq, memAlloc_eq]
  split <;> rfl

section AddEndpoint
variable {s : XhciDevices} {slot : Int} {config : XhciEpConfig}

theorem running_memAlloc {addr epIndex : Nat} :
    (s.memAlloc addr).Running slot epIndex ↔ s.Running slot epIndex := by
  rw [memAlloc_eq]
  rfl

theorem xhciCmdAddEndpoint_running
    (h : s.Running slot (xhciEp2Index config.epAddr config.epType).toNat) (r : AddEndpointReply) :
    s.xhciCmdAddEndpoint slot config r =
      some ((s.memAlloc r.epTrb).touch .device slot false, -2) := by
  rw [xhciCmdAddEndpoint, if_pos (running_memAlloc.mpr h)]

theorem xhciCmdAddEndpoint_null
    (h : ¬ s.Running slot (xhciEp2Index config.epAddr config.epType).toNat) {r : AddEndpointReply}
    (hnull : r.epTrb = 0) : s.xhciCmdAddEndpoint slot config r = none := by
  rw [xhciCmdAddEndpoint, if_neg (mt running_memAlloc.mp h), if_pos hnull]

theorem xhciCmdAddEndpoint_submitted
    (h : ¬ s.Running slot (xhciEp2Index config.epAddr config.epType).toNat) {r : AddEndpointReply}
    (hblock : r.epTrb ≠ 0) :
    s.xhciCmdAddEndpoint slot config r =
      if r.configEp.Succeeded then
        some (((s.submitEndpoint slot config r.epTrb).takeSlotCtx slot).modifyDevice slot
          (runEndpoint config), 0)
      else some (s.submitEndpoint slot config r.epTrb, -1) := by
  rw [xhciCmdAddEndpoint, if_neg (mt running_memAlloc.mp h), if_neg hblock]

theorem blocks_submitEndpoint {epTrb : Nat} (h : epTrb ≠ 0) :
    (s.submitEndpoint slot config epTrb).blocks = epTrb :: s.blocks := by
  rw [submitEndpoint, memAlloc_eq, if_neg h]
  rfl

end AddEndpoint

theorem xhciCmdAddressDevice_boot (s : XhciDevices) (slot : Int) (bsr : Bool) (evt : XhciTrb) :
    (s.xhciCmdAddressDevice slot bsr evt).1.boot = s.boot := by
  rw [xhciCmdAddressDevice]
  dsimp only
  split <;> rfl

end XhciDevices

end LinkedsemiZephyr.Xhci
