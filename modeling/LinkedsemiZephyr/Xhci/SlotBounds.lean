import LinkedsemiZephyr.Xhci.DeviceSetup

/-! The slot numbers `alloc_dev` uses as indexes. -/
namespace LinkedsemiZephyr.Xhci
open GuardedRun

/-- Inside `struct xhci_device device[XHCI_SLOT_MAX]`, and inside the block `xhci_init`
allocated for `dev_ctx_tab`. -/
def Access.InBounds (boot : Initialized) (a : Access) : Prop :=
  0 ≤ a.index ∧
    match a.table with
    | .device => a.index < xhciSlotMax
    | .devCtxTab => 8 * (a.index + 1) ≤ boot.devCtxTab.size

namespace XhciDevices

/-- The indexes one `alloc_dev` uses. -/
def indexes (s : XhciDevices) (r : AllocDevReply) : List Access :=
  (s.allocDev r).accesses.drop s.accesses.length

/-- The indexes are in bounds, and none is written at after a failed Enable Slot. -/
structure Bounded (s : XhciDevices) (r : AllocDevReply) : Prop where
  inBounds : ∀ a ∈ s.indexes r, a.InBounds s.boot
  unwritten : ¬ r.enableSlot.Succeeded → ∀ a ∈ s.indexes r, a.write = false

/-- Enable Slot and the allocations succeed, with a slot both tables have. -/
structure Fits (maxSlots : UInt8) (r : AllocDevReply) : Prop where
  enabled : r.enableSlot.Succeeded
  allocated : r.Allocated
  device : (trbToSlotId r.enableSlot.control).toNat < xhciSlotMax
  devCtxTab : (trbToSlotId r.enableSlot.control).toNat < maxSlots.toNat

theorem allocDev_accesses (s : XhciDevices) (r : AllocDevReply) :
    (s.allocDev r).accesses = (s.xhciAllocDevice r.toAllocDeviceReply).1.accesses ++
      [⟨.device, (UInt8.ofInt (s.xhciAllocDevice r.toAllocDeviceReply).2).toNat, true⟩,
        ⟨.device, (UInt8.ofInt (s.xhciAllocDevice r.toAllocDeviceReply).2).toNat, false⟩] := by
  simp only [allocDev, xhciCmdAddressDevice]
  split <;> simp only [takeSlotCtx, modifyThrough, xhciSetDevSpeed, modifyDevice, touch,
    List.append_assoc] <;> rfl

/-- A call that returns -1 makes its caller use index 255. -/
theorem indexes_failed (s : XhciDevices) {r : AllocDevReply} (h : ¬ r.Allocated) :
    s.indexes r = [⟨.device, 255, true⟩, ⟨.device, 255, false⟩] := by
  obtain ⟨blocks, hfailed⟩ := s.xhciAllocDevice_failed h
  rw [indexes, allocDev_accesses, hfailed, xhciCmdEnableSlot_eq, List.drop_left]
  rfl

theorem indexes_allocated (s : XhciDevices) {r : AllocDevReply} (h : r.Allocated) :
    s.indexes r = [⟨.device, slotOf r.enableSlot, true⟩, ⟨.devCtxTab, slotOf r.enableSlot, true⟩,
      ⟨.device, (UInt8.ofInt (slotOf r.enableSlot)).toNat, true⟩,
      ⟨.device, (UInt8.ofInt (slotOf r.enableSlot)).toNat, false⟩] := by
  obtain ⟨hret, haccesses⟩ := s.xhciAllocDevice_allocated h
  rw [indexes, allocDev_accesses, hret, haccesses, List.append_assoc, List.drop_left]
  rfl

theorem ofInt_slot {slot : Nat} (h : slot < xhciSlotMax) : (UInt8.ofInt slot).toNat = slot := by
  have hall : ∀ n : Fin xhciSlotMax, (UInt8.ofInt n.val).toNat = n.val := by decide
  exact hall ⟨slot, h⟩

theorem bounded_iff {s : XhciDevices} (htab : s.boot.devCtxTab.size = 8 * s.boot.maxSlots.toNat)
    (r : AllocDevReply) :
    Bounded s r ↔ Fits s.boot.maxSlots r := by
  constructor
  · intro h
    by_cases hallocated : r.Allocated
    · have hbounds := h.inBounds
      rw [s.indexes_allocated hallocated] at hbounds
      have hdevice := hbounds _ List.mem_cons_self
      have htable := hbounds _ (List.mem_cons_of_mem _ List.mem_cons_self)
      by_cases henabled : r.enableSlot.Succeeded
      · simp only [Access.InBounds, slotOf, if_pos henabled, htab] at hdevice htable
        exact ⟨henabled, hallocated, by omega, by omega⟩
      · simp only [Access.InBounds, slotOf, if_neg henabled] at hdevice
        omega
    · have hbounds := h.inBounds
      rw [s.indexes_failed hallocated] at hbounds
      have hdevice := hbounds _ List.mem_cons_self
      simp only [Access.InBounds, xhciSlotMax] at hdevice
      omega
  · intro h
    have hdevice := h.device
    have htable := h.devCtxTab
    refine ⟨?_, fun hfailed => absurd h.enabled hfailed⟩
    rw [s.indexes_allocated h.allocated, slotOf, if_pos h.enabled, ofInt_slot hdevice]
    simp only [List.forall_mem_cons, Access.InBounds, htab]
    refine ⟨by omega, by omega, by omega, by omega, fun a ha => absurd ha List.not_mem_nil⟩

theorem allocDev_boot (s : XhciDevices) (r : AllocDevReply) : (s.allocDev r).boot = s.boot := by
  rw [allocDev]
  dsimp only
  rw [xhciCmdAddressDevice_boot]
  exact s.xhciAllocDevice_boot r.toAllocDeviceReply

/-- For any controller `xhci_init` brings up, a sequence of `alloc_dev` stays within the two
tables just when every command gets its blocks and a slot that both tables have. -/
theorem allocDev_bounded_iff {caps : CapRegs} {reply : InitReply} {boot : Initialized}
    (h : xhciInit caps reply = some boot) (tab : Int → Nat) (replies : List AllocDevReply) :
    Follows allocDev Bounded (start boot tab) replies ↔ ∀ r ∈ replies, Fits boot.maxSlots r := by
  obtain ⟨-, htab, -⟩ := xhciInit_spec h
  have keep (s : XhciDevices) (r : AllocDevReply) (hs : s.boot = boot) :
      (s.allocDev r).boot = boot :=
    (s.allocDev_boot r).trans hs
  refine (@follows_congr _ _ _ _ (fun s => s.boot = boot) _ _ _ rfl keep ?_).trans
    follows_iff_forall
  rintro s r rfl
  exact bounded_iff htab r

/-- Slot 1 in a controller of four, with all blocks there. -/
def slotOne : AllocDevReply where
  enableSlot := ⟨0, 0x01000000, 0x01000000⟩
  outCtx := 0x30000
  inCtx := 0x31000
  ep0Trb := 0x32000
  portsc := 0
  addressDevice := ⟨0, 0x01000000, 0x01000000⟩

theorem allocDev_bounded_slotOne :
    ∃ boot, xhciInit (smallPages 0) zeroedBuffer = some boot ∧
      Follows allocDev Bounded (start boot fun _ => 0) [slotOne] :=
  ⟨_, rfl, (@allocDev_bounded_iff (smallPages 0) zeroedBuffer _ rfl (fun _ => 0) [slotOne]).mpr (by
    intro r hr
    rw [List.mem_singleton.mp hr]
    exact ⟨by decide, by decide, by decide, by decide⟩)⟩

/-- Enable Slot fails in a call that gets all its blocks. -/
def noSlot : AllocDevReply := { slotOne with enableSlot := ⟨0, 0x09000000, 0⟩ }

theorem allocDev_noSlot :
    ¬ ∀ (caps : CapRegs) (reply : InitReply) (boot : Initialized) (tab : Int →
      Nat) (replies : List AllocDevReply),
      xhciInit caps reply = some boot → 1 ≤ boot.maxSlots.toNat →
      (∀ r ∈ replies, r.enableSlot.Succeeded → 1 ≤ (trbToSlotId r.enableSlot.control).toNat ∧
        (trbToSlotId r.enableSlot.control).toNat ≤ boot.maxSlots.toNat) →
      Follows allocDev Bounded (start boot tab) replies := by
  intro h
  have hrun := h (smallPages 0) zeroedBuffer _ (fun _ => 0) [noSlot] rfl (by decide) (by
    intro r hr hsucceeded
    rw [List.mem_singleton.mp hr] at hsucceeded
    exact absurd hsucceeded (by decide))
  have hbounds := hrun.1.inBounds ⟨.device, -1, true⟩
  rw [indexes_allocated _ (by decide : noSlot.Allocated)] at hbounds
  exact absurd (hbounds (by decide)).1 (by decide)

end XhciDevices

end LinkedsemiZephyr.Xhci
