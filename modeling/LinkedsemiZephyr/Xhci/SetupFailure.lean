import LinkedsemiZephyr.Xhci.SlotBounds

/-! What a device or endpoint setup leaves behind that fails. -/
namespace LinkedsemiZephyr.Xhci

/-- The two setup functions, with what the call meets. -/
inductive SetupCall where
  | allocDevice (r : AllocDeviceReply)
  | addEndpoint (slot : Int) (config : XhciEpConfig) (r : AddEndpointReply)

namespace XhciDevices

/-- No slot is left enabled, and nothing was written to the two tables. -/
structure DeviceUndone (s s' : XhciDevices) : Prop where
  enabled : s'.enabled = s.enabled
  device : s'.device = s.device
  devCtxTab : s'.devCtxTab = s.devCtxTab
  unwritten : ∀ a ∈ s'.accesses.drop s.accesses.length, a.write = false

/-- Ring and state of the endpoint are as before, and so are the blocks handed out. -/
structure EndpointUndone (s s' : XhciDevices) (slot : Int) (epIndex : Nat) : Prop where
  epRing : ((s'.device slot).ep epIndex).epRing = ((s.device slot).ep epIndex).epRing
  state : ((s'.device slot).ep epIndex).state = ((s.device slot).ep epIndex).state
  blocks : s'.blocks = s.blocks

/-- A call that fails leaves no trace; it does not write through NULL. -/
def Traceless (s : XhciDevices) : SetupCall → Prop
  | .allocDevice r => (s.xhciAllocDevice r).2 < 0 → DeviceUndone s (s.xhciAllocDevice r).1
  | .addEndpoint slot config r => ∃ s' ret, s.xhciCmdAddEndpoint slot config r = some (s', ret) ∧
      (ret ≠ 0 → EndpointUndone s s' slot (xhciEp2Index config.epAddr config.epType).toNat)

/-- Command and allocations of a device succeed or fail together; an endpoint that runs gets
no block, and any other gets one and is configured. -/
def Together (s : XhciDevices) : SetupCall → Prop
  | .allocDevice r => r.enableSlot.Succeeded ↔ r.Allocated
  | .addEndpoint slot config r =>
    if s.Running slot (xhciEp2Index config.epAddr config.epType).toNat then r.epTrb = 0
    else r.epTrb ≠ 0 ∧ r.configEp.Succeeded

theorem slotOf_neg_iff (evt : XhciTrb) : slotOf evt < 0 ↔ ¬ evt.Succeeded := by
  rw [slotOf]
  split
  · rename_i h
    exact iff_of_false (by omega) (not_not.mpr h)
  · rename_i h
    exact iff_of_true (by decide) h

theorem xhciAllocDevice_undone_iff (s : XhciDevices) {r : AllocDeviceReply} (h : ¬ r.Allocated) :
    DeviceUndone s (s.xhciAllocDevice r).1 ↔ ¬ r.enableSlot.Succeeded := by
  obtain ⟨blocks, hcall⟩ := s.xhciAllocDevice_failed h
  rw [hcall, xhciCmdEnableSlot_eq]
  constructor
  · intro hundone hsucceeded
    have henabled := hundone.enabled
    simp only [if_pos hsucceeded] at henabled
    exact List.cons_ne_self _ _ henabled
  · intro hfailed
    simp only [if_neg hfailed]
    refine ⟨rfl, rfl, rfl, fun a ha => ?_⟩
    rw [List.drop_length] at ha
    cases ha

theorem allocDevice_traceless_iff (s : XhciDevices) (r : AllocDeviceReply) :
    s.Traceless (.allocDevice r) ↔ s.Together (.allocDevice r) := by
  simp only [Traceless, Together]
  by_cases hallocated : r.Allocated
  · obtain ⟨hret, haccesses⟩ := s.xhciAllocDevice_allocated hallocated
    rw [hret, slotOf_neg_iff]
    constructor
    · intro h
      refine iff_of_true ?_ hallocated
      by_contra hfailed
      have hunwritten := (h hfailed).unwritten
      rw [haccesses, List.drop_left] at hunwritten
      have hdevice := hunwritten _ List.mem_cons_self
      cases hdevice
    · intro htogether hfailed
      exact absurd (htogether.mpr hallocated) hfailed
  · obtain ⟨blocks, hcall⟩ := s.xhciAllocDevice_failed hallocated
    have hnegative : (s.xhciAllocDevice r).2 < 0 := by rw [hcall]; exact Int.negSucc_lt_zero 0
    rw [imp_iff_right hnegative, xhciAllocDevice_undone_iff s hallocated]
    constructor
    · intro hfailed
      exact iff_of_false hfailed hallocated
    · intro htogether
      exact mt htogether.mp hallocated

theorem addEndpoint_traceless_iff (s : XhciDevices) (slot : Int) (config : XhciEpConfig)
    (r : AddEndpointReply) :
    s.Traceless (.addEndpoint slot config r) ↔ s.Together (.addEndpoint slot config r) := by
  simp only [Traceless, Together]
  by_cases hrunning : s.Running slot (xhciEp2Index config.epAddr config.epType).toNat
  · rw [if_pos hrunning, xhciCmdAddEndpoint_running hrunning]
    constructor
    · rintro ⟨s', ret, hcall, hundone⟩
      cases hcall
      have hblocks := (hundone (by decide)).blocks
      rw [memAlloc_eq] at hblocks
      by_contra hblock
      simp only [touch, if_neg hblock] at hblocks
      exact List.cons_ne_self _ _ hblocks
    · intro hnull
      refine ⟨_, -2, rfl, fun _ => ?_⟩
      rw [memAlloc_eq, if_pos hnull]
      exact ⟨rfl, rfl, rfl⟩
  · rw [if_neg hrunning]
    by_cases hnull : r.epTrb = 0
    · rw [xhciCmdAddEndpoint_null hrunning hnull]
      refine iff_of_false ?_ fun htogether => htogether.1 hnull
      rintro ⟨s', ret, hcall, -⟩
      cases hcall
    · rw [xhciCmdAddEndpoint_submitted hrunning hnull]
      by_cases hsucceeded : r.configEp.Succeeded
      · rw [if_pos hsucceeded]
        exact iff_of_true ⟨_, 0, rfl, fun hne => absurd rfl hne⟩ ⟨hnull, hsucceeded⟩
      · rw [if_neg hsucceeded]
        refine iff_of_false ?_ fun htogether => hsucceeded htogether.2
        rintro ⟨s', ret, hcall, hundone⟩
        cases hcall
        have hblocks := (hundone (by decide)).blocks
        rw [blocks_submitEndpoint hnull] at hblocks
        exact List.cons_ne_self _ _ hblocks

/-- In whatever state, a setup call that fails leaves no trace just when its parts succeed or
fail together. -/
theorem setup_traceless_iff (s : XhciDevices) (call : SetupCall) :
    s.Traceless call ↔ s.Together call := by
  cases call with
  | allocDevice r => exact s.allocDevice_traceless_iff r
  | addEndpoint slot config r => exact s.addEndpoint_traceless_iff slot config r

/-- A bulk IN endpoint 1. -/
def bulkIn1 : XhciEpConfig := ⟨.bulkIn, 0x81, 3, 512⟩

/-- Slot 1 is set up; then Configure Endpoint is refused: the ring of the endpoint is gone,
and its block with it. -/
theorem setup_refused :
    ∃ boot, xhciInit (smallPages 0) zeroedBuffer = some boot ∧
      ¬ ((start boot fun _ => 0).allocDev slotOne).Traceless
        (.addEndpoint 1 bulkIn1 ⟨0x40000, ⟨0, 0x05000000, 0⟩⟩) := by
  refine ⟨_, rfl, ?_⟩
  rw [addEndpoint_traceless_iff, Together]
  intro htogether
  split at htogether
  · exact absurd htogether (by decide)
  · exact absurd htogether.2 (by decide)

end XhciDevices

end LinkedsemiZephyr.Xhci
