import LinkedsemiZephyr.Xhci.DeviceSetup

/-! The Context Entries field of the slot contexts that `xhci_cmd_add_endpoint` submits. -/
namespace LinkedsemiZephyr.Xhci
open GuardedRun

/-- An endpoint of a device, as far as its context is one of the 31. -/
structure Endpoint extends XhciEpConfig where
  index_lt : (xhciEp2Index epAddr epType).toNat < 31

def Endpoint.index (e : Endpoint) : Nat := (xhciEp2Index e.epAddr e.epType).toNat

/-- A call for an endpoint, with what it meets. -/
structure AddCall extends Endpoint where
  reply : AddEndpointReply

/-- The field, of five bits. -/
def contextEntries (devInfo : UInt32) : Nat := (devInfo >>> (27 : UInt32)).toNat

theorem contextEntries_or {n : UInt32} (hn : n.toNat < 32) (devInfo : UInt32) :
    contextEntries ((devInfo &&& ~~~slotCtxEntries 0x1f) ||| slotCtxEntries n) = n.toNat := by
  have hmask : (~~~slotCtxEntries 0x1f).toNat >>> 27 = 0 := by decide
  have hfield : (slotCtxEntries n).toNat = n.toNat <<< 27 := by
    have hfits : n.toNat <<< 27 < 2 ^ 32 := by
      rw [Nat.shiftLeft_eq]
      omega
    rw [slotCtxEntries, UInt32.toNat_shiftLeft]
    exact Nat.mod_eq_of_lt hfits
  rw [contextEntries, UInt32.toNat_shiftRight]
  change _ >>> 27 = _
  rw [UInt32.toNat_or, UInt32.toNat_and, Nat.shiftRight_or_distrib, Nat.shiftRight_and_distrib,
    hmask, hfield, Nat.and_zero, Nat.zero_or, Nat.shiftLeft_shiftRight]

namespace XhciDevices

def addEndpoint (slot : Int) (s : XhciDevices) (e : AddCall) : XhciDevices :=
  match s.xhciCmdAddEndpoint slot e.toXhciEpConfig e.reply with
  | some (s, _) => s
  | none => s

def Succeeds (slot : Int) (s : XhciDevices) (e : AddCall) : Prop :=
  ∃ s', s.xhciCmdAddEndpoint slot e.toXhciEpConfig e.reply = some (s', 0)

/-- The submitted Context Entries reach every endpoint that runs, and the one being added. -/
def Covers (slot : Int) (s : XhciDevices) (e : AddCall) : Prop :=
  ∀ i < 31, s.Running slot i ∨ i = e.index →
    i + 1 ≤ contextEntries
      ((s.submitEndpoint slot e.toXhciEpConfig e.reply.epTrb).device slot).input.slotCtx.devInfo

theorem contextEntries_submitted (s : XhciDevices) (slot : Int) (e : AddCall) :
    contextEntries
      ((s.submitEndpoint slot e.toXhciEpConfig e.reply.epTrb).device slot).input.slotCtx.devInfo =
      e.index + 1 := by
  have hlt := e.index_lt
  have hindex : ((xhciEp2Index e.epAddr e.epType).toUInt32 + 1).toNat = e.index + 1 := by
    rw [UInt32.toNat_add, UInt8.toNat_toUInt32]
    change (e.index + 1) % 2 ^ 32 = e.index + 1
    change e.index < 31 at hlt
    omega
  simp only [submitEndpoint, modifyDevice, Function.update_self, prepareEndpoint]
  rw [contextEntries_or, hindex]
  rw [hindex]
  change e.index < 31 at hlt
  omega

theorem succeeds_iff {slot : Int} {s : XhciDevices} {e : AddCall} :
    Succeeds slot s e ↔ ¬ s.Running slot e.index ∧ e.reply.epTrb ≠ 0 ∧
      e.reply.configEp.Succeeded := by
  by_cases hrunning : s.Running slot e.index
  · refine iff_of_false ?_ fun h => h.1 hrunning
    rintro ⟨s', hcall⟩
    rw [xhciCmdAddEndpoint_running hrunning] at hcall
    cases hcall
  rw [Succeeds, and_iff_right hrunning]
  by_cases hnull : e.reply.epTrb = 0
  · refine iff_of_false ?_ fun h => h.1 hnull
    rintro ⟨s', hcall⟩
    rw [xhciCmdAddEndpoint_null hrunning hnull] at hcall
    cases hcall
  rw [xhciCmdAddEndpoint_submitted hrunning hnull, and_iff_right hnull]
  by_cases hconfigured : e.reply.configEp.Succeeded
  · rw [if_pos hconfigured]
    exact iff_of_true ⟨_, rfl⟩ hconfigured
  · rw [if_neg hconfigured]
    refine iff_of_false ?_ hconfigured
    rintro ⟨s', hcall⟩
    cases hcall

theorem covers_iff {slot : Int} {s : XhciDevices} {e : AddCall} (hnew : ¬ s.Running slot e.index) :
    Covers slot s e ↔ ∀ i < 31, s.Running slot i → i < e.index := by
  rw [Covers, contextEntries_submitted]
  constructor
  · intro h i hi hrunning
    have hle := h i hi (.inl hrunning)
    have hne : i ≠ e.index := fun heq => hnew (heq ▸ hrunning)
    omega
  · rintro h i hi (hrunning | rfl)
    · have hlt := h i hi hrunning
      omega
    · exact Nat.le_refl _

theorem running_addEndpoint {slot : Int} {s : XhciDevices} {e : AddCall} (h : Succeeds slot s e)
    {i : Nat} :
    (addEndpoint slot s e).Running slot i ↔ s.Running slot i ∨ i = e.index := by
  obtain ⟨hnew, hblock, hconfigured⟩ := succeeds_iff.mp h
  rw [addEndpoint, xhciCmdAddEndpoint_submitted hnew hblock, if_pos hconfigured]
  have hdevice : (s.memAlloc e.reply.epTrb).device = s.device := by rw [memAlloc_eq]
  simp only [Running, modifyDevice, takeSlotCtx, submitEndpoint, touch,
    Function.update_self, runEndpoint, prepareEndpoint, xhciSlotCtxCopy, hdevice]
  by_cases hi : i = e.index
  · subst hi
    refine iff_of_true ?_ (.inr rfl)
    rw [Endpoint.index, Function.update_self]
  · have hother : i ≠ (xhciEp2Index e.epAddr e.epType).toNat := hi
    rw [Function.update_of_ne hother, Function.update_of_ne hother]
    exact (or_iff_left hi).symm

/-- The submitted Context Entries cover all endpoints just when each endpoint comes above all
that run when it is added: those running at the start, and those added before it. -/
theorem contextEntries_cover_iff {slot : Int} {s : XhciDevices} {calls : List AddCall}
    (h : Follows (addEndpoint slot) (Succeeds slot) s calls) :
    Follows (addEndpoint slot) (Covers slot) s calls ↔
      (∀ e ∈ calls, ∀ i < 31, s.Running slot i → i < e.index) ∧
        (calls.map fun e => e.index).Pairwise (· < ·) := by
  induction calls generalizing s with
  | nil => exact iff_of_true trivial ⟨fun e he => absurd he List.not_mem_nil, List.Pairwise.nil⟩
  | cons e es ih =>
      obtain ⟨hsucceeds, hrest⟩ := h
      have hrunning {i : Nat} := running_addEndpoint (i := i) hsucceeds
      rw [Follows, covers_iff (succeeds_iff.mp hsucceeds).1, ih hrest, List.forall_mem_cons,
        List.map_cons, List.pairwise_cons]
      constructor
      · rintro ⟨hlow, hlater, hsorted⟩
        refine ⟨⟨hlow, fun e' he' i hi hruns => hlater e' he' i hi (hrunning.mpr (.inl hruns))⟩, ?_,
          hsorted⟩
        intro j hj
        obtain ⟨e', he', rfl⟩ := List.mem_map.mp hj
        exact hlater e' he' e.index e.index_lt (hrunning.mpr (.inr rfl))
      · rintro ⟨⟨hlow, hlater⟩, habove, hsorted⟩
        refine ⟨hlow, fun e' he' i hi hruns => ?_, hsorted⟩
        rcases hrunning.mp hruns with hold | rfl
        · exact hlater e' he' i hi hold
        · exact habove e'.index (List.mem_map_of_mem he')

/-- A bulk endpoint 1 that gets a block and is configured. -/
def bulkAdded (epType : XhciEpType) (epAddr : UInt8) (h : (xhciEp2Index epAddr epType).toNat < 31) :
    AddCall where
  epType := epType
  epAddr := epAddr
  epInterval := 3
  epMps := 512
  index_lt := h
  reply := ⟨0x40000, ⟨0, 0x01000000, 0⟩⟩

def bulkOutAdded : AddCall := bulkAdded .bulkOut 0x01 (by decide)
def bulkInAdded : AddCall := bulkAdded .bulkIn 0x81 (by decide)

def booted : XhciDevices := start ((xhciInit (smallPages 0) zeroedBuffer).get (by rfl)) fun _ => 0

theorem succeeds_booted {e e' : AddCall} (he : e.reply = ⟨0x40000, ⟨0, 0x01000000, 0⟩⟩)
    (he' : e'.reply = e.reply) (hne : e'.index ≠ e.index) :
    Follows (addEndpoint 1) (Succeeds 1) booted [e, e'] := by
  have hnone : ∀ i, ¬ booted.Running 1 i := by
    intro i hi
    cases hi
  have hfirst : Succeeds 1 booted e := by
    rw [succeeds_iff, he]
    exact ⟨hnone _, by decide, by decide⟩
  refine ⟨hfirst, ?_, trivial⟩
  rw [succeeds_iff, he', he]
  exact ⟨fun hruns => (running_addEndpoint hfirst).mp hruns |>.elim (hnone _) hne,
    by decide, by decide⟩

theorem succeeds_outIn : Follows (addEndpoint 1) (Succeeds 1) booted [bulkOutAdded, bulkInAdded] :=
  succeeds_booted rfl rfl (by decide)

theorem contextEntries_cover_outIn :
    Follows (addEndpoint 1) (Covers 1) booted [bulkOutAdded, bulkInAdded] :=
  (contextEntries_cover_iff succeeds_outIn).mpr ⟨fun _ _ i _ hruns => (by cases hruns), by decide⟩

/-- The IN endpoint first: the command for the OUT endpoint cuts it off. -/
theorem contextEntries_inOut :
    ¬ ∀ (slot : Int) (s : XhciDevices) (calls : List AddCall),
      Follows (addEndpoint slot) (Succeeds slot) s calls →
      (calls.map fun e => e.index).Nodup → Follows (addEndpoint slot) (Covers slot) s calls := by
  intro h
  have hsucceeds : Follows (addEndpoint 1) (Succeeds 1) booted [bulkInAdded, bulkOutAdded] :=
    succeeds_booted rfl rfl (by decide)
  have hrun := h 1 booted [bulkInAdded, bulkOutAdded] hsucceeds (by decide)
  have hruns := (running_addEndpoint hsucceeds.1).mpr (.inr rfl)
  have hle := hrun.2.1 2 (by decide) (.inl hruns)
  rw [contextEntries_submitted] at hle
  exact absurd hle (by decide)

end XhciDevices

end LinkedsemiZephyr.Xhci
