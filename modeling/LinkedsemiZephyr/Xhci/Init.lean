import Mathlib.Algebra.Group.Nat.Defs
import Mathlib.Logic.Function.Basic
import LinkedsemiZephyr.Xhci.Calls

/-! `xhci_init`: the blocks it allocates by the capability registers, and the tables it
fills in them. -/
namespace LinkedsemiZephyr.Xhci

/-- The registers sizes are read from. -/
structure CapRegs where
  hcsparams1 : UInt32
  hcsparams2 : UInt32
  pageSize : UInt32

def hcsparams2ScratpadNum (hcsparams2 : UInt32) : UInt32 :=
  (hcsparams2 >>> (16 : UInt32) &&& (0x3e0 : UInt32)) |||
    (hcsparams2 >>> (27 : UInt32) &&& (0x1f : UInt32))

/-- A block of `xhci_mem_alloc`; address 0 is NULL. -/
structure Block where
  addr : Nat
  size : Nat

/-- What one call of `xhci_init` meets: the addresses the allocations give, what stands in
the scratchpad buffer and table, and what the machine makes of a shift C leaves undefined. -/
structure InitReply where
  devCtxTab : Nat
  scratchpadTab : Nat
  scratchpadBuf : Nat
  commandTrb : Nat
  eventTrb : Nat
  contents : Nat → UInt8
  table : Nat → UInt64
  undefinedShift : UInt32 → UInt16

/-- What `xhci_init` leaves in `struct xhci_hcd`, and in the scratchpad table. -/
structure Initialized where
  maxSlots : UInt8
  maxPort : UInt8
  pageSize : UInt16
  devCtxTab : Block
  scratchpadTab : Block
  scratchpadBuf : Block
  scratchpad : Nat → UInt64
  cmdRing : XhciRing × List XhciTrb
  eventRing : XhciRing × List XhciTrb

/-- `1 << (hcd->op_reg->page_size + 11)`, stored in a `uint16_t`. -/
def xhciPageSize (undefinedShift : UInt32 → UInt16) (pageSize : UInt32) : UInt16 :=
  if pageSize + 11 < 31 then ((1 : UInt32) <<< (pageSize + 11)).toUInt16
  else undefinedShift (pageSize + 11)

/-- The loop over the table: `(size_t)hcd->scratchpad_buf[i * hcd->page_size]`, the byte
there and not its address. -/
def fillScratchpad (num pageSize : Nat) (contents : Nat → UInt8) (table : Nat → UInt64) :
    Nat → UInt64 :=
  (List.range num).foldl (fun table i => Function.update table i (contents (i * pageSize)).toUInt64)
    table

/-- `xhci_init`; `none` is its `-1`. -/
def xhciInit (caps : CapRegs) (r : InitReply) : Option Initialized :=
  let maxSlots := (caps.hcsparams1 &&& 0xff).toUInt8
  let pageSize := xhciPageSize r.undefinedShift caps.pageSize
  let num := hcsparams2ScratpadNum caps.hcsparams2
  if r.devCtxTab = 0 ∨ r.scratchpadTab = 0 ∨ r.scratchpadBuf = 0 ∨ r.commandTrb = 0 ∨
    r.eventTrb = 0 then none
  else some
    { maxSlots, pageSize
      maxPort := (caps.hcsparams1 >>> (24 : UInt32)).toUInt8
      devCtxTab := ⟨r.devCtxTab, 8 * maxSlots.toNat⟩
      scratchpadTab := ⟨r.scratchpadTab, (8 * num).toNat⟩
      scratchpadBuf := ⟨r.scratchpadBuf, (pageSize.toUInt32 * num).toNat⟩
      scratchpad := fillScratchpad num.toNat pageSize.toNat r.contents r.table
      cmdRing := xhciRingInit r.commandTrb xhciRingTrbMaxNum .commandRing
      eventRing := xhciRingInit r.eventTrb xhciRingTrbMaxNum .eventRing }

/-- The entries are pages of the buffer, apart from each other. -/
structure PageTable (page count : Nat) (buf : Block) (table : Nat → UInt64) : Prop where
  aligned : ∀ i < count, page ∣ (table i).toNat
  disjoint : ∀ i < count, ∀ j < count, i ≠ j →
    (table i).toNat + page ≤ (table j).toNat ∨ (table j).toNat + page ≤ (table i).toNat
  inside : ∀ i < count, buf.addr ≤ (table i).toNat ∧ (table i).toNat + page ≤ buf.addr + buf.size

theorem fillScratchpad_apply {num i : Nat} (hi : i < num) (pageSize : Nat) (contents : Nat → UInt8)
    (table : Nat → UInt64) :
    fillScratchpad num pageSize contents table i = (contents (i * pageSize)).toUInt64 := by
  induction num with
  | zero => exact absurd hi (Nat.not_lt_zero i)
  | succ num ih =>
      rw [fillScratchpad, List.range_succ, List.foldl_append, List.foldl_cons, List.foldl_nil]
      by_cases hlast : i = num
      · rw [hlast, Function.update_self]
      · rw [Function.update_of_ne hlast]
        exact ih (by omega)

theorem xhciInit_spec {caps : CapRegs} {r : InitReply} {hcd : Initialized}
    (h : xhciInit caps r = some hcd) :
    hcd.scratchpadBuf.addr ≠ 0 ∧ hcd.devCtxTab.size = 8 * hcd.maxSlots.toNat ∧
      ∀ i < (hcsparams2ScratpadNum caps.hcsparams2).toNat,
        hcd.scratchpad i = (r.contents (i * hcd.pageSize.toNat)).toUInt64 := by
  simp only [xhciInit] at h
  split at h
  · cases h
  · rename_i hnull
    cases h
    simp only [not_or] at hnull
    exact ⟨hnull.2.2.1, rfl, fun i hi => fillScratchpad_apply hi _ _ _⟩

/-- The page size is right for the two smallest. -/
theorem xhciPageSize_eq_iff (undefinedShift : UInt32 → UInt16) {n : Nat} (hn : n < 16) :
    (xhciPageSize undefinedShift ((1 : UInt32) <<< UInt32.ofNat n)).toNat =
      2 ^ (n + 12) ↔ n ≤ 1 := by
  by_cases hsmall : n < 4
  · have hall : ∀ m : Fin 4, (xhciPageSize undefinedShift ((1 : UInt32) <<< UInt32.ofNat m)).toNat =
      2 ^ (m.val + 12) ↔
        m.val ≤ 1 := by
      intro m
      have hdefined : (1 : UInt32) <<< UInt32.ofNat m + 11 < 31 := by
        revert m
        decide
      rw [xhciPageSize, if_pos hdefined]
      revert m
      decide
    exact hall ⟨n, hsmall⟩
  · have hword := (xhciPageSize undefinedShift ((1 : UInt32) <<< UInt32.ofNat n)).toNat_lt
    have hpow : 2 ^ 16 ≤ 2 ^ (n + 12) := Nat.pow_le_pow_right (by decide) (by omega)
    refine iff_of_false (fun heq => ?_) (by omega)
    omega

/-- Whatever the page size, a controller that wants scratchpad pages is given none: the
entries are bytes of the buffer, and the only page-aligned address among those is NULL. -/
theorem scratchpad_iff {caps : CapRegs} {r : InitReply} {hcd : Initialized} (n : Nat)
    (h : xhciInit caps r = some hcd) :
    PageTable (2 ^ (n + 12)) (hcsparams2ScratpadNum caps.hcsparams2).toNat hcd.scratchpadBuf
      hcd.scratchpad ↔
      hcsparams2ScratpadNum caps.hcsparams2 = 0 := by
  obtain ⟨hnull, -, hentries⟩ := xhciInit_spec h
  constructor
  · intro htable
    by_contra hnum
    have hpos : 0 < (hcsparams2ScratpadNum caps.hcsparams2).toNat :=
      Nat.pos_of_ne_zero fun hzero => hnum (UInt32.toNat_inj.mp hzero)
    have hbyte : (hcd.scratchpad 0).toNat < 2 ^ 8 := by
      rw [hentries 0 hpos, UInt8.toNat_toUInt64]
      exact UInt8.toNat_lt _
    have hpages : 2 ^ 12 ≤ 2 ^ (n + 12) := Nat.pow_le_pow_right (by decide) (Nat.le_add_left 12 n)
    have hzero : (hcd.scratchpad 0).toNat = 0 :=
      Nat.eq_zero_of_dvd_of_lt (htable.aligned 0 hpos) (by omega)
    have hinside := (htable.inside 0 hpos).1
    omega
  · intro hnum
    rw [hnum]
    exact ⟨fun i hi => absurd hi (Nat.not_lt_zero i), fun i hi => absurd hi (Nat.not_lt_zero i),
      fun i hi => absurd hi (Nat.not_lt_zero i)⟩

/-- A controller of 4 KiB pages whose HCSPARAMS2 asks for `num` scratchpad pages. -/
def smallPages (num : UInt32) : CapRegs := ⟨0x01000040, num <<< 27, 1⟩

/-- Five blocks, the scratchpad buffer zeroed. -/
def zeroedBuffer : InitReply where
  devCtxTab := 0x20000
  scratchpadTab := 0x21000
  scratchpadBuf := 0x22000
  commandTrb := 0x24000
  eventTrb := 0x25000
  contents := fun _ => 0
  table := fun _ => 0
  undefinedShift := fun _ => 0

theorem scratchpad_iff_none :
    (∃ hcd, xhciInit (smallPages 0) zeroedBuffer = some hcd ∧
      PageTable (2 ^ 12) (hcsparams2ScratpadNum (smallPages 0).hcsparams2).toNat hcd.scratchpadBuf
        hcd.scratchpad) :=
  ⟨_, rfl, (@scratchpad_iff (smallPages 0) zeroedBuffer _ 0 rfl).mpr (by decide)⟩

/-- The table's one entry is the first byte of the buffer, NULL. -/
theorem scratchpad_zeroedBuffer :
    ¬ ∀ (caps : CapRegs) (r : InitReply) (hcd : Initialized) (n : Nat), n < 16 →
      caps.pageSize = (1 : UInt32) <<< UInt32.ofNat n → xhciInit caps r = some hcd →
      PageTable (2 ^ (n + 12)) (hcsparams2ScratpadNum caps.hcsparams2).toNat hcd.scratchpadBuf
        hcd.scratchpad := by
  intro h
  have htable := h (smallPages 1) zeroedBuffer _ 0 (by decide) (by decide) rfl
  have hinside := (htable.inside 0 (by decide)).1
  exact absurd hinside (by decide)

end LinkedsemiZephyr.Xhci
