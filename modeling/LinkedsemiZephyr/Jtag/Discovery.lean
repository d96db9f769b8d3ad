import LinkedsemiZephyr.Jtag.ScanTest

/-! What `uncore_discovery` finds on a chain: the identification codes come out of the devices
behind one another, and behind them the pattern that was shifted in. -/
namespace LinkedsemiZephyr.Jtag
open BitStream Octets

section Reads
variable {σ : Type} {h : Handler σ} {chain : Chain} {tap : σ → Tap} {s : σ}

/-- After a reset every device has its identification code selected. -/
theorem Drives.reset (hd : Drives h chain tap) (s : σ) : ∃ s', resetJtagToRTI h s = (true, s') ∧
    (tap s').state = .rti ∧ (tap s').selected = chain.map fun d => bits d.idcode.1 := by
  obtain ⟨s₁, h₁, ht₁⟩ := hd.setTapState .tlr s
  obtain ⟨s₂, h₂, ht₂⟩ := hd.setTapState .rti s₁
  refine ⟨s₂, ?_, ?_, ?_⟩
  · rw [resetJtagToRTI, h₁]
    exact h₂
  · rw [ht₂]
    rfl
  · rw [ht₂, ht₁]
    rfl

/-- A shift through Shift-DR brings out the selected registers, and behind them what is shifted
in. -/
theorem Drives.readDr (hd : Drives h chain tap) (hs : (tap s).state = .rti) (n : Nat)
    (input : Bytes) :
    ∃ s₁ s₂ fed, h.setTapState .shfDr s = (true, s₁) ∧ Fed n input fed ∧
      h.shift n input s₁ = (some (((tap s).selected.flatten ++ fed).take n), s₂) ∧
      (tap s₂).state = .rti ∧ (tap s₂).selected = (tap s).selected := by
  obtain ⟨s₁, h₁, ht₁⟩ := hd.setTapState .shfDr s
  obtain ⟨fed, s₂, hfed, h₂, ht₂⟩ := hd.shift n input s₁
  have htap : tap s₁ = { tap s with state := .shfDr, register := (tap s).selected.flatten } := by
    rw [ht₁, Tap.goto, Tap.leave_idle hs]
    rfl
  refine ⟨s₁, s₂, fed, h₁, hfed, ?_, ?_, ?_⟩
  · rw [h₂, htap]
  · rw [ht₂]
    rfl
  · rw [ht₂, htap]
    rfl

/-- The bytes of a buffer the bits of a shift were stored into begin with those the bits make up. -/
theorem tdoAfter_bytes (filler : UInt8) {out : List Bool} {bs : Bytes} (hbegins : bits bs <+: out)
    (hout : out.length ≤ 8 * maxTdoSize) : bs <+: tdoAfter filler out := by
  have hlen := hbegins.length_le
  rw [length_bits] at hlen
  obtain ⟨rest, rfl⟩ := hbegins
  have hpacked : bs <+: pack (((bits bs ++ rest).length + 7) / 8) (bits bs ++ rest) :=
    prefix_pack rest (by omega)
  refine List.prefix_take_iff.mpr ⟨hpacked.trans (Buffer.prefix_write_zero _ _), by omega⟩

end Reads

theorem slice_of_isPrefix {p b : Bytes} {i j : Nat} (hp : p <+: b) (hj : j ≤ p.length) :
    slice b i j = slice p i j := by
  obtain ⟨rest, rfl⟩ := hp
  by_cases hij : i ≤ j
  · rw [slice, slice, List.drop_append_of_le_length (hij.trans hj), List.take_append_of_le_length]
    rw [List.length_drop]
    omega
  · rw [slice, slice, Nat.sub_eq_zero_of_le (Nat.le_of_not_le hij), List.take_zero, List.take_zero]

/-- The pattern is not met before the end of the codes. -/
def Chain.Unmatched (chain : Chain) (sizeofHaystack : Nat) (pattern : Bytes) : Prop :=
  ∀ i < 4 * chain.length, slice (chain.idcodes ++ pattern) i (i + sizeofHaystack) ≠
    pattern.take sizeofHaystack

/-- What a discovery should report of a chain. -/
def Chain.info (chain : Chain) : UncoreInfo :=
  ⟨chain.idcodes ++ List.replicate (maxTapsSupported * sizeofIdCode - 4 * chain.length)
    0, chain.length⟩

@[simp] theorem Chain.info_numUncores (chain : Chain) : chain.info.numUncores = chain.length := rfl

section Discovered
variable {chain : Chain} {w : Nat} {pattern tdo : Bytes}

/-- The first match is no later than the pattern itself, and earlier only among the codes. -/
theorem findPattern_first (hw : w ≤ pattern.length) (hpat : pattern.length = 8)
    (hroom : chain.length ≤ 16) (htdo : chain.idcodes ++ pattern <+: tdo) :
    findPattern w tdo uncoreDiscoveryShiftSizeInBits pattern ≤ 4 * chain.length ∧
      (findPattern w tdo uncoreDiscoveryShiftSizeInBits pattern = 4 * chain.length ↔
        chain.Unmatched w pattern) := by
  have hcodes := length_idcodes chain
  have hslice (i : Nat) (hi : i ≤ 4 * chain.length) :
      slice tdo i (i + w) = slice (chain.idcodes ++ pattern) i (i + w) := by
    apply slice_of_isPrefix htdo
    rw [List.length_append]
    omega
  have hthere : slice tdo (4 * chain.length) (4 * chain.length + w) = pattern.take w := by
    rw [hslice _ (Nat.le_refl _), slice, List.drop_left' hcodes, Nat.add_sub_cancel_left]
  have hsize : uncoreDiscoveryShiftSizeInBits / 8 = 72 := rfl
  rw [findPattern, hsize]
  cases hfind : (List.range 72).find? fun i => slice tdo i (i + w) == pattern.take w with
  | none =>
      have hnone := List.find?_range_eq_none.mp hfind (4 * chain.length) (by omega)
      rw [hthere, beq_self_eq_true] at hnone
      cases hnone
  | some f =>
      obtain ⟨hf, -, hbefore⟩ := List.find?_range_eq_some.mp hfind
      have hle : f ≤ 4 * chain.length := by
        by_contra hlt
        have hnot := hbefore (4 * chain.length) (Nat.lt_of_not_le hlt)
        rw [hthere, beq_self_eq_true] at hnot
        cases hnot
      refine ⟨hle, fun heq i hi hmatch => ?_, fun hun => ?_⟩
      · have hnot := hbefore i (Nat.lt_of_lt_of_eq hi heq.symm)
        rw [hslice i (Nat.le_of_lt hi), hmatch, beq_self_eq_true] at hnot
        cases hnot
      · by_contra hne
        have hlt : f < 4 * chain.length := Nat.lt_of_le_of_ne hle hne
        have hmatch : slice tdo f (f + w) = pattern.take w := eq_of_beq hf
        rw [hslice f hle] at hmatch
        exact hun f hlt hmatch

theorem discovered_iff (hw : w ≤ pattern.length) (hpat : pattern.length = 8)
    (hroom : chain.length ≤ 16) (htdo : chain.idcodes ++ pattern <+: tdo) :
    discovered tdo (findPattern w tdo uncoreDiscoveryShiftSizeInBits pattern * 8) =
      some chain.info ↔
      1 ≤ chain.length ∧ chain.Unmatched w pattern := by
  obtain ⟨hle, hiff⟩ := findPattern_first hw hpat hroom htdo
  have hcodes : tdo.take (4 * chain.length) = chain.idcodes := by
    obtain ⟨rest, rfl⟩ := htdo
    rw [List.append_assoc]
    exact List.take_left' (length_idcodes chain)
  rw [← hiff]
  generalize findPattern w tdo uncoreDiscoveryShiftSizeInBits pattern = f at hle
  constructor
  · intro h
    rw [discovered] at h
    split_ifs at h with hbad
    have hnum : f * 8 / 32 = chain.length := congrArg UncoreInfo.numUncores (Option.some.inj h)
    omega
  · rintro ⟨hone, rfl⟩
    have hnum : 4 * chain.length * 8 / 32 = chain.length := by omega
    have hok :
        ¬(4 * chain.length * 8 = 0 ∨ maxTapsSupported * sizeofIdCode < 4 * chain.length) := by
      rw [maxTapsSupported, sizeofIdCode]
      omega
    rw [discovered, hnum, if_neg hok, hcodes]
    rfl

end Discovered

/-- The buffer a discovery searches begins with the codes and the pattern, where it has room
for them. -/
theorem Drives.discovery {σ : Type} {h : Handler σ} {chain : Chain} {tap : σ → Tap}
    (hd : Drives h chain tap) (sizeofHaystack : Nat) (args : JtagTestArgs) (s : σ) :
    ∃ tdo s', (chain.length ≤ 16 → chain.idcodes ++ args.tapDataPattern.1 <+: tdo) ∧
      uncoreDiscovery h sizeofHaystack args s =
        (discovered tdo (findPattern sizeofHaystack tdo uncoreDiscoveryShiftSizeInBits
          args.tapDataPattern.1 * 8), s') := by
  obtain ⟨s₁, hreset, hstate, hselected⟩ := hd.reset s
  obtain ⟨s₂, s₃, fed, hmove, ⟨hlen, hfed⟩, hshift, -, -⟩ :=
    hd.readDr hstate uncoreDiscoveryShiftSizeInBits args.tapDataPattern.1
  have hpat : args.tapDataPattern.1.length = 8 := args.tapDataPattern.2
  rw [hselected, flatten_idcodes] at hshift
  refine ⟨tdoAfter 0xff ((bits chain.idcodes ++ fed).take uncoreDiscoveryShiftSizeInBits), s₃,
    fun hroom => ?_, ?_⟩
  · refine tdoAfter_bytes 0xff ?_ ((List.length_take_le _ _).trans (by decide))
    rw [List.prefix_take_iff, bits_append]
    rw [List.take_of_length_le (by rw [length_bits, hpat]; decide)] at hfed
    refine ⟨(List.prefix_append_right_inj _).mpr hfed, ?_⟩
    rw [List.length_append, length_bits, length_bits, length_idcodes, hpat]
    change _ ≤ 576
    omega
  · simp only [uncoreDiscovery, hreset, hmove, hshift]

/-- On any chain the discovery reports its devices and their codes, just when there are 1 to 16
of them and the bytes compared of the pattern are not met earlier among the codes. -/
theorem uncoreDiscovery_exact_iff {σ : Type} (h : Handler σ) (chain : Chain) (tap : σ → Tap)
    (hd : Drives h chain tap) (sizeofHaystack : Nat) (hsize : sizeofHaystack ≤ sizeofTapDataPattern)
    (args : JtagTestArgs) (s : σ) :
    (uncoreDiscovery h sizeofHaystack args s).1 = some chain.info ↔
      1 ≤ chain.length ∧ chain.length ≤ maxTapsSupported ∧
      chain.Unmatched sizeofHaystack args.tapDataPattern.1 := by
  have hpat : args.tapDataPattern.1.length = 8 := args.tapDataPattern.2
  obtain ⟨tdo, s', htdo, hrun⟩ := hd.discovery sizeofHaystack args s
  rw [hrun]
  by_cases hroom : chain.length ≤ 16
  · rw [discovered_iff (hpat ▸ hsize) hpat hroom (htdo hroom)]
    exact and_congr_right fun _ => (and_iff_right hroom).symm
  · refine iff_of_false (fun h => ?_) fun h => hroom h.2.1
    rw [discovered] at h
    split_ifs at h with hbad
    have hnum := congrArg UncoreInfo.numUncores (Option.some.inj h)
    rw [not_or, maxTapsSupported, sizeofIdCode] at hbad
    change _ = chain.length at hnum
    dsimp only at hnum
    omega

theorem uncoreDiscovery_exact_iff_twoDevices :
    (uncoreDiscovery (chainHandler twoDevices) 4 defaultArgs ⟨.tlr, [], []⟩).1 =
      some twoDevices.info ↔
      1 ≤ twoDevices.length ∧ twoDevices.length ≤ maxTapsSupported ∧
      twoDevices.Unmatched 4 defaultArgs.tapDataPattern.1 :=
  uncoreDiscovery_exact_iff (chainHandler twoDevices) twoDevices id
    (chainHandler_drives twoDevices) 4 (by decide)
    defaultArgs ⟨.tlr, [], []⟩

end LinkedsemiZephyr.Jtag
