import LinkedsemiZephyr.Jtag.Discovery
import LinkedsemiZephyr.Jtag.Instruction

/-! The whole test on a chain in order: the discovery finds it, every iteration passes, and
manual mode shows each device's register. -/
namespace LinkedsemiZephyr.Jtag
open BitStream BodyLoop Octets

section ShiftRight
variable {bs : Bytes} {n k m : Nat}

theorem carryDown_toNat (b : UInt8) :
    (if b &&& 1 ≠ 0 then (0x80 : UInt8) else 0).toNat = 128 * (b.toNat % 2) := by
  obtain ⟨⟨⟨b, hb⟩⟩⟩ := b
  revert b
  decide +kernel

theorem shiftedDown_toNat (b : UInt8) {c : UInt8} (hc : c.toNat = 0 ∨ c.toNat = 128) :
    (c ||| (b >>> 1)).toNat = c.toNat + b.toNat / 2 := by
  have hvalue : c = 0 ∨ c = 128 :=
    hc.imp (fun h => UInt8.toNat_inj.mp h) fun h => UInt8.toNat_inj.mp h
  obtain ⟨⟨⟨b, hb⟩⟩⟩ := b
  rcases hvalue with rfl | rfl <;> revert b <;> decide +kernel

/-- The carry between the bytes is that of halving the number they stand for. -/
theorem shiftRightFrom_spec (bs : Bytes) : (shiftRightFrom bs).1.length = bs.length ∧
    leNat (shiftRightFrom bs).1 = leNat bs / 2 ∧
    (shiftRightFrom bs).2.toNat = 128 * (leNat bs % 2) := by
  induction bs with
  | nil => exact ⟨rfl, rfl, rfl⟩
  | cons b bs ih =>
      obtain ⟨hlen, hval, hcarry⟩ := ih
      have hc : (shiftRightFrom bs).2.toNat = 0 ∨ (shiftRightFrom bs).2.toNat = 128 := by omega
      have hb := b.toNat_lt
      have hnum : leNat (b :: bs) = b.toNat + 256 * leNat bs := rfl
      rw [shiftRightFrom, hnum]
      refine ⟨congrArg Nat.succ hlen, ?_, ?_⟩
      · change ((shiftRightFrom bs).2 ||| (b >>> 1)).toNat + 256 * leNat (shiftRightFrom bs).1 = _
        rw [shiftedDown_toNat b hc, hval, hcarry]
        omega
      · rw [carryDown_toNat]
        omega

theorem bits_shiftRight_iterate (k : Nat) (bs : Bytes) :
    bits (shiftRight^[k] bs) = natBits (8 * bs.length) (leNat bs / 2 ^ k) := by
  induction k generalizing bs with
  | zero => rw [Nat.pow_zero, Nat.div_one, ← bits_eq]; rfl
  | succ k ih =>
      obtain ⟨hlen, hval, -⟩ := shiftRightFrom_spec bs
      rw [Function.iterate_succ_apply, ih, shiftRight, hlen, hval, Nat.div_div_eq_div_mul,
        Nat.pow_succ, Nat.mul_comm 2]

/-- What is logged after the shifts are the bits of the buffer from there. -/
theorem take_shiftRight (hkm : k + m ≤ 8 * bs.length) :
    (bits (shiftRight^[k] bs)).take m = ((bits bs).drop k).take m := by
  rw [bits_shiftRight_iterate, take_natBits (by omega), bits_eq, drop_natBits (by omega),
    take_natBits (by omega)]

end ShiftRight

section Logs

theorem tdoAfter_bits {out : List Bool} (hout : out.length ≤ 8 * maxTdoSize) :
    out <+: bits (tdoAfter 0 out) ∧ (tdoAfter 0 out).length = maxTdoSize := by
  have hpacked : pack ((out.length + 7) / 8) out <+: tdoAfter 0 out := by
    refine List.prefix_take_iff.mpr ⟨Buffer.prefix_write_zero _ _, ?_⟩
    rw [length_pack]
    omega
  constructor
  · obtain ⟨rest, hrest⟩ := hpacked
    rw [← hrest, bits_append]
    exact (bits_pack (by omega)).trans (List.prefix_append _ _)
  · rw [tdoAfter, List.length_take, Buffer.write, List.take_zero, List.nil_append,
      List.length_append, length_pack, List.length_drop, List.length_replicate]
    omega

/-- Registers of one size behind one another are logged one by one, then what follows them. -/
theorem manualLog_eq {registers : List (List Bool)} {dr : Nat} {pattern tdo : Bytes}
    (hdr : ∀ r ∈ registers, r.length = dr) (hpat : pattern.length = 8)
    (htdo : registers.flatten ++ bits pattern <+: bits tdo) :
    manualLog registers.length dr tdo = registers ++ [bits pattern] := by
  have hlen := htdo.length_le
  have hflat := length_flatten_of hdr
  rw [List.length_append, length_bits, length_bits, hflat, hpat] at hlen
  obtain ⟨rest, hrest⟩ := htdo
  rw [List.append_assoc] at hrest
  have hregisters :
      ((List.range registers.length).map fun i => (bits (shiftRight^[i * dr] tdo)).take dr) =
        registers := by
    refine Eq.trans ?_ (map_window hdr (bits pattern ++ rest))
    apply List.map_congr_left
    intro i hi
    have hend := Nat.mul_le_mul_right dr (Nat.succ_le_of_lt (List.mem_range.mp hi))
    rw [Nat.succ_mul] at hend
    rw [take_shiftRight (by omega), hrest]
  have hbehind : (bits (shiftRight^[registers.length * dr] tdo)).take (sizeofTapDataPattern * 8) =
      bits pattern := by
    rw [take_shiftRight (by rw [sizeofTapDataPattern]; omega), ← hrest, List.drop_left' hflat]
    exact List.take_left' (by rw [length_bits, hpat]; rfl)
  rw [manualLog, hregisters, hbehind]

end Logs

/-- What `jtag_test` expects of a chain: instruction registers of the size it uses, its value an
instruction that reaches all of them, and behind it registers of the size it shifts out, which
without manual mode are the identification codes. -/
structure Chain.Answers (chain : Chain) (args : JtagTestArgs) (irShiftSize : Nat) : Prop where
  irLength : ∀ d ∈ chain, d.irLength = irShiftSize
  oneByte : args.irValue < 256
  fits : args.irValue < 2 ^ irShiftSize
  reaches : chain.length ≤ 1 ∨ 256 ∣ args.irValue * 2 ^ irShiftSize
  drLength : ∀ d ∈ chain, (d.dataRegister (natBits irShiftSize args.irValue)).length =
    args.drShiftSize
  room : chain.length * args.drShiftSize + sizeofTapDataPattern * 8 ≤ 8 * maxTdoSize
  codes : args.manualMode = false →
    ∀ d ∈ chain, d.dataRegister (natBits irShiftSize args.irValue) = bits d.idcode.1

/-- The registers that the instruction selects. -/
def Chain.registers (chain : Chain) (args : JtagTestArgs) (irShiftSize : Nat) : List (List Bool) :=
  chain.map fun d => d.dataRegister (natBits irShiftSize args.irValue)

section Iteration
variable {σ : Type} {h : Handler σ} {chain : Chain} {tap : σ → Tap} {s : σ}
  {args : JtagTestArgs} {L : Nat}

/-- A shift through Shift-IR gives every device its piece of the input. -/
theorem Drives.scanIr (hd : Drives h chain tap) (hs : (tap s).state = .rti) {n : Nat}
    (input : Bytes) (hn : n = (chain.map Device.irLength).sum) (hin : n ≤ 8 * input.length) :
    ∃ s₁ s₂ out, h.setTapState .shfIr s = (true, s₁) ∧ h.shift n input s₁ = (some out, s₂) ∧
      (tap s₂).state = .rti ∧
      (tap s₂).selected =
        List.zipWith Device.dataRegister chain (chain.latched ((bits input).take n)) := by
  obtain ⟨s₁, h₁, ht₁⟩ := hd.setTapState .shfIr s
  obtain ⟨fed, s₂, ⟨hlen, hfed⟩, h₂, ht₂⟩ := hd.shift n input s₁
  have htap : tap s₁ =
      { tap s with state := .shfIr, register := (chain.map Device.irCapture).flatten } := by
    rw [ht₁, Tap.goto, Tap.leave_idle hs]
    rfl
  have hfedEq : (bits input).take n = fed := by
    apply hfed.eq_of_length
    rw [List.length_take, length_bits, hlen, Nat.min_eq_left hin]
  have hwidth : ((chain.map Device.irCapture).flatten).length = fed.length := by
    rw [hlen, hn, List.length_flatten, List.map_map]
    rfl
  refine ⟨s₁, s₂, _, h₁, h₂, ?_, ?_⟩
  · rw [ht₂]
    rfl
  · rw [ht₂, htap, hfedEq]
    change List.zipWith Device.dataRegister chain
      (chain.latched (((chain.map Device.irCapture).flatten ++ fed).drop fed.length)) = _
    rw [List.drop_left' hwidth]

theorem zipWith_replicate (chain : Chain) (r : List Bool) :
    List.zipWith Device.dataRegister chain (List.replicate chain.length r) =
      chain.map fun d => d.dataRegister r := by
  induction chain with
  | nil => rfl
  | cons d chain ih => exact congrArg (d.dataRegister r :: ·) ih

/-- What is shifted out behind the instruction passes the check of its mode. -/
theorem readOut_passes (ha : chain.Answers args L) (pattern : Sized sizeofTapDataPattern)
    {fed : List Bool}
    (hfed : Fed (chain.length * args.drShiftSize + sizeofTapDataPattern * 8) pattern.1 fed)
    {σ : Type} (p : Progress σ) :
    readOut args chain.info pattern.1 (chain.length * args.drShiftSize + sizeofTapDataPattern * 8)
        (((chain.registers args L).flatten ++ fed).take
          (chain.length * args.drShiftSize + sizeofTapDataPattern * 8)) p =
      (true, { p with
        logged := p.logged ++ if args.manualMode then
          chain.registers args L ++ [bits pattern.1] else [] }) := by
  have hpat : pattern.1.length = 8 := pattern.2
  have hcount : (chain.registers args L).length = chain.length := List.length_map _
  have hdr : ∀ r ∈ chain.registers args L, r.length = args.drShiftSize := by
    intro r hr
    obtain ⟨d, hd, rfl⟩ := List.mem_map.mp hr
    exact ha.drLength d hd
  have hflat := length_flatten_of hdr
  rw [hcount] at hflat
  obtain ⟨hlen, hbits⟩ := hfed
  rw [List.take_of_length_le (by rw [length_bits, hpat]; exact Nat.le_add_left _ _)] at hbits
  have hout : ((chain.registers args L).flatten ++ fed).take
      (chain.length * args.drShiftSize + sizeofTapDataPattern * 8) =
      (chain.registers args L).flatten ++ bits pattern.1 := by
    obtain ⟨rest, rfl⟩ := hbits
    rw [← List.append_assoc]
    apply List.take_left'
    rw [List.length_append, hflat, length_bits, hpat]
    rfl
  have hroom : ((chain.registers args L).flatten ++ bits pattern.1).length ≤ 8 * maxTdoSize := by
    rw [List.length_append, hflat, length_bits, hpat]
    exact ha.room
  rw [hout, readOut]
  cases hmode : args.manualMode with
  | true =>
      have hlog := manualLog_eq hdr hpat (tdoAfter_bits hroom).1
      rw [hcount] at hlog
      rw [if_pos rfl, if_pos rfl]
      exact congrArg (fun l => (true, { p with logged := p.logged ++ l })) hlog
  | false =>
      have hregisters : (chain.registers args L).flatten = bits chain.idcodes := by
        rw [← flatten_idcodes]
        exact congrArg List.flatten (List.map_congr_left (ha.codes hmode))
      have hsize : (chain.length * args.drShiftSize + sizeofTapDataPattern * 8 + 7) / 8 =
          4 * chain.length + 8 := by
        rw [args.drShiftSize_eq hmode, defaultDrShiftSize, sizeofTapDataPattern]
        omega
      have hcodes := length_idcodes chain
      have hwhole : (chain.idcodes ++ pattern.1).length = 4 * chain.length + 8 := by
        rw [List.length_append, hcodes, hpat]
      rw [hregisters, ← bits_append] at hroom ⊢
      have htdo := tdoAfter_bytes 0 (List.prefix_refl _) hroom
      have hcompared : (compareData chain.info pattern.1).take (4 * chain.length + 8) =
          chain.idcodes ++ pattern.1 := by
        rw [compareData, Chain.info, List.take_left' hcodes, List.take_left' hwhole]
      rw [if_neg Bool.false_ne_true, if_neg Bool.false_ne_true, List.append_nil, hsize,
        hcompared, ← hwhole, ← List.prefix_iff_eq_take.mp htdo, decide_eq_true rfl]

/-- One iteration on a chain in order. -/
theorem iteration_passes (hd : Drives h chain tap) (hL : 0 < L) (ha : chain.Answers args L)
    (pattern : Sized sizeofTapDataPattern) {p : Progress σ} (hp : (tap p.jtag).state = .rti) :
    ∃ p', iteration h args L chain.info pattern.1 p = (true, p') ∧ (tap p'.jtag).state = .rti ∧
      p'.iterations = p.iterations ∧ p'.failures = p.failures ∧
      p'.totalBits = p.totalBits + UInt32.ofNat (L * chain.length) +
        UInt32.ofNat (chain.length * args.drShiftSize + sizeofTapDataPattern * 8) ∧
      p'.logged = p.logged ++
        if args.manualMode then chain.registers args L ++ [bits pattern.1] else [] := by
  have hwidth : L * chain.length = (chain.map Device.irLength).sum := by
    rw [map_irLength ha.irLength, Nat.mul_comm]
    exact (List.sum_replicate chain.length L).symm
  have hcommand : (irCommand chain.length L args.irValue).length = (chain.length * L + 7) / 8 :=
    length_rounds_zeros L args.irValue _ chain.length
  have hlatched := latched_repeated ha.irLength hL ha.oneByte ha.fits ha.reaches
  obtain ⟨s₁, s₂, irOut, hir, hirShift, hrti, hselected⟩ := hd.scanIr hp
    (irCommand chain.length L args.irValue) hwidth (by rw [hcommand, Nat.mul_comm L]; omega)
  rw [hlatched, zipWith_replicate] at hselected
  obtain ⟨s₃, s₄, fed, hdr, hfed, hdrShift, hend, -⟩ :=
    hd.readDr hrti (chain.length * args.drShiftSize + sizeofTapDataPattern * 8) pattern.1
  rw [hselected] at hdrShift
  refine ⟨_, Eq.trans ?_ (readOut_passes ha pattern hfed
    ⟨s₄, p.iterations, p.totalBits + UInt32.ofNat (L * chain.length) +
    UInt32.ofNat (chain.length * args.drShiftSize + sizeofTapDataPattern * 8), p.failures,
    p.logged⟩), hend, rfl, rfl, rfl, rfl⟩
  simp only [iteration, Chain.info_numUncores, hir, hirShift, hdr, hdrShift, Chain.registers]

end Iteration

section Run
variable {σ : Type} {h : Handler σ} {chain : Chain} {tap : σ → Tap} {args : JtagTestArgs} {L : Nat}
  {rand : Nat → Sized sizeofTapDataPattern}

/-- The lines that manual mode has logged after `n` iterations. -/
def Chain.shown (chain : Chain) (args : JtagTestArgs) (L : Nat)
    (rand : Nat → Sized sizeofTapDataPattern) (n : Nat) :
    List (List Bool) :=
  if args.manualMode then
    (List.range n).flatMap fun i => chain.registers args L ++ [bits (patternAt args rand i).1]
  else []

theorem shown_succ (chain : Chain) (args : JtagTestArgs) (L : Nat)
    (rand : Nat → Sized sizeofTapDataPattern) (n : Nat) :
    chain.shown args L rand (n + 1) = chain.shown args L rand n ++
      if args.manualMode then chain.registers args L ++ [bits (patternAt args rand n).1]
      else [] := by
  rw [Chain.shown, Chain.shown]
  split_ifs
  · rw [List.range_succ, List.flatMap_append, List.flatMap_singleton]
  · rfl

/-- The bits that an iteration shifts, in and out. -/
def Chain.shifts (chain : Chain) (args : JtagTestArgs) (L : Nat) : Nat :=
  L * chain.length + (chain.length * args.drShiftSize + sizeofTapDataPattern * 8)

/-- The condition of the loop at its iteration `n`. -/
def JtagTestArgs.asks (args : JtagTestArgs) (n : Nat) : Bool :=
  args.loopForever || decide (n < args.numIterations)

/-- The loop after `n` iterations without a failure. -/
structure Passed (chain : Chain) (args : JtagTestArgs) (L : Nat)
    (rand : Nat → Sized sizeofTapDataPattern) (n : Nat) (p : Progress σ) : Prop where
  failures : p.failures = 0
  totalBits : p.totalBits = UInt32.ofNat (n * chain.shifts args L)
  logged : p.logged = chain.shown args L rand n

/-- The same where the next turn begins. -/
structure Passing (tap : σ → Tap) (chain : Chain) (args : JtagTestArgs) (L : Nat)
    (rand : Nat → Sized sizeofTapDataPattern) (n : Nat) (p : Progress σ) : Prop where
  idle : (tap p.jtag).state = .rti
  iterations : p.iterations = n
  passed : Passed chain args L rand n p

theorem turn_done {continueLoop : Nat → Bool} {n : Nat} {p : Progress σ}
    (hp : Passing tap chain args L rand n p) (hdone : args.asks n = false) :
    turn h args L chain.info continueLoop rand p = .inr (true, p) := by
  rw [JtagTestArgs.asks, Bool.or_eq_false_iff, decide_eq_false_iff_not, Nat.not_lt] at hdone
  rw [turn, hp.iterations, if_pos hdone]

theorem turn_passes (hd : Drives h chain tap) (hL : 0 < L) (ha : chain.Answers args L)
    (continueLoop : Nat → Bool) {n : Nat} {p : Progress σ}
    (hp : Passing tap chain args L rand n p) (hasks : args.asks n = true) :
    ∃ p', Passing tap chain args L rand (n + 1) { p' with iterations := n + 1 } ∧
      turn h args L chain.info continueLoop rand p =
        if continueLoop n then .inl { p' with iterations := n + 1 } else .inr (true, p') := by
  have hnot : ¬(args.loopForever = false ∧ args.numIterations ≤ n) := by
    rintro ⟨hfinite, hle⟩
    rw [JtagTestArgs.asks, hfinite, Bool.false_or, decide_eq_true_eq] at hasks
    omega
  obtain ⟨p', hrun, hidle, -, hfailures, hbits, hlogged⟩ :=
    iteration_passes hd hL ha (patternAt args rand n) hp.idle
  refine ⟨p', ⟨hidle, rfl, hfailures.trans hp.passed.failures, ?_, ?_⟩, ?_⟩
  · change p'.totalBits = _
    have hsum : UInt32.ofNat (chain.shifts args L) = UInt32.ofNat (L * chain.length) +
        UInt32.ofNat (chain.length * args.drShiftSize + sizeofTapDataPattern * 8) :=
      UInt32.ofNat_add _ _
    rw [hbits, hp.passed.totalBits, Nat.succ_mul, UInt32.ofNat_add _ (chain.shifts args L), hsum,
      UInt32.add_assoc]
  · rw [shown_succ, ← hp.passed.logged]
    exact hlogged
  · rw [turn, hp.iterations, if_neg hnot, hrun]

theorem turns_pass (hd : Drives h chain tap) (hL : 0 < L) (ha : chain.Answers args L)
    {continueLoop : Nat → Bool} {start : Progress σ}
    (hstart : Passing tap chain args L rand 0 start) {n : Nat}
    (hgo : ∀ i < n, args.asks i = true ∧ continueLoop i = true) :
    ∃ p, turns (turn h args L chain.info continueLoop rand) n start = .inl p ∧
      Passing tap chain args L rand n p := by
  induction n with
  | zero => exact ⟨start, rfl, hstart⟩
  | succ n ih =>
      obtain ⟨p, hrun, hp⟩ := ih fun i hi => hgo i (Nat.lt_succ_of_lt hi)
      obtain ⟨hasks, hcontinue⟩ := hgo n (Nat.lt_succ_self n)
      obtain ⟨p', hp', hturn⟩ := turn_passes hd hL ha continueLoop hp hasks
      rw [if_pos hcontinue] at hturn
      refine ⟨_, ?_, hp'⟩
      rw [turns_succ, hrun]
      exact hturn

/-- Where the loop is left it has passed. -/
theorem turns_end (hd : Drives h chain tap) (hL : 0 < L) (ha : chain.Answers args L)
    {continueLoop : Nat → Bool} {start : Progress σ}
    (hstart : Passing tap chain args L rand 0 start) {n : Nat}
    (hgo : ∀ i < n, args.asks i = true ∧ continueLoop i = true)
    (hend : ¬(args.asks n = true ∧ continueLoop n = true)) :
    ∃ p, turns (turn h args L chain.info continueLoop rand) (n + 1) start = .inr (true, p) ∧
      Passed chain args L rand (if args.asks n then n + 1 else n) p := by
  obtain ⟨p, hrun, hp⟩ := turns_pass hd hL ha hstart hgo
  rw [turns_succ, hrun]
  cases hasks : args.asks n with
  | false => exact ⟨p, turn_done hp hasks, hp.passed⟩
  | true =>
      obtain ⟨p', hp', hturn⟩ := turn_passes hd hL ha continueLoop hp hasks
      have hstop : ¬ continueLoop n = true := fun hcontinue => hend ⟨hasks, hcontinue⟩
      rw [if_neg hstop] at hturn
      exact ⟨p', hturn, hp'.passed.failures, hp'.passed.totalBits, hp'.passed.logged⟩

/-- On a chain of 1 to 16 devices that answers to the arguments, and among whose codes the pattern
is not met, the test finds the chain, passes an iteration after the other for as long as it is
asked to, shifting all its bits each time, and then ends with success; manual mode shows each
device's register in its turn and the pattern last. -/
theorem jtagTest_passes (h : Handler σ) (chain : Chain) (tap : σ → Tap) (hd : Drives h chain tap)
    (sizeofHaystack : Nat) (hsize : sizeofHaystack ≤ sizeofTapDataPattern) (args : JtagTestArgs)
    (hcount : 1 ≤ chain.length ∧ chain.length ≤ maxTapsSupported)
    (hun : chain.Unmatched sizeofHaystack args.tapDataPattern.1)
    (ha : chain.Answers args (irShiftSizeFor args chain.info)) (continueLoop : Nat → Bool)
    (rand : Nat → Sized sizeofTapDataPattern) (s : σ) :
    let L := irShiftSizeFor args chain.info
    ∃ start, jtagTestReady h sizeofHaystack args s = some (chain.info, start) ∧
      ∀ n, (∀ i < n, args.asks i = true ∧ continueLoop i = true) →
        (∃ p, turns (turn h args L chain.info continueLoop rand) n start = .inl p ∧
          p.iterations = n ∧ Passed chain args L rand n p) ∧
        (¬(args.asks n = true ∧ continueLoop n = true) →
          ∃ p, turns (turn h args L chain.info continueLoop rand) (n + 1) start = .inr (true, p) ∧
            Passed chain args L rand (if args.asks n then n + 1 else n) p) := by
  intro L
  have hpat : args.tapDataPattern.1.length = 8 := args.tapDataPattern.2
  have hL : 0 < L := irShiftSizeFor_pos args chain.info
  obtain ⟨tdo, s₁, htdo, hfound⟩ := hd.discovery sizeofHaystack args s
  rw [(discovered_iff (hpat ▸ hsize) hpat hcount.2 (htdo hcount.2)).mpr ⟨hcount.1, hun⟩] at hfound
  obtain ⟨s₂, hreset, hidle, -⟩ := hd.reset s₁
  have hshown : chain.shown args L rand 0 = [] := by
    rw [Chain.shown]
    split_ifs <;> rfl
  have hzero : (0 : UInt32) = UInt32.ofNat (0 * chain.shifts args L) := by
    rw [Nat.zero_mul]
    rfl
  have hstart : Passing tap chain args L rand 0 ⟨s₂, 0, 0, 0, []⟩ :=
    ⟨hidle, rfl, rfl, hzero, hshown.symm⟩
  refine ⟨⟨s₂, 0, 0, 0, []⟩, ?_, fun n hgo => ⟨?_, turns_end hd hL ha hstart hgo⟩⟩
  · simp only [jtagTestReady, hfound, hreset]
  · obtain ⟨p, hrun, hp⟩ := turns_pass hd hL ha hstart hgo
    exact ⟨p, hrun, hp.iterations, hp.passed⟩

end Run

theorem twoDevices_answer :
    twoDevices.Answers defaultArgs (irShiftSizeFor defaultArgs twoDevices.info) where
  irLength := List.forall_mem_cons.mpr ⟨rfl, List.forall_mem_cons.mpr ⟨rfl, nofun⟩⟩
  oneByte := by decide
  fits := by decide
  reaches := by decide
  drLength := List.forall_mem_cons.mpr ⟨rfl, List.forall_mem_cons.mpr ⟨rfl, nofun⟩⟩
  room := by decide
  codes := fun _ => List.forall_mem_cons.mpr ⟨rfl, List.forall_mem_cons.mpr ⟨rfl, nofun⟩⟩

theorem jtagTest_passes_twoDevices :
    let L := irShiftSizeFor defaultArgs twoDevices.info
    let loop := turn (chainHandler twoDevices) defaultArgs L twoDevices.info (fun _ => true)
      fun _ => defaultArgs.tapDataPattern
    ∃ start, jtagTestReady (chainHandler twoDevices) 4 defaultArgs ⟨.tlr, [], []⟩ =
        some (twoDevices.info, start) ∧
      (∃ p, turns loop 10 start = .inl p ∧ p.iterations = 10) ∧
      ∃ p, turns loop 11 start = .inr (true, p) ∧ p.failures = 0 := by
  intro L loop
  obtain ⟨start, hready, hrun⟩ :=
    jtagTest_passes (chainHandler twoDevices) twoDevices id (chainHandler_drives twoDevices) 4
      (by decide) defaultArgs ⟨by decide, by decide⟩ (by unfold Chain.Unmatched; decide)
      twoDevices_answer (fun _ => true) (fun _ => defaultArgs.tapDataPattern) ⟨.tlr, [], []⟩
  obtain ⟨⟨p, hgoes, hcount, -⟩, hends⟩ := hrun 10 (by decide)
  obtain ⟨r, hleft, hpassed⟩ := hends (by decide)
  exact ⟨start, hready, ⟨p, hgoes, hcount⟩, r, hleft, hpassed.failures⟩

end LinkedsemiZephyr.Jtag
