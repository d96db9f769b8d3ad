import LinkedsemiZephyr.Jtag.ScanChain
import LinkedsemiZephyr.Lib.BodyLoop
import LinkedsemiZephyr.Lib.Buffer

/-! `jtag_test.c`: the discovery of the devices on a chain and the test that reads their
registers over and over. -/
namespace LinkedsemiZephyr.Jtag
open BitStream BodyLoop Octets

def maxTapsSupported : Nat := 16

def sizeofIdCode : Nat := 4

def sizeofTapDataPattern : Nat := 8

def maxTdoSize : Nat := 2048

def maxIrShiftSize : Nat := 0x400

def defaultIrShiftSize : Nat := 11

def defaultDrShiftSize : Nat := 32

def irSigMask : Nat := 0x0FFFFFFF

def uncoreDiscoveryShiftSizeInBits : Nat :=
  (maxTapsSupported * sizeofIdCode + sizeofTapDataPattern) * 8

/-- The signatures of known identification codes, with the sizes of their instruction registers. -/
def irMap : List (Nat × Nat) :=
  [(0x0E7BB013, 14), (0x00044113, 16), (0x00111113, 16), (0x0E7C5013, 14), (0x00155113, 16),
    (0x00128113, 12), (0x00125113, 16), (0x00138113, 12), (0x0E7D4113, 8), (0x0012d113, 16)]

/-- What `parse_arguments` lets through; without `--dr-size` the data registers have 32 bits. -/
structure JtagTestArgs where
  irShiftSize : Nat
  loopForever : Bool
  numIterations : Nat
  irValue : Nat
  drShiftSize : Nat
  manualMode : Bool
  countMode : Bool
  randomMode : Bool
  tapDataPattern : Sized sizeofTapDataPattern
  irShiftSize_le : irShiftSize ≤ maxIrShiftSize
  drShiftSize_le : drShiftSize ≤ maxTdoSize * 8
  drShiftSize_eq : manualMode = false → drShiftSize = defaultDrShiftSize

/-- `idcode` holds the codes that were found, and zeros. -/
structure UncoreInfo where
  idcode : Bytes
  numUncores : Nat

section Buffers

def shiftLeftFrom (carry : UInt8) : Bytes → Bytes
  | [] => []
  | b :: bs => ((b <<< 1) ||| carry) :: shiftLeftFrom (if b &&& 0x80 ≠ 0 then 1 else 0) bs

def shiftLeft (buffer : Bytes) : Bytes := shiftLeftFrom 0 buffer

/-- The bytes after the loop went down to them, and the carry out of the lowest. -/
def shiftRightFrom : Bytes → Bytes × UInt8
  | [] => ([], 0)
  | b :: bs =>
    let (bs, carry) := shiftRightFrom bs
    ((carry ||| (b >>> 1)) :: bs, if b &&& 1 ≠ 0 then 0x80 else 0)

def shiftRight (buffer : Bytes) : Bytes := (shiftRightFrom buffer).1

/-- The first place where as many bytes as `sizeof(haystack)` agree with the needle, or 0. -/
def findPattern (sizeofHaystack : Nat) (haystack : Bytes) (haystackSize : Nat) (needle : Bytes) :
    Nat :=
  ((List.range (haystackSize / 8)).find? fun i =>
    slice haystack i (i + sizeofHaystack) == needle.take sizeofHaystack).getD 0

/-- `ir_command`: for each device the bytes move up and the value is put into the lowest. -/
def irCommand (numUncores irShiftSize irValue : Nat) : Bytes :=
  Nat.iterate (fun c => (Nat.iterate shiftLeft irShiftSize c).set 0 (UInt8.ofNat irValue))
    numUncores
    (List.replicate ((numUncores * irShiftSize + 7) / 8) 0)

/-- `tdo`, its bytes `filler` before, after the bits of a shift were stored into it. -/
def tdoAfter (filler : UInt8) (out : List Bool) : Bytes :=
  (Buffer.write (List.replicate maxTdoSize filler) 0 (pack ((out.length + 7) / 8) out)).take
    maxTdoSize

end Buffers

section Program
variable {σ : Type} (h : Handler σ)

def resetJtagToRTI (jtag : σ) : Bool × σ :=
  match h.setTapState .tlr jtag with
  | (false, jtag) => (false, jtag)
  | (true, jtag) => h.setTapState .rti jtag

/-- The bytes of the identification codes up to where the pattern stands; more than `idcode`
holds are refused. -/
def discovered (tdo : Bytes) (index : Nat) : Option UncoreInfo :=
  let numUncores := index / 32
  if index = 0 ∨ maxTapsSupported * sizeofIdCode < 4 * numUncores then none
  else
    some ⟨tdo.take (4 * numUncores) ++
      List.replicate (maxTapsSupported * sizeofIdCode - 4 * numUncores) 0, numUncores⟩

def uncoreDiscovery (sizeofHaystack : Nat) (args : JtagTestArgs) (jtag : σ) :
    Option UncoreInfo × σ :=
  match resetJtagToRTI h jtag with
  | (false, jtag) => (none, jtag)
  | (true, jtag) =>
    match h.setTapState .shfDr jtag with
    | (false, jtag) => (none, jtag)
    | (true, jtag) =>
      match h.shift uncoreDiscoveryShiftSizeInBits args.tapDataPattern.1 jtag with
      | (none, jtag) => (none, jtag)
      | (some out, jtag) =>
        let tdo := tdoAfter 0xff out
        (discovered tdo (findPattern sizeofHaystack tdo uncoreDiscoveryShiftSizeInBits
          args.tapDataPattern.1 * 8), jtag)

/-- `args.ir_shift_size`, looked up by the first code where it was not given. -/
def irShiftSizeFor (args : JtagTestArgs) (uncore : UncoreInfo) : Nat :=
  if args.irShiftSize = 0 then
    ((irMap.find? fun entry => (leNat (uncore.idcode.take 4) &&& irSigMask) == entry.1).map
      Prod.snd).getD defaultIrShiftSize
  else args.irShiftSize

/-- What the loop of `jtag_test` counts and, in manual mode, logs of the registers. -/
structure Progress (σ : Type) where
  jtag : σ
  iterations : Nat
  totalBits : UInt32
  failures : Nat
  logged : List (List Bool)

/-- The lines of manual mode: a register for each device, and what was shifted in behind them. -/
def manualLog (numUncores drShiftSize : Nat) (tdo : Bytes) : List (List Bool) :=
  (List.range numUncores).map
    (fun i => (bits (Nat.iterate shiftRight (i * drShiftSize) tdo)).take drShiftSize) ++
    [(bits (Nat.iterate shiftRight (numUncores * drShiftSize) tdo)).take (sizeofTapDataPattern * 8)]

def compareData (uncore : UncoreInfo) (pattern : Bytes) : Bytes :=
  let codes := uncore.idcode.take (4 * uncore.numUncores) ++ pattern
  codes ++ List.replicate (maxTapsSupported * sizeofIdCode + 8 - codes.length) 0

/-- The bits of the data registers, logged in manual mode and else compared with the codes. -/
def readOut (args : JtagTestArgs) (uncore : UncoreInfo) (pattern : Bytes) (drBits : Nat)
    (out : List Bool) (s : Progress σ) :
    Bool × Progress σ :=
  let tdo := tdoAfter 0 out
  if args.manualMode then
    (true, { s with logged := s.logged ++ manualLog uncore.numUncores args.drShiftSize tdo })
  else (decide ((compareData uncore pattern).take ((drBits + 7) / 8) = tdo.take ((drBits + 7) / 8)),
    s)

/-- One pass over the loop, to the end or to the failure that ends it. -/
def iteration (args : JtagTestArgs) (irShiftSize : Nat) (uncore : UncoreInfo) (pattern : Bytes)
    (s : Progress σ) :
    Bool × Progress σ :=
  let irBits := irShiftSize * uncore.numUncores
  let drBits := uncore.numUncores * args.drShiftSize + sizeofTapDataPattern * 8
  match h.setTapState .shfIr s.jtag with
  | (false, jtag) => (false, { s with jtag })
  | (true, jtag) =>
    match h.shift irBits (irCommand uncore.numUncores irShiftSize args.irValue) jtag with
    | (none, jtag) => (false, { s with jtag })
    | (some _, jtag) =>
      let totalBits := s.totalBits + UInt32.ofNat irBits
      match h.setTapState .shfDr jtag with
      | (false, jtag) => (false, { s with jtag, totalBits })
      | (true, jtag) =>
        match h.shift drBits pattern jtag with
        | (none, jtag) => (false, { s with jtag, totalBits })
        | (some out, jtag) =>
          readOut args uncore pattern drBits out
            { s with jtag, totalBits := totalBits + UInt32.ofNat drBits }

/-- The pattern shifted in: in random mode one that is drawn for the iteration. -/
def patternAt (args : JtagTestArgs) (rand : Nat → Sized sizeofTapDataPattern) (iteration : Nat) :
    Sized sizeofTapDataPattern :=
  if args.randomMode then rand iteration else args.tapDataPattern

/-- A turn of the loop; `continueLoop` is what the one read of `continue_loop` in each iteration
finds. -/
def turn (args : JtagTestArgs) (irShiftSize : Nat) (uncore : UncoreInfo) (continueLoop : Nat → Bool)
    (rand : Nat → Sized sizeofTapDataPattern) (s : Progress σ) : Progress σ ⊕ Bool × Progress σ :=
  if args.loopForever = false ∧ args.numIterations ≤ s.iterations then .inr (true, s)
  else
    match iteration h args irShiftSize uncore (patternAt args rand s.iterations).1 s with
    | (true, s') =>
        if continueLoop s.iterations then
          .inl { s' with iterations := s.iterations + 1 } else .inr (true, s')
    | (false, s') =>
      if args.countMode && continueLoop s.iterations then
        .inl { s' with failures := s'.failures + 1, iterations := s.iterations + 1 }
      else .inr (false, s')

/-- `jtag_test_main` up to the loop of `jtag_test`: what it found and where the loop starts, or
`none` where it returns -1. -/
def jtagTestReady (sizeofHaystack : Nat) (args : JtagTestArgs) (jtag : σ) :
    Option (UncoreInfo × Progress σ) :=
  match uncoreDiscovery h sizeofHaystack args jtag with
  | (none, _) => none
  | (some uncore, jtag) =>
    match resetJtagToRTI h jtag with
    | (false, _) => none
    | (true, jtag) => some (uncore, ⟨jtag, 0, 0, 0, []⟩)

theorem irShiftSizeFor_pos (args : JtagTestArgs) (uncore : UncoreInfo) :
    0 < irShiftSizeFor args uncore := by
  rw [irShiftSizeFor]
  split_ifs with hgiven
  · have htable : ∀ entry ∈ irMap, 0 < entry.2 := by decide
    cases hfind : irMap.find? fun entry =>
      (leNat (uncore.idcode.take 4) &&& irSigMask) == entry.1 with
    | none => decide
    | some entry => exact htable entry (List.mem_of_find?_eq_some hfind)
  · exact Nat.pos_of_ne_zero hgiven

end Program

section Sample

/-- A device with an instruction register of 8 bits, whose code is behind instruction 2. -/
def sampleDevice (idcode : Sized 4) : Device :=
  ⟨idcode, natBits 8 1, fun r => if r = natBits 8 2 then bits idcode.1 else [false]⟩

theorem length_firstCode : ([0x13, 0x41, 0x7d, 0x0e] : Bytes).length = 4 := rfl

theorem length_secondCode : ([0x13, 0x41, 0x7d, 0x1e] : Bytes).length = 4 := rfl

theorem length_samplePattern :
    ([0x0d, 0xf0, 0xd4, 0xba, 0xef, 0xbe, 0xad, 0xde] : Bytes).length = 8 :=
  rfl

def twoDevices : Chain := [sampleDevice ⟨_, length_firstCode⟩, sampleDevice ⟨_, length_secondCode⟩]

/-- The arguments of `jtag_test` without options. -/
def defaultArgs : JtagTestArgs where
  irShiftSize := 0
  loopForever := false
  numIterations := 10
  irValue := 2
  drShiftSize := defaultDrShiftSize
  manualMode := false
  countMode := false
  randomMode := false
  tapDataPattern := ⟨_, length_samplePattern⟩
  irShiftSize_le := Nat.zero_le _
  drShiftSize_le := by decide
  drShiftSize_eq := fun _ => rfl

end Sample

end LinkedsemiZephyr.Jtag
