import LinkedsemiZephyr.Lib.BitStream

/-! The devices on a JTAG chain, and the handler that moves their TAPs and shifts bits through
them. The handler is a parameter; what it is relied on for is that it drives the chain. -/
namespace LinkedsemiZephyr.Jtag
open BitStream Octets

/-- The states the test asks for. -/
inductive TapState where
  | tlr | rti | shfDr | shfIr
  deriving DecidableEq, Repr

/-- What of a device can be shifted out: its identification code, selected by a reset, what
Capture-IR loads, and the data register an instruction selects. -/
structure Device where
  idcode : Sized 4
  irCapture : List Bool
  dataRegister : List Bool → List Bool

def Device.irLength (d : Device) : Nat := d.irCapture.length

/-- The first device is the one next to TDO. -/
abbrev Chain := List Device

def Chain.idcodes (chain : Chain) : Bytes := chain.flatMap fun d => d.idcode.1

/-- The instruction each device latches of the bits in the instruction registers. -/
def Chain.latched (chain : Chain) (r : List Bool) : List (List Bool) :=
  pieces (chain.map Device.irLength) r

/-- The state of the TAPs, the selected data registers as Capture-DR loads them, and what lies
between TDI and TDO. -/
structure Tap where
  state : TapState
  selected : List (List Bool)
  register : List Bool

namespace Tap

/-- Update-IR on the way out of Shift-IR. -/
def leave (chain : Chain) (t : Tap) : Tap :=
  if t.state = .shfIr then
    { t with selected := List.zipWith Device.dataRegister chain (chain.latched t.register) }
  else t

/-- Nothing is latched on the way out of Run-Test/Idle. -/
theorem leave_idle {chain : Chain} {t : Tap} (ht : t.state = .rti) : t.leave chain = t :=
  if_neg (ht ▸ nofun)

def enter (chain : Chain) (t : Tap) (state : TapState) : Tap :=
  match state with
  | .tlr => { t with state, selected := chain.map fun d => bits d.idcode.1 }
  | .rti => { t with state }
  | .shfDr => { t with state, register := t.selected.flatten }
  | .shfIr => { t with state, register := (chain.map Device.irCapture).flatten }

def goto (chain : Chain) (t : Tap) (state : TapState) : Tap := enter chain (leave chain t) state

/-- What is left in the registers after bits were shifted in. -/
def shifted (t : Tap) (fed : List Bool) : Tap :=
  { t with register := (t.register ++ fed).drop fed.length }

end Tap

/-- `JTAG_set_tap_state`, and `JTAG_shift` of a number of bits into Run-Test/Idle; `false` and
`none` where they do not return `ST_OK`. -/
structure Handler (σ : Type) where
  setTapState : TapState → σ → Bool × σ
  shift : Nat → Bytes → σ → Option (List Bool) × σ

/-- The bits shifted in begin with those of the input; what follows them is the handler's. -/
def Fed (numberOfBits : Nat) (input : Bytes) (fed : List Bool) : Prop :=
  fed.length = numberOfBits ∧ (bits input).take numberOfBits <+: fed

/-- Behind the handler's state are the TAPs of a chain, and no call fails. -/
structure Drives {σ : Type} (h : Handler σ) (chain : Chain) (tap : σ → Tap) : Prop where
  setTapState : ∀ state s, ∃ s', h.setTapState state s = (true, s') ∧
    tap s' = (tap s).goto chain state
  shift : ∀ numberOfBits input s, ∃ fed s', Fed numberOfBits input fed ∧
    h.shift numberOfBits input s = (some (((tap s).register ++ fed).take numberOfBits), s') ∧
    tap s' = ((tap s).shifted fed).goto chain .rti

/-- A handler that is the chain itself and shifts zeros in behind the input. -/
def chainHandler (chain : Chain) : Handler Tap where
  setTapState state t := (true, t.goto chain state)
  shift n input t :=
    let fed := (bits input ++ List.replicate n false).take n
    (some ((t.register ++ fed).take n), (t.shifted fed).goto chain .rti)

theorem chainHandler_drives (chain : Chain) : Drives (chainHandler chain) chain id := by
  constructor
  · exact fun state t => ⟨t.goto chain state, rfl, rfl⟩
  · intro n input t
    refine ⟨(bits input ++ List.replicate n false).take n, _, ⟨?_, ?_⟩, rfl, rfl⟩
    · rw [List.length_take, List.length_append, List.length_replicate]
      omega
    · rw [List.take_append]
      exact List.prefix_append _ _

section Chain
variable {chain : Chain}

theorem length_idcodes (chain : Chain) : chain.idcodes.length = 4 * chain.length := by
  induction chain with
  | nil => rfl
  | cons d chain ih =>
      change (d.idcode.1 ++ Chain.idcodes chain).length = _
      rw [List.length_append, ih, d.idcode.2, List.length_cons]
      omega

theorem flatten_idcodes (chain : Chain) :
    (chain.map fun d => bits d.idcode.1).flatten = bits chain.idcodes := by
  induction chain with
  | nil => rfl
  | cons d chain ih =>
      rw [List.map_cons, List.flatten_cons, ih]
      exact (bits_append d.idcode.1 (Chain.idcodes chain)).symm

end Chain

end LinkedsemiZephyr.Jtag
