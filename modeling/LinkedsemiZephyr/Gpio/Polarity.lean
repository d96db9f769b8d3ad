import LinkedsemiZephyr.Gpio.PinConfigure
import LinkedsemiZephyr.Lib.LastWrite

/-! The levels a line handle drives and reads, against the values its client sets and the
ACTIVE_LOW flag it asks for. -/
namespace LinkedsemiZephyr.Gpio
open BitMask GuardedRun LastWrite

/-- The flag bits of the driver interface, as far as levels go: the one that inverts is none
of the others, and neither is the one of outputs. -/
structure PinFlags extends GpioFlags where
  gpioActiveLow : UInt32
  output_set : gpioOutput ≠ 0
  output_apart : ∀ m ∈
    [gpioInput, gpioOutputInitLow, gpioOpenDrain, gpioOpenSource, gpioPullUp, gpioPullDown,
    gpioDisconnected], m &&& gpioOutput = 0
  activeLow_apart : ∀ m ∈
    [gpioInput, gpioOutput, gpioOutputInitLow, gpioOpenDrain, gpioOpenSource, gpioPullUp,
    gpioPullDown, gpioDisconnected], m &&& gpioActiveLow = 0

/-- A port: the pins whose values are inverted, and the levels driven. -/
structure Port where
  invert : Nat → Bool
  level : Nat → Bool

/-- The last argument of `gpio_pin_set`, a `uint8_t` of a client's array. -/
abbrev LineValues := Vector UInt8 64

def LineValues.isSet (values : LineValues) (i : Nat) : Bool := values.toList.getD i 0 != 0

namespace Port

/-- `gpio_pin_configure`: GPIO_ACTIVE_LOW selects the inversion. -/
def gpioPinConfigure (G : PinFlags) (p : Port) (pin : Nat) (flags : UInt32) : Port where
  invert := Function.update p.invert pin (decide (HasFlag flags G.gpioActiveLow))
  level := if HasFlag flags G.gpioOutputInitLow then Function.update p.level pin false else p.level

def gpioPinSet (p : Port) (pin : Nat) (value : Bool) : Port :=
  { p with level := Function.update p.level pin (value ^^ p.invert pin) }

/-- `gpio_port_get`, from the levels on the pins. -/
def gpioPortGet (p : Port) (raw : Nat → Bool) (pin : Nat) : Bool := raw pin ^^ p.invert pin

/-- One pass of the loop in `gpio_line_open` and in SET_CONFIG; a line is its pin and its
place in the request. -/
def configureLine (G : PinFlags) (flags : UInt32) (values : LineValues) (p : Port)
    (line : Nat × Nat) : Port :=
  let p := p.gpioPinConfigure G line.1 flags
  if HasFlag flags G.gpioOutput then p.gpioPinSet line.1 (values.isSet line.2) else p

def setLine (values : LineValues) (p : Port) (line : Nat × Nat) : Port :=
  p.gpioPinSet line.1 (values.isSet line.2)

end Port

/-- A request that a create accepts, with its `default_values`. -/
structure LineRequest extends GpiohandleRequest where
  defaultValues : LineValues
  chip : GpioChip
  accepted : GpioFs.gpioLineHandleCheck toGpiohandleRequest chip = .ok ()

namespace LineRequest

/-- The lines of a request, each with its place. -/
def placed (req : LineRequest) : List (Nat × Nat) := req.pins.zipIdx

/-- Lines on one pin are given one value. -/
def Agree (req : LineRequest) (values : LineValues) : Prop :=
  ∀ line ∈ req.placed, ∀ other ∈ req.placed, line.1 = other.1 →
    values.isSet line.2 = values.isSet other.2

end LineRequest

/-- What is done with a handle: the open of a create, or a further one, and the ioctls, with
accepted flags. -/
inductive LineOp where
  | lineOpen
  | setConfig (lflags : UInt32) (accepted : ¬ Contradictory lflags) (values : LineValues)
  | setLineValues (values : LineValues)
  | getLineValues (raw : Nat → Bool)

/-- A handle and its port, with the flags applied last and the last value set for each line. -/
structure LineHandle where
  req : LineRequest
  port : Port
  flags : UInt32 := 0
  last : Nat → Bool := fun _ => false

namespace LineHandle

def activeLow (flags : UInt32) : Bool := decide (HasFlag flags gpiohandleRequestActiveLow)

/-- The loop of `gpio_line_open` and of SET_CONFIG. -/
def configure (G : PinFlags) (s : LineHandle) (lflags : UInt32) (values : LineValues) :
    LineHandle :=
  let flags := reqFlag2GpioFlag G.toGpioFlags lflags
  { s with
    port := s.req.placed.foldl (Port.configureLine G flags values) s.port
    flags := lflags
    last := if HasFlag lflags gpiohandleRequestOutput then values.isSet else s.last }

def setValues (s : LineHandle) (values : LineValues) : LineHandle :=
  { s with port := s.req.placed.foldl (Port.setLine values) s.port, last := values.isSet }

/-- The values GET_LINE_VALUES returns, with the levels on the pins. -/
def getValues (s : LineHandle) (raw : Nat → Bool) : List Bool :=
  s.req.pins.map (s.port.gpioPortGet raw)

def step (G : PinFlags) (s : LineHandle) : LineOp → LineHandle
  | .lineOpen => s.configure G s.req.flags s.req.defaultValues
  | .setConfig lflags _ values => s.configure G lflags values
  | .setLineValues values => s.setValues values
  | .getLineValues _ => s

/-- Every output line has the level of its last value, inverted for ACTIVE_LOW. -/
def Driven (s : LineHandle) : Prop :=
  HasFlag s.flags gpiohandleRequestOutput →
    ∀ line ∈ s.req.placed, s.port.level line.1 = (s.last line.2 ^^ activeLow s.flags)

/-- What GET_LINE_VALUES returns is the level of each line, inverted for ACTIVE_LOW. -/
def Reads (s : LineHandle) : LineOp → Prop
  | .getLineValues raw =>
    ∀ line ∈ s.req.placed, (s.getValues raw)[line.2]? = some (raw line.1 ^^ activeLow s.flags)
  | _ => True

/-- The polarity is honoured by an operation and after it. -/
def Honoured (G : PinFlags) (s : LineHandle) (op : LineOp) : Prop :=
  Driven (s.step G op) ∧ Reads s op

/-- ACTIVE_LOW is not applied to outputs, and not in force at a GET_LINE_VALUES. -/
def Upright (s : LineHandle) : LineOp → Prop
  | .lineOpen => HasFlag s.req.flags gpiohandleRequestOutput →
      ¬ HasFlag s.req.flags gpiohandleRequestActiveLow ∧ s.req.Agree s.req.defaultValues
  | .setConfig lflags _ values => HasFlag lflags gpiohandleRequestOutput →
      ¬ HasFlag lflags gpiohandleRequestActiveLow ∧ s.req.Agree values
  | .setLineValues values => HasFlag s.flags gpiohandleRequestOutput → s.req.Agree values
  | .getLineValues _ => ¬ HasFlag s.flags gpiohandleRequestActiveLow

/-- A handle that was configured: nothing is inverted, and outputs are as they were set. -/
structure Configured (s : LineHandle) : Prop where
  plain : ∀ line ∈ s.req.placed, s.port.invert line.1 = false
  upright : HasFlag s.flags gpiohandleRequestOutput → ¬ HasFlag s.flags gpiohandleRequestActiveLow
  driven : Driven s

end LineHandle

section Flags
variable {G : PinFlags} {flags : UInt32}

theorem ite_and (c : Prop) [Decidable c] {b m : UInt32} (hb : b &&& m = 0) :
    (if c then b else 0) &&& m = 0 := by
  split
  · exact hb
  · exact UInt32.zero_and

theorem reqFlag2GpioFlag_apart {m : UInt32}
    (h : ∀ b ∈ [G.gpioInput, G.gpioOutput, G.gpioOutputInitLow, G.gpioOpenDrain, G.gpioOpenSource,
      G.gpioPullUp, G.gpioPullDown, G.gpioDisconnected], b &&& m = 0) :
    reqFlag2GpioFlag G.toGpioFlags flags &&& m = 0 := by
  simp only [List.forall_mem_cons] at h
  obtain ⟨hin, hout, hlow, hdrain, hsource, hup, hdown, hdis, -⟩ := h
  unfold reqFlag2GpioFlag
  split
  · exact hdis
  · simp only [or_and, ite_and _ hin, ite_and _ hout, ite_and _ hlow, ite_and _ hdrain,
      ite_and _ hsource, ite_and _ hup, ite_and _ hdown, UInt32.or_zero]

/-- ACTIVE_LOW never reaches the driver. -/
theorem reqFlag2GpioFlag_activeLow :
    ¬ HasFlag (reqFlag2GpioFlag G.toGpioFlags flags) G.gpioActiveLow :=
  not_not_intro (reqFlag2GpioFlag_apart G.activeLow_apart)

theorem biasDisable_rejected (h : ¬ Contradictory flags) :
    ¬ HasFlag flags gpiohandleRequestBiasDisable := by
  have hvalid : flags &&& ~~~gpiohandleRequestValidFlags = 0 := by
    by_contra hbad
    exact h (.inr (.inr (.inr hbad)))
  have hbit : gpiohandleRequestBiasDisable =
      ~~~gpiohandleRequestValidFlags &&& gpiohandleRequestBiasDisable := by
    decide
  intro hbias
  rw [HasFlag, hbit, ← UInt32.and_assoc, hvalid, UInt32.zero_and] at hbias
  exact hbias rfl

theorem reqFlag2GpioFlag_output (h : ¬ Contradictory flags) :
    HasFlag (reqFlag2GpioFlag G.toGpioFlags flags) G.gpioOutput ↔
      HasFlag flags gpiohandleRequestOutput := by
  have hapart := G.output_apart
  simp only [List.forall_mem_cons] at hapart
  obtain ⟨hin, hlow, hdrain, hsource, hup, hdown, -⟩ := hapart
  rw [reqFlag2GpioFlag, if_neg (biasDisable_rejected h)]
  simp only [HasFlag, or_and, ite_and _ hin, ite_and _ hlow, ite_and _ hdrain, ite_and _ hsource,
    ite_and _ hup, ite_and _ hdown, UInt32.or_zero, UInt32.zero_or]
  by_cases hout : HasFlag flags gpiohandleRequestOutput
  · rw [if_pos hout, UInt32.and_self]
    exact iff_of_true G.output_set hout
  · rw [if_neg hout, UInt32.zero_and]
    exact iff_of_false (not_not_intro rfl) hout

end Flags

section Loops
variable {G : PinFlags} {flags : UInt32} {values : LineValues} {p : Port}

/-- A configured line is inverted for the driver's own ACTIVE_LOW. -/
theorem configureLine_invert (G : PinFlags) (flags : UInt32) (values : LineValues) :
    Writes (fun _ => True) Port.invert (Port.configureLine G flags values) Prod.fst
      (fun _ => decide (HasFlag flags G.gpioActiveLow)) where
  keep := fun _ _ _ => trivial
  self := fun p line _ => by
    simp only [Port.configureLine, Port.gpioPinSet, Port.gpioPinConfigure]
    split <;> exact Function.update_self ..
  other := fun p line k hk => by
    simp only [Port.configureLine, Port.gpioPinSet, Port.gpioPinConfigure]
    split <;> exact Function.update_of_ne hk ..

/-- A configured output has the value given with it, whatever it is initialised to. -/
theorem configureLine_level (values : LineValues) (hout : HasFlag flags G.gpioOutput) :
    Writes (fun _ => True) Port.level (Port.configureLine G flags values) Prod.fst
      (fun line => values.isSet line.2 ^^ decide (HasFlag flags G.gpioActiveLow)) where
  keep := fun _ _ _ => trivial
  self := fun p line _ => by
    simp only [Port.configureLine, if_pos hout, Port.gpioPinSet, Port.gpioPinConfigure,
      Function.update_self]
  other := fun p line k hk => by
    simp only [Port.configureLine, if_pos hout, Port.gpioPinSet, Port.gpioPinConfigure,
      Function.update_of_ne hk]
    split
    · exact Function.update_of_ne hk ..
    · rfl

theorem setLine_level (values : LineValues) (invert : Nat → Bool) :
    Writes (fun p : Port => p.invert = invert) Port.level (Port.setLine values) Prod.fst
      (fun line => values.isSet line.2 ^^ invert line.1) where
  keep := fun _ _ h => h
  self := fun p line h => by
    simp only [Port.setLine, Port.gpioPinSet, Function.update_self, h]
  other := fun p line k hk => Function.update_of_ne hk ..

end Loops

namespace LineRequest
variable {req : LineRequest} {values : LineValues}

theorem exists_line (req : LineRequest) : ∃ line, line ∈ req.placed := by
  have hlines : req.lines ≠ 0 := by
    intro hzero
    have hcheck := req.accepted
    rw [GpioFs.gpioLineHandleCheck, if_pos (.inl hzero)] at hcheck
    cases hcheck
  have hpos : 0 < req.lines.toNat := Nat.pos_of_ne_zero fun h => hlines (UInt32.toNat_inj.mp h)
  have hlength : 0 < req.placed.length := by
    simp only [placed, GpiohandleRequest.pins, List.length_zipIdx, List.length_map,
      List.length_take, Vector.length_toList]
    omega
  exact ⟨req.placed[0], List.getElem_mem hlength⟩

theorem not_contradictory (req : LineRequest) : ¬ Contradictory req.flags := by
  intro h
  have hcheck := req.accepted
  rw [GpioFs.handleCheck_rejects h] at hcheck
  cases hcheck

/-- Where each pin has the value of one of its lines, each line has its own just when those
on one pin agree. -/
theorem levels_iff_agree {level : Nat → Bool}
    (h : ∀ line ∈ req.placed, ∃ last ∈ req.placed, last.1 = line.1 ∧
      level line.1 = values.isSet last.2) :
    (∀ line ∈ req.placed, level line.1 = values.isSet line.2) ↔ req.Agree values := by
  constructor
  · intro hown line hline other hother hpin
    rw [← hown line hline, ← hown other hother, hpin]
  · intro hagree line hline
    obtain ⟨last, hlast, hpin, hlevel⟩ := h line hline
    rw [hlevel]
    exact hagree last hlast line hline hpin

end LineRequest

namespace LineHandle
variable {G : PinFlags} {s : LineHandle} {w : UInt32} {values : LineValues}

theorem configure_plain (s : LineHandle) (w : UInt32) (values : LineValues) :
    ∀ line ∈ s.req.placed, (s.configure G w values).port.invert line.1 = false := by
  intro line hline
  obtain ⟨last, -, -, hinvert⟩ :=
    (configureLine_invert G (reqFlag2GpioFlag G.toGpioFlags w) values).foldl_mem
      (s := s.port) trivial (List.mem_map_of_mem hline)
  rw [configure, hinvert]
  exact decide_eq_false reqFlag2GpioFlag_activeLow

theorem configure_level (s : LineHandle) (hw : ¬ Contradictory w)
    (hout : HasFlag w gpiohandleRequestOutput) (values : LineValues) :
    ∀ line ∈ s.req.placed, ∃ last ∈ s.req.placed, last.1 = line.1 ∧
      (s.configure G w values).port.level line.1 = values.isSet last.2 := by
  intro line hline
  have houtput := (reqFlag2GpioFlag_output (G := G) hw).mpr hout
  obtain ⟨last, hlast, hpin, hlevel⟩ :=
    (configureLine_level values houtput).foldl_mem (s := s.port) trivial
      (List.mem_map_of_mem hline)
  rw [decide_eq_false reqFlag2GpioFlag_activeLow, Bool.xor_false] at hlevel
  exact ⟨last, hlast, hpin, hlevel⟩

/-- A flag word drives the levels it asks for just when it asks for none inverted. -/
theorem configure_driven_iff (s : LineHandle) (hw : ¬ Contradictory w) (values : LineValues) :
    Driven (s.configure G w values) ↔ (HasFlag w gpiohandleRequestOutput →
      ¬ HasFlag w gpiohandleRequestActiveLow ∧ s.req.Agree values) := by
  apply imp_congr_right
  intro hout
  have hlevel := configure_level (G := G) s hw hout values
  have hset : (s.configure G w values).last = values.isSet := if_pos hout
  have hlow : activeLow (s.configure G w values).flags = activeLow w := rfl
  rw [hset, hlow]
  by_cases hactive : HasFlag w gpiohandleRequestActiveLow
  · refine iff_of_false (fun hdriven => ?_) fun h => h.1 hactive
    obtain ⟨line, hline⟩ := s.req.exists_line
    obtain ⟨last, hlast, hpin, hplain⟩ := hlevel line hline
    have hinverted := hdriven last hlast
    rw [hpin, hplain, activeLow, decide_eq_true hactive, Bool.xor_true] at hinverted
    exact (Bool.eq_not_self _).mp hinverted
  · rw [and_iff_right hactive, activeLow, decide_eq_false hactive, ← s.req.levels_iff_agree hlevel]
    simp only [Bool.xor_false]
    rfl

theorem configure_configured (s : LineHandle) (hw : ¬ Contradictory w)
    (hup : HasFlag w gpiohandleRequestOutput → ¬ HasFlag w gpiohandleRequestActiveLow ∧
      s.req.Agree values) :
    Configured (s.configure G w values) :=
  ⟨configure_plain s w values, fun hout => (hup hout).1, (configure_driven_iff s hw values).mpr hup⟩

theorem setValues_invert (s : LineHandle) (values : LineValues) :
    (s.setValues values).port.invert = s.port.invert :=
  (setLine_level values s.port.invert).foldl_keep rfl s.req.placed

theorem Configured.setValues_driven_iff (hs : Configured s) (values : LineValues) :
    Driven (s.setValues values) ↔
      (HasFlag s.flags gpiohandleRequestOutput → s.req.Agree values) := by
  apply imp_congr_right
  intro hout
  have hlevel : ∀ line ∈ s.req.placed, ∃ last ∈ s.req.placed, last.1 = line.1 ∧
      (s.setValues values).port.level line.1 = values.isSet last.2 := by
    intro line hline
    obtain ⟨last, hlast, hpin, hset⟩ :=
      (setLine_level values s.port.invert).foldl_mem (s := s.port) rfl
        (List.mem_map_of_mem hline)
    rw [hs.plain last hlast, Bool.xor_false] at hset
    exact ⟨last, hlast, hpin, hset⟩
  have hlow : activeLow (s.setValues values).flags = false := decide_eq_false (hs.upright hout)
  rw [hlow, ← s.req.levels_iff_agree hlevel]
  simp only [Bool.xor_false]
  rfl

theorem Configured.setValues (hs : Configured s)
    (hup : HasFlag s.flags gpiohandleRequestOutput → s.req.Agree values) :
    Configured (s.setValues values) := by
  refine ⟨fun line hline => ?_, hs.upright, (hs.setValues_driven_iff values).mpr hup⟩
  rw [setValues_invert]
  exact hs.plain line hline

theorem Configured.getValues_eq (hs : Configured s) (raw : Nat → Bool) {line : Nat × Nat}
    (hline : line ∈ s.req.placed) : (s.getValues raw)[line.2]? = some (raw line.1) := by
  have hpin : s.req.pins[line.2]? = some line.1 := List.mem_zipIdx_iff_getElem?.mp hline
  rw [getValues, List.getElem?_map, hpin, Option.map_some, Port.gpioPortGet, hs.plain line hline,
    Bool.xor_false]

theorem Configured.reads_iff (hs : Configured s) (raw : Nat → Bool) :
    Reads s (.getLineValues raw) ↔ ¬ HasFlag s.flags gpiohandleRequestActiveLow := by
  constructor
  · intro hreads hactive
    obtain ⟨line, hline⟩ := s.req.exists_line
    have hread := hreads line hline
    rw [hs.getValues_eq raw hline, activeLow, decide_eq_true hactive, Bool.xor_true] at hread
    exact (Bool.eq_not_self _).mp (Option.some.inj hread)
  · intro hactive line hline
    rw [hs.getValues_eq raw hline, activeLow, decide_eq_false hactive, Bool.xor_false]

theorem Configured.honoured_iff (hs : Configured s) (op : LineOp) :
    Honoured G s op ↔ Upright s op := by
  cases op with
  | lineOpen =>
      exact (and_iff_left trivial).trans (configure_driven_iff s s.req.not_contradictory _)
  | setConfig lflags accepted values =>
      exact (and_iff_left trivial).trans (configure_driven_iff s accepted values)
  | setLineValues values => exact (and_iff_left trivial).trans (hs.setValues_driven_iff values)
  | getLineValues raw => exact (and_iff_right hs.driven).trans (hs.reads_iff raw)

theorem Configured.step (hs : Configured s) {op : LineOp} (hop : Upright s op) :
    Configured (s.step G op) := by
  cases op with
  | lineOpen => exact configure_configured s s.req.not_contradictory hop
  | setConfig lflags accepted values => exact configure_configured s accepted hop
  | setLineValues values => exact hs.setValues hop
  | getLineValues raw => exact hs

/-- From its create on, a handle honours the polarity all along a run just when every
operation is upright where it is made. -/
theorem honoured_iff_upright (G : PinFlags) (req : LineRequest) (port : Port) (ops : List LineOp) :
    Follows (step G) (Honoured G) ⟨req, port, 0, fun _ => false⟩ (.lineOpen :: ops) ↔
      Follows (step G) Upright ⟨req, port, 0, fun _ => false⟩ (.lineOpen :: ops) := by
  have hopen : Honoured G ⟨req, port, 0, fun _ => false⟩ .lineOpen ↔
      Upright ⟨req, port, 0, fun _ => false⟩ .lineOpen :=
    (and_iff_left trivial).trans (configure_driven_iff _ req.not_contradictory _)
  rw [Follows, Follows, hopen]
  apply and_congr_right
  intro hup
  have hconfigured :=
    configure_configured (G := G) ⟨req, port, 0, fun _ => false⟩ req.not_contradictory hup
  exact follows_iff_follows hconfigured (fun _ _ hs hop => hs.step hop) fun _ op hs =>
    hs.honoured_iff op

/-- The flag bits of the driver interface. -/
def zephyrPinFlags : PinFlags where
  gpioInput := 0x10000
  gpioOutput := 0x20000
  gpioOutputInitLow := 0x40000
  gpioOpenDrain := 0x06
  gpioOpenSource := 0x02
  gpioPullUp := 0x10
  gpioPullDown := 0x20
  gpioDisconnected := 0
  gpioActiveLow := 0x01
  output_set := by decide
  output_apart := List.forall_iff_forall_mem.mp (by decide)
  activeLow_apart := List.forall_iff_forall_mem.mp (by decide)

/-- Pin 3 as an active-low output with value 1. -/
def activeLowOutput : LineRequest where
  lineoffsets := .replicate 64 3
  flags := gpiohandleRequestOutput ||| gpiohandleRequestActiveLow
  lines := 1
  defaultValues := .replicate 64 1
  chip := ⟨16, 0#32, by decide⟩
  accepted := by decide +kernel

/-- The pin is driven high. -/
theorem honoured_activeLowOutput :
    ¬ Follows (step zephyrPinFlags) (Honoured zephyrPinFlags)
      ⟨activeLowOutput, ⟨fun _ => false, fun _ => false⟩, 0, fun _ => false⟩ [.lineOpen] := by
  intro h
  have hdriven := h.1.1 (by decide) (3, 0) (by decide +kernel)
  exact absurd hdriven (by decide +kernel)

end LineHandle

end LinkedsemiZephyr.Gpio
