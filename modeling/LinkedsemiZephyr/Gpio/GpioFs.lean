import Mathlib.Data.List.FinRange
import Mathlib.Logic.Function.Basic
import LinkedsemiZephyr.Lib.BitMask

/-! `gpio_fs.c`: a chip's create ioctls hand out line handle and line event files and mark
their pins in the chip's `pin_mask`. -/
namespace LinkedsemiZephyr.Gpio
open BitMask

def EBADF : Int := 9
def ENOENT : Int := 2
def ENOMEM : Int := 12
def EINVAL : Int := 22
def ENFILE : Int := 23
def ENOTTY : Int := 25

def gpiohandleRequestInput : UInt32 := 0x01
def gpiohandleRequestOutput : UInt32 := 0x02
def gpiohandleRequestActiveLow : UInt32 := 0x04
def gpiohandleRequestOpenDrain : UInt32 := 0x08
def gpiohandleRequestOpenSource : UInt32 := 0x10
def gpiohandleRequestBiasPullUp : UInt32 := 0x20
def gpiohandleRequestBiasPullDown : UInt32 := 0x40
def gpiohandleRequestBiasDisable : UInt32 := 0x80
def gpiohandleRequestValidFlags : UInt32 :=
  gpiohandleRequestInput ||| gpiohandleRequestOutput ||| gpiohandleRequestActiveLow |||
    gpiohandleRequestOpenDrain ||| gpiohandleRequestOpenSource

def gpioeventRequestRisingEdge : UInt32 := 0x01
def gpioeventRequestFallingEdge : UInt32 := 0x02
def gpioeventRequestValidFlags : UInt32 :=
  gpioeventRequestRisingEdge ||| gpioeventRequestFallingEdge

/-- `flags & bits` as a C condition. -/
abbrev HasFlag (flags bits : UInt32) : Prop := flags &&& bits ≠ 0

abbrev gpioLineHandleMax : Nat := 64
abbrev gpioLineEventMax : Nat := 64

/-- `struct gpio_chip`; a port is one word wide. -/
structure GpioChip where
  pinCount : Nat
  pinMask : BitVec 32 := 0#32
  pinCount_le : pinCount ≤ 32

structure GpiohandleRequest where
  lineoffsets : Vector UInt32 64
  flags : UInt32
  lines : UInt32

/-- The pins of a handle: the first `lines` offsets. -/
def GpiohandleRequest.pins (req : GpiohandleRequest) : List Nat :=
  (req.lineoffsets.toList.take req.lines.toNat).map UInt32.toNat

structure GpioeventRequest where
  lineoffset : UInt32
  handleflags : UInt32
  eventflags : UInt32

/-- `struct gpio_line`, over `k` chips. A slot is free while it has no chip. -/
structure GpioLine (k : Nat) where
  chip : Option (Fin k)
  req : GpiohandleRequest

structure GpioEvent (k : Nat) where
  chip : Option (Fin k)
  req : GpioeventRequest

/-- The paths `/dev/lineN` and `/dev/eventN`. -/
inductive Node where
  | line (i : Fin gpioLineHandleMax)
  | event (i : Fin gpioLineEventMax)
  deriving DecidableEq

/-- The static tables, the anonymous paths devfs knows, and the open files with their
descriptors. `faulted` records a dereference of a NULL chip. -/
structure GpioFs (k : Nat) where
  gpioDevices : Fin k → GpioChip
  gpioLineHandle : Fin gpioLineHandleMax → GpioLine k
  gpioLineEvent : Fin gpioLineEventMax → GpioEvent k
  registered : List Node := []
  files : List (Nat × Node) := []
  faulted : Bool := false

/-- What the rest of the system answers during one call: `devfs_register_anon`, the file
descriptor table, and the pin driver. -/
structure Reply where
  registers : Bool
  fd : Option Nat
  pinConfigure : Int
  interruptConfigure : Int

variable {k : Nat}

namespace GpioFs

/-- After `gpio_fs_init`. -/
def init (gpioDevices : Fin k → GpioChip) : GpioFs k where
  gpioDevices := fun c => { gpioDevices c with pinMask := 0#32 }
  gpioLineHandle := fun _ => ⟨none, .replicate 64 0, 0, 0⟩
  gpioLineEvent := fun _ => ⟨none, 0, 0, 0⟩

def setPinMask (s : GpioFs k) (c : Fin k) (m : BitVec 32) : GpioFs k :=
  { s with gpioDevices := Function.update s.gpioDevices c { s.gpioDevices c with pinMask := m } }

def gpioLineHandleAlloc (s : GpioFs k) : Option (Fin gpioLineHandleMax) :=
  (List.finRange gpioLineHandleMax).find? fun i => (s.gpioLineHandle i).chip.isNone

def gpioLineHandleFree (s : GpioFs k) (i : Fin gpioLineHandleMax) : GpioFs k :=
  { s with
    gpioLineHandle := Function.update s.gpioLineHandle i { s.gpioLineHandle i with chip := none } }

def gpioLineEventAlloc (s : GpioFs k) : Option (Fin gpioLineEventMax) :=
  (List.finRange gpioLineEventMax).find? fun i => (s.gpioLineEvent i).chip.isNone

def gpioLineEventFree (s : GpioFs k) (i : Fin gpioLineEventMax) : GpioFs k :=
  { s with
    gpioLineEvent := Function.update s.gpioLineEvent i { s.gpioLineEvent i with chip := none } }

def free (s : GpioFs k) : Node → GpioFs k
  | .line i => s.gpioLineHandleFree i
  | .event i => s.gpioLineEventFree i

def devfsRegisterAnon (s : GpioFs k) (n : Node) : GpioFs k :=
  { s with registered := n :: s.registered }

def devfsUnregisterAnon (s : GpioFs k) (n : Node) : GpioFs k :=
  { s with registered := s.registered.filter (· ≠ n) }

def gpioLineOpen (s : GpioFs k) (i : Fin gpioLineHandleMax) : Except Int (GpioFs k) :=
  match (s.gpioLineHandle i).chip with
  | none => .error (-EINVAL)
  | some c => .ok (s.setPinMask c (setBits (s.gpioDevices c).pinMask (s.gpioLineHandle i).req.pins))

/-- A slot that was ever filled has a pin, so closing a free one dereferences NULL. -/
def gpioLineClose (s : GpioFs k) (i : Fin gpioLineHandleMax) : GpioFs k :=
  match (s.gpioLineHandle i).chip with
  | none => { s with faulted := true }
  | some c =>
    let s := s.setPinMask c (clearBits (s.gpioDevices c).pinMask (s.gpioLineHandle i).req.pins)
    (s.devfsUnregisterAnon (.line i)).gpioLineHandleFree i

def gpioEventOpen (s : GpioFs k) (i : Fin gpioLineEventMax) (r : Reply) : Except Int (GpioFs k) :=
  match (s.gpioLineEvent i).chip with
  | none => .error (-EINVAL)
  | some c =>
    if r.pinConfigure ≠ 0 then .error r.pinConfigure
    else if r.interruptConfigure ≠ 0 then .error r.interruptConfigure
    else
      let m := (s.gpioDevices c).pinMask ||| bit 32 (s.gpioLineEvent i).req.lineoffset.toNat
      .ok (s.setPinMask c m)

def gpioEventClose (s : GpioFs k) (i : Fin gpioLineEventMax) : GpioFs k :=
  match (s.gpioLineEvent i).chip with
  | none => { s with faulted := true }
  | some c =>
    let m := (s.gpioDevices c).pinMask &&& ~~~bit 32 (s.gpioLineEvent i).req.lineoffset.toNat
    ((s.setPinMask c m).gpioLineEventFree i).devfsUnregisterAnon (.event i)

/-- The open and close operations the two kinds of path are registered with. -/
def openNode (s : GpioFs k) (r : Reply) : Node → Except Int (GpioFs k)
  | .line i => s.gpioLineOpen i
  | .event i => s.gpioEventOpen i r

def closeNode (s : GpioFs k) : Node → GpioFs k
  | .line i => s.gpioLineClose i
  | .event i => s.gpioEventClose i

/-- `open(path, O_RDWR)`: the path has to be registered and the table never gives a
descriptor in use. -/
def openPath (s : GpioFs k) (n : Node) (r : Reply) : Except Int (GpioFs k × Nat) :=
  if n ∉ s.registered then .error (-ENOENT)
  else match r.fd with
    | none => .error (-ENFILE)
    | some fd =>
      if fd ∈ s.files.map Prod.fst then .error (-ENFILE)
      else do
        let s ← s.openNode r n
        pure ({ s with files := (fd, n) :: s.files }, fd)

def fileOf (s : GpioFs k) (fd : Nat) : Option Node := (s.files.find? fun f => f.1 = fd).map Prod.snd

def closeFile (s : GpioFs k) (fd : Nat) : GpioFs k × Int :=
  match s.fileOf fd with
  | none => (s, -EBADF)
  | some n =>
    let s := s.closeNode n
    ({ s with files := s.files.filter fun f => f.1 ≠ fd }, 0)

/-- The checks of `gpio_line_handle_create` before the lock. -/
def gpioLineHandleCheck (req : GpiohandleRequest) (chip : GpioChip) : Except Int Unit :=
  if req.lines = 0 ∨ chip.pinCount < req.lines.toNat then .error (-EINVAL)
  else if ∃ pin ∈ req.pins, chip.pinCount ≤ pin then .error (-EINVAL)
  else if ∃ pin ∈ req.pins, bit 32 pin &&& chip.pinMask ≠ 0#32 then .error (-EINVAL)
  else if HasFlag req.flags (~~~gpiohandleRequestValidFlags) then .error (-EINVAL)
  else if HasFlag req.flags gpiohandleRequestInput ∧ HasFlag req.flags gpiohandleRequestOutput then
    .error (-EINVAL)
  else if HasFlag req.flags gpiohandleRequestOpenDrain ∧
    HasFlag req.flags gpiohandleRequestOpenSource then
    .error (-EINVAL)
  else if ¬ HasFlag req.flags gpiohandleRequestOutput ∧
      (HasFlag req.flags gpiohandleRequestOpenDrain ∨
        HasFlag req.flags gpiohandleRequestOpenSource) then
    .error (-EINVAL)
  else .ok ()

/-- The checks of `gpio_line_event_create` before the lock. -/
def gpioLineEventCheck (req : GpioeventRequest) (chip : GpioChip) : Except Int Unit :=
  let lflags := req.handleflags
  let pin := req.lineoffset.toNat
  if chip.pinCount ≤ pin then .error (-EINVAL)
  else if bit 32 pin &&& chip.pinMask ≠ 0#32 then .error (-EINVAL)
  else if HasFlag lflags (~~~gpiohandleRequestValidFlags) ∨
      HasFlag req.eventflags (~~~gpioeventRequestValidFlags) then .error (-EINVAL)
  else if HasFlag lflags gpiohandleRequestOutput ∨ HasFlag lflags gpiohandleRequestOpenDrain ∨
      HasFlag lflags gpiohandleRequestOpenSource then .error (-EINVAL)
  else if (HasFlag lflags gpiohandleRequestBiasDisable ∧
        HasFlag lflags (gpiohandleRequestBiasPullDown ||| gpiohandleRequestBiasPullUp)) ∨
      (HasFlag lflags gpiohandleRequestBiasPullDown ∧
        HasFlag lflags gpiohandleRequestBiasPullUp) then
    .error (-EINVAL)
  else .ok ()

/-- What both create functions do with the slot they allocated, `filled` being the state
with chip and request written to it: register its path, open it, take both back if that
fails. The result is the ioctl's, and the descriptor left in `req->fd`. -/
def installNode (s filled : GpioFs k) (n : Node) (r : Reply) : GpioFs k × Int × Option Nat :=
  if r.registers then
    match (filled.devfsRegisterAnon n).openPath n r with
    | .ok (s, fd) => (s, 1, some fd)
    | .error e => (((filled.devfsRegisterAnon n).devfsUnregisterAnon n).free n, e, none)
  else (s.free n, 0, none)

def gpioLineHandleInstall (s : GpioFs k) (i : Fin gpioLineHandleMax) (c : Fin k)
    (req : GpiohandleRequest) (r : Reply) : GpioFs k × Int × Option Nat :=
  s.installNode { s with gpioLineHandle := Function.update s.gpioLineHandle i ⟨some c, req⟩ }
    (.line i) r

def gpioLineEventInstall (s : GpioFs k) (i : Fin gpioLineEventMax) (c : Fin k)
    (req : GpioeventRequest) (r : Reply) : GpioFs k × Int × Option Nat :=
  s.installNode { s with gpioLineEvent := Function.update s.gpioLineEvent i ⟨some c, req⟩ }
    (.event i) r

def gpioLineHandleCreate (s : GpioFs k) (req : GpiohandleRequest) (c : Fin k) (r : Reply) :
    GpioFs k × Int × Option Nat :=
  match gpioLineHandleCheck req (s.gpioDevices c) with
  | .error e => (s, e, none)
  | .ok () =>
    match s.gpioLineHandleAlloc with
    | none => (s, -ENOMEM, none)
    | some i => s.gpioLineHandleInstall i c req r

def gpioLineEventCreate (s : GpioFs k) (req : GpioeventRequest) (c : Fin k) (r : Reply) :
    GpioFs k × Int × Option Nat :=
  match gpioLineEventCheck req (s.gpioDevices c) with
  | .error e => (s, e, none)
  | .ok () =>
    match s.gpioLineEventAlloc with
    | none => (s, -ENOMEM, none)
    | some i => s.gpioLineEventInstall i c req r

end GpioFs

/-- The ioctls of line handle and line event files. -/
inductive FileRequest where
  | setLineValues
  | getLineValues
  | setConfig
  | pollPrepare
  | pollUpdate
  | other

namespace GpioFs

/-- `gpio_line_ioctl`, `gpio_event_ioctl`: the line requests go through the slot's chip. -/
def fileIoctl (s : GpioFs k) (fd : Nat) (request : FileRequest) : GpioFs k × Int :=
  match s.fileOf fd, request with
  | none, _ => (s, -EBADF)
  | some (.line i), .setLineValues | some (.line i), .getLineValues | some (.line i), .setConfig =>
    ({ s with faulted := s.faulted || (s.gpioLineHandle i).chip.isNone }, 0)
  | some (.line _), _ => (s, -ENOTTY)
  | some (.event i), .getLineValues =>
    ({ s with faulted := s.faulted || (s.gpioLineEvent i).chip.isNone }, 0)
  | some (.event _), .pollPrepare | some (.event _), .pollUpdate => (s, 0)
  | some (.event _), _ => (s, -ENOTTY)

end GpioFs

/-- `GPIO_GET_LINEHANDLE_IOCTL` and `GPIO_GET_LINEEVENT_IOCTL`. -/
inductive Request where
  | handle (req : GpiohandleRequest)
  | event (req : GpioeventRequest)

def Request.pins : Request → List Nat
  | .handle req => req.pins
  | .event req => [req.lineoffset.toNat]

/-- A node is of the kind a request asks for. -/
def Node.Serves : Node → Request → Prop
  | .line _, .handle _ | .event _, .event _ => True
  | _, _ => False

namespace GpioFs

def check (chip : GpioChip) : Request → Except Int Unit
  | .handle req => gpioLineHandleCheck req chip
  | .event req => gpioLineEventCheck req chip

/-- The node of the slot a create takes. -/
def alloc (s : GpioFs k) : Request → Option Node
  | .handle _ => s.gpioLineHandleAlloc.map .line
  | .event _ => s.gpioLineEventAlloc.map .event

/-- Chip and request written to a slot. -/
def fill (s : GpioFs k) (c : Fin k) : Node → Request → GpioFs k
  | .line i, .handle req =>
      { s with gpioLineHandle := Function.update s.gpioLineHandle i ⟨some c, req⟩ }
  | .event i, .event req =>
      { s with gpioLineEvent := Function.update s.gpioLineEvent i ⟨some c, req⟩ }
  | _, _ => s

def create (s : GpioFs k) (c : Fin k) (r : Reply) : Request → GpioFs k × Int × Option Nat
  | .handle req => s.gpioLineHandleCreate req c r
  | .event req => s.gpioLineEventCreate req c r

theorem create_eq (s : GpioFs k) (c : Fin k) (r : Reply) (req : Request) :
    s.create c r req = match check (s.gpioDevices c) req with
      | .error e => (s, e, none)
      | .ok () => match s.alloc req with
        | none => (s, -ENOMEM, none)
        | some n => s.installNode (s.fill c n req) n r := by
  cases req with
  | handle req =>
      simp only [create, gpioLineHandleCreate, check, alloc]
      cases gpioLineHandleCheck req (s.gpioDevices c) with
      | error e => rfl
      | ok u => cases h : s.gpioLineHandleAlloc <;> rfl
  | event req =>
      simp only [create, gpioLineEventCreate, check, alloc]
      cases gpioLineEventCheck req (s.gpioDevices c) with
      | error e => rfl
      | ok u => cases h : s.gpioLineEventAlloc <;> rfl

end GpioFs

/-- One call of a client; the two create ioctls are made on an open chip file. -/
inductive Action (k : Nat) where
  | create (c : Fin k) (req : Request) (r : Reply)
  | openPath (n : Node) (r : Reply)
  | ioctl (fd : Nat) (request : FileRequest)
  | close (fd : Nat)

def Action.closes : Action k → Option Nat
  | .close fd => some fd
  | _ => none

def GpioFs.step (s : GpioFs k) : Action k → GpioFs k
  | .create c req r => (s.create c r req).1
  | .openPath n r =>
    match s.openPath n r with
    | .ok (s, _) => s
    | .error _ => s
  | .ioctl fd request => (s.fileIoctl fd request).1
  | .close fd => (s.closeFile fd).1

end LinkedsemiZephyr.Gpio
