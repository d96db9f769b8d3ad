import LinkedsemiZephyr.Lib.GuardedRun
import LinkedsemiZephyr.Xhci.EventRing

/-! The calls of `xhci.c` that wait for an event: one thread that enqueues TRBs and waits,
a controller that executes them and posts events, and `xhci_isr` between the two. -/
namespace LinkedsemiZephyr.Xhci

def trbIsp : UInt32 := (1 : UInt32) <<< 2
def trbIoc : UInt32 := (1 : UInt32) <<< 5
def trbIdt : UInt32 := (1 : UInt32) <<< 6
def trbBsr : UInt32 := (1 : UInt32) <<< 9
def trbDirIn : UInt32 := (1 : UInt32) <<< 16
def trbDataIn : UInt32 := 3
def trbDataOut : UInt32 := 2

def trbTrt (p : UInt32) : UInt32 := p <<< 16

def trbNormal : UInt32 := 1
def trbSetup : UInt32 := 2
def trbData : UInt32 := 3
def trbStatus : UInt32 := 4
def trbEnableSlot : UInt32 := 9
def trbDisableSlot : UInt32 := 10
def trbAddrDev : UInt32 := 11
def trbConfigEp : UInt32 := 12
def trbResetEp : UInt32 := 14
def trbSetDeq : UInt32 := 16
def trbResetDev : UInt32 := 17
def trbCmdNoop : UInt32 := 23

def compSuccess : UInt32 := 1
def compStallError : UInt32 := 6
def compShortPacket : UInt32 := 13

def getCompCode (status : UInt32) : UInt32 := (status &&& 0xff000000) >>> 24

/-- The residual length in the status field of an event. -/
def residual (status : UInt32) : UInt32 := status &&& 0xffffff

def trbToSlotId (control : UInt32) : UInt32 := (control &&& 0xff000000) >>> 24

def slotIdForTrb (slot : UInt32) : UInt32 := (slot &&& 0xff) <<< 24

def epIdForTrb (ep : UInt32) : UInt32 := ((ep + 1) &&& 0x1f) <<< 16

def xhciRingTrbMaxNum : Nat := 32

/-- The rings TRBs are enqueued on: `cmd_ring`, and `ep_ring` of an endpoint of a slot. -/
inductive RingKey where
  | command
  | endpoint (slot epIndex : UInt32)
  deriving DecidableEq, Repr

/-- `xhci_ep_2_index` of a control and of any other endpoint. -/
def controlEpIndex (ep : UInt8) : UInt32 := (ep &&& 0xf).toUInt32 * 2
def otherEpIndex (ep : UInt8) : UInt32 :=
  (ep &&& 0xf).toUInt32 * 2 - if ep &&& 0x80 ≠ 0 then 0 else 1

structure UsbSetupPacket where
  bmRequestType : UInt8
  bRequest : UInt8
  wValue : UInt16
  wIndex : UInt16
  wLength : UInt16
  deriving DecidableEq, Repr

def UsbSetupPacket.isIn (req : UsbSetupPacket) : Prop := req.bmRequestType &&& 0x80 ≠ 0

instance (req : UsbSetupPacket) : Decidable req.isIn := inferInstanceAs (Decidable (_ ≠ _))

/-- The command each `xhci_cmd_*` submits; `inputCtx` is the address of the input context. -/
inductive Command where
  | enableSlot
  | disableSlot (slot : UInt32)
  | noop
  | addressDevice (slot : UInt32) (inputCtx : Nat) (bsr : Bool)
  | addEndpoint (slot : UInt32) (inputCtx : Nat)
  | resetDevice (slot : UInt32)
  | resetStallEndpoint (slot epIndex : UInt32)
  | setDeqEndpoint (slot epIndex : UInt32)
  deriving DecidableEq, Repr

/-- A call that waits for its completion. -/
inductive Call where
  | command (c : Command)
  | control (slot : UInt32) (ep : UInt8) (req : UsbSetupPacket) (data : Nat) (length : UInt32)
  | bulk (slot : UInt32) (ep : UInt8) (data : Nat) (length : UInt32)
  deriving DecidableEq, Repr

/-- The ring a call enqueues on. -/
def Call.key : Call → RingKey
  | .command _ => .command
  | .control slot ep _ _ _ => .endpoint slot (controlEpIndex ep)
  | .bulk slot ep _ _ => .endpoint slot (otherEpIndex ep)

abbrev Rings := RingKey → XhciRing × List XhciTrb

/-- The TRB of a command, for the cycle bit of `cmd_ring`. `xhci_cmd_reset_device` builds
its control word in `.status`. -/
def Command.trb (rings : Rings) (cycleBit : UInt32) : Command → XhciTrb
  | .enableSlot => ⟨0, 0, trbType trbEnableSlot ||| cycleBit⟩
  | .disableSlot slot => ⟨0, 0, trbType trbDisableSlot ||| slotIdForTrb slot ||| cycleBit⟩
  | .noop => ⟨0, 0, trbType trbCmdNoop ||| cycleBit⟩
  | .addressDevice slot inputCtx bsr =>
    ⟨inputCtx, 0, slotIdForTrb slot ||| trbType trbAddrDev |||
      (if bsr then trbBsr else 0) ||| cycleBit⟩
  | .addEndpoint slot inputCtx =>
      ⟨inputCtx, 0, slotIdForTrb slot ||| trbType trbConfigEp ||| cycleBit⟩
  | .resetDevice slot => ⟨0, trbType trbResetDev ||| slotIdForTrb slot ||| cycleBit, 0⟩
  | .resetStallEndpoint slot epIndex =>
    ⟨0, 0, trbType trbResetEp ||| slotIdForTrb slot ||| epIdForTrb epIndex ||| cycleBit⟩
  | .setDeqEndpoint slot epIndex =>
    ⟨(rings (.endpoint slot epIndex)).1.deq, 0,
      trbType trbSetDeq ||| slotIdForTrb slot ||| epIdForTrb epIndex ||| cycleBit⟩

/-- `data && length`. -/
def HasData (data : Nat) (length : UInt32) : Prop := data ≠ 0 ∧ length ≠ 0

instance (data : Nat) (length : UInt32) : Decidable (HasData data length) :=
  inferInstanceAs (Decidable (_ ∧ _))

def setupTrb (req : UsbSetupPacket) (data : Nat) (length : UInt32) (cycleBit : UInt32) : XhciTrb :=
  { paramater := (req.bmRequestType.toNat ||| req.bRequest.toNat <<< 8 |||
    req.wValue.toNat <<< 16) +
      (req.wIndex.toNat ||| req.wLength.toNat <<< 16) <<< 32
    status := 8
    control := trbType trbSetup ||| trbIdt ||| cycleBit |||
      if HasData data length then trbTrt (if req.isIn then trbDataIn else trbDataOut) else 0 }

def dataTrb (req : UsbSetupPacket) (data : Nat) (length : UInt32) (cycleBit : UInt32) : XhciTrb :=
  ⟨data, length, trbType trbData ||| cycleBit ||| if req.isIn then trbIsp ||| trbDirIn else 0⟩

def statusTrb (req : UsbSetupPacket) (data : Nat) (length : UInt32) (cycleBit : UInt32) : XhciTrb :=
  ⟨0, 0, trbType trbStatus ||| cycleBit ||| trbIoc |||
    if ¬ HasData data length ∨ ¬ req.isIn then trbDirIn else 0⟩

def normalTrb (ep : UInt8) (data : Nat) (length : UInt32) (cycleBit : UInt32) : XhciTrb :=
  ⟨data, length, trbIoc ||| trbType trbNormal ||| cycleBit ||| if ep &&& 0x80 ≠
    0 then trbIsp else 0⟩

/-- The TRBs of a call in the order of their `xhci_enqueue_trb`, each for the cycle bit its
ring has by then. -/
def Call.trbs (rings : Rings) : Call → List (UInt32 → XhciTrb)
  | .command c => [fun cycleBit => c.trb rings cycleBit]
  | .control _ _ req data length =>
    if HasData data length then
      [setupTrb req data length, dataTrb req data length, statusTrb req data length]
    else [setupTrb req data length, statusTrb req data length]
  | .bulk _ ep data length => [normalTrb ep data length]

/-- What a call returns, from the event it read. -/
def Call.result (event : XhciTrb) : Call → Int
  | .command .enableSlot =>
      if getCompCode event.status = compSuccess then (trbToSlotId event.control).toNat else -1
  | .command (.resetDevice _) => 0
  | .command _ => if getCompCode event.status = compSuccess then 0 else -1
  | .control .. | .bulk .. =>
    if getCompCode event.status = compShortPacket then (residual event.status).toNat
    else if getCompCode event.status = compSuccess then 0
    else -1

/-- The commands `xhci_xfer_control` goes on with after a STALL. -/
def Call.followUp (event : XhciTrb) : Call → List Call
  | .control slot ep _ _ _ =>
    if getCompCode event.status = compStallError then
      [.command (.resetStallEndpoint slot (controlEpIndex ep)),
        .command (.setDeqEndpoint slot (controlEpIndex ep))]
    else []
  | _ => []

/-- A TRB on its ring: where it is, and the cycle bit of the ring it was enqueued under. -/
structure Enqueued where
  ptr : Nat
  trb : XhciTrb
  cycleBit : UInt32
  deriving DecidableEq, Repr

/-- One `xhci_enqueue_trb` after another. -/
def enqueueAll : List (UInt32 → XhciTrb) → XhciRing × List XhciTrb →
  List Enqueued × (XhciRing × List XhciTrb)
  | [], r => ([], r)
  | build :: builds, (ring, mem) =>
    let trb := build ring.cycleBit
    let (rest, r) := enqueueAll builds (xhciEnqueueTrb ring mem trb)
    (⟨ring.trbAt ring.writeIndex, trb, ring.cycleBit⟩ :: rest, r)

/-- A call with the addresses of its TRBs. -/
structure Submitted where
  id : Nat
  call : Call
  trbs : List Nat
  deriving DecidableEq, Repr

/-- A TRB the controller has yet to execute. -/
structure Job where
  owner : Submitted
  ptr : Nat
  trb : XhciTrb
  deriving DecidableEq, Repr

namespace Job

def key (j : Job) : RingKey := j.owner.call.key

def Isp (j : Job) : Prop := j.trb.control &&& trbIsp ≠ 0

def Ioc (j : Job) : Prop := j.trb.control &&& trbIoc ≠ 0

/-- The TRB can be executed without an error and be reported. -/
def Reports (j : Job) : Prop := j.key = .command ∨ j.Ioc ∨ j.Isp

instance (j : Job) : Decidable j.Isp := inferInstanceAs (Decidable (_ ≠ _))
instance (j : Job) : Decidable j.Ioc := inferInstanceAs (Decidable (_ ≠ _))

/-- The events a TRB may be reported with: a command always is; a transfer TRB when it was
done and asks for it, when it came short and asks for that, or when it failed. -/
def Legal (j : Job) (event : Body) : Prop :=
  event.paramater = j.ptr ∧
    event.control &&& trbTypeBitmask =
      trbType (if j.key = .command then trbCompletion else trbTransfer) ∧
    (getCompCode event.status = compShortPacket → j.Isp) ∧
    (getCompCode event.status = compSuccess → j.key = .command ∨ j.Ioc)

/-- The TRBs that are done without an event. -/
def Silent (j : Job) : Prop := j.key ≠ .command ∧ ¬ j.Ioc

instance (j : Job) (event : Body) : Decidable (j.Legal event) :=
  inferInstanceAs (Decidable (_ ∧ _ ∧ (_ → _) ∧ (_ → _)))
instance (j : Job) : Decidable j.Silent := inferInstanceAs (Decidable (_ ∧ _))

end Job

/-- The TRB was not executed to its end, nor is there more to come from its call. -/
def Body.Failed (event : Body) : Prop :=
  getCompCode event.status ≠ compSuccess ∧ getCompCode event.status ≠ compShortPacket

instance (event : Body) : Decidable event.Failed := inferInstanceAs (Decidable (_ ∧ _))

/-- An event on the event ring and the call whose TRB it reports. -/
structure Posted where
  event : XhciTrb
  owner : Option Submitted
  deriving DecidableEq, Repr

/-- Where the one thread is: between calls, behind the doorbell, in the loop of
`xhci_event_wait`, or out of it and before it copies `evt_trb`. -/
inductive Thread where
  | idle
  | submitted (c : Submitted)
  | waiting (c : Submitted)
  | woken (c : Submitted)
  deriving DecidableEq, Repr

/-- A call that read `evt_trb`. -/
structure Returned where
  owner : Submitted
  event : XhciTrb
  deriving DecidableEq, Repr

def Returned.value (r : Returned) : Int := r.owner.call.result r.event

/-- Driver and controller. -/
structure Host where
  ev : EventSys
  rings : Rings
  work : List Job := []
  posts : List Posted := []
  thread : Thread := .idle
  todo : List Call := []
  calls : Nat := 0
  returned : List Returned := []

/-- `isr`, `load`, `evict` and `ehb` are those of `EventAction`. A `call` goes on with what
the last one left to do, if anything; `ringInit` is the `xhci_ring_init` of an endpoint's
ring; `notice` is an event of no call, as for a port. -/
inductive HostAction where
  | call (call : Call)
  | ringInit (slot epIndex : UInt32) (trb : Nat)
  | wait
  | wake
  | read
  | execute (key : RingKey) (report : Option Body)
  | notice (event : Body)
  | isr
  | load (i : Nat)
  | evict (i : Nat)
  | ehb (busy : Bool)

namespace Host

/-- Everything initialised: the event ring at `base`, the others where `trbs` says. -/
def init (base : Nat) (trbs : RingKey → Nat) : Host where
  ev := EventSys.init base xhciRingTrbMaxNum
  rings key :=
    xhciRingInit (trbs key) xhciRingTrbMaxNum (if key = .command then .commandRing else .ctrlRing)

/-- The TRBs of a call, up to the doorbell. The controller sees those with the cycle bit of
the ring. -/
def submit (s : Host) (call : Call) : Host :=
  let (enqueued, ring) := enqueueAll (call.trbs s.rings) (s.rings call.key)
  let c : Submitted := ⟨s.calls, call, enqueued.map Enqueued.ptr⟩
  { s with
    rings := Function.update s.rings call.key ring
    work := s.work ++ (enqueued.filter fun e => e.trb.cycle = e.cycleBit).map fun e =>
      ⟨c, e.ptr, e.trb⟩
    thread := .submitted c
    calls := s.calls + 1 }

/-- An event of the controller, if the event ring takes it. -/
def post (s : Host) (event : Body) (owner : Option Submitted) (work : List Job) : Host :=
  if s.ev.hp.Full s.ev.hcd then s
  else
    { s with
      ev := s.ev.step (.post event)
      posts := s.posts ++ [⟨event.trb s.ev.hp.pcs, owner⟩]
      work }

/-- The controller executes the next TRB of a ring. -/
def execute (s : Host) (key : RingKey) (report : Option Body) : Host :=
  match s.work.find? fun j => j.key = key with
  | none => s
  | some j =>
    let rest := s.work.eraseP fun j => j.key = key
    match report with
    | none => if j.Silent then { s with work := rest } else s
    | some event =>
      if j.Legal event then
        s.post event (some j.owner)
          (if event.Failed then rest.filter fun i => i.owner ≠ j.owner else rest)
      else s

def step (s : Host) : HostAction → Host
  | .call call =>
    match s.thread, s.todo with
    | .idle, [] => s.submit call
    | .idle, next :: todo => { s.submit next with todo }
    | _, _ => s
  | .ringInit slot epIndex trb =>
    if s.thread = .idle then
      { s with rings := Function.update s.rings (.endpoint slot epIndex) (xhciRingInit trb
        xhciRingTrbMaxNum .ctrlRing) }
    else s
  | .wait =>
    match s.thread with
    | .submitted c => { s with ev := s.ev.step .wait, thread := .waiting c }
    | _ => s
  | .wake =>
    match s.thread with
    | .waiting c =>
        if s.ev.hcd.eventSync then { s with ev := s.ev.step .wake, thread := .woken c } else s
    | _ => s
  | .read =>
    match s.thread with
    | .woken c =>
      { s with
        thread := .idle
        todo := c.call.followUp s.ev.hcd.evtTrb ++ s.todo
        returned := s.returned ++ [⟨c, s.ev.hcd.evtTrb⟩] }
    | _ => s
  | .execute key report => s.execute key report
  | .notice event =>
    if event.control &&& trbTypeBitmask = trbType trbCompletion ∨
      event.control &&& trbTypeBitmask = trbType trbTransfer
    then s else s.post event none s.work
  | .isr => { s with ev := s.ev.step .isr }
  | .load i => { s with ev := s.ev.step (.load i) }
  | .evict i => { s with ev := s.ev.step (.evict i) }
  | .ehb busy => { s with ev := s.ev.step (.ehb busy) }

def run (s : Host) (actions : List HostAction) : Host := actions.foldl step s

end Host

end LinkedsemiZephyr.Xhci
