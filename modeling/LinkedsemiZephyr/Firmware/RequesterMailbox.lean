import LinkedsemiZephyr.Firmware.RxMailbox

/-! The requester's transport callbacks: `spdm_device_send_message`, `rx_message` and
`spdm_device_receive_message` around one pending frame, one flag and one semaphore. -/
namespace LinkedsemiZephyr.Firmware
open Octets

/-- `pending_rx`, with the number of its frame and the header `rx_message` looks away from. -/
structure PendingFrame where
  serial : Nat
  message : MctpMessage
  deriving DecidableEq, Repr

/-- The arguments of `mctp_message_tx`. -/
structure Transmission where
  eid : UInt8
  tagOwner : Bool
  msgTag : UInt8
  msg : Bytes
  deriving DecidableEq, Repr

/-- `wait_ms` for a timeout in microseconds. -/
def waitMs (timeout : UInt64) : Nat :=
  if timeout = 0 then 8000
  else
    let waitMs := timeout.toNat / 1000
    if waitMs < 8000 then 8000 else if 15000 < waitMs then 15000 else waitMs

theorem le_waitMs (timeout : UInt64) : 8000 ≤ waitMs timeout := by
  unfold waitMs
  split
  · exact Nat.le_refl 8000
  · dsimp only
    split
    · exact Nat.le_refl 8000
    · split <;> omega

/-- Where a `spdm_device_receive_message` stands: before the first test of
`pending_valid`, before and in `k_sem_take`, before the second test, before the copy, and
before `pending_valid` is cleared. -/
inductive ReceivePc where
  | idle
  | entered (waitMs : Nat)
  | taking (waitMs : Nat)
  | waiting (waitMs : Nat)
  | checking
  | copying
  | clearing
  deriving DecidableEq, Repr

/-- A frame handed over, with the tag of the request sent last. -/
structure Handover where
  frame : PendingFrame
  requestTag : Option UInt8
  deriving DecidableEq, Repr

/-- A `LIBSPDM_STATUS_RECEIVE_FAIL`: how long the call had waited, and whether a frame was
pending at any time of it. -/
structure ReceiveFail where
  waited : Nat
  framePending : Bool
  deriving DecidableEq, Repr

/-- The callbacks' globals. The rest is what an observer writes down: the messages
accepted and sent, the call under way, and what the calls returned. -/
structure Requester where
  pendingRx : PendingFrame := ⟨0, 0, false, 0, []⟩
  pendingValid : Bool := false
  spdmRxSem : Nat := 0
  txMsgTag : UInt8 := 0
  accepted : List MctpMessage := []
  transmitted : List Transmission := []
  pc : ReceivePc := .idle
  messageSize : Nat := spdmReceiverBufferSize
  waited : Nat := 0
  framePending : Bool := false
  handovers : List Handover := []
  failures : List ReceiveFail := []
  deriving DecidableEq, Repr

/-- A receive buffer large enough for every accepted message. -/
structure ReceiveBuffer where
  size : Nat
  holds : spdmReceiverBufferSize ≤ size

/-- `proceed` is the next step of the call under way, `tick` a millisecond. -/
inductive RequesterAction where
  | rxMessage (m : MctpMessage)
  | sendMessage (message : Bytes)
  | receiveMessage (timeout : UInt64) (buffer : ReceiveBuffer)
  | proceed
  | tick

namespace Requester

/-- `k_sem_give`: a waiting call is readied and the count stays. -/
def giveRxSem (s : Requester) : Requester :=
  match s.pc with
  | .waiting _ => { s with pc := .checking }
  | _ => { s with spdmRxSem := kSemGive s.spdmRxSem }

def rxMessage (s : Requester) (m : MctpMessage) : Requester :=
  if Accepts m then
    giveRxSem { s with
      pendingRx := ⟨s.accepted.length, m⟩
      pendingValid := true
      accepted := s.accepted ++ [m]
      framePending := true }
  else s

/-- `spdm_device_send_message`. -/
def sendMessage (s : Requester) (message : Bytes) : Requester :=
  if message = [] then s
  else
    let tag := s.txMsgTag
    { s with
      txMsgTag := (tag + 1) &&& 0x07
      transmitted := s.transmitted ++ [⟨busOwnerId, true, tag, message⟩] }

def fail (s : Requester) : Requester :=
  { s with pc := .idle, failures := s.failures ++ [⟨s.waited, s.framePending⟩] }

def proceed (s : Requester) : Requester :=
  match s.pc with
  | .entered waitMs => { s with pc := if s.pendingValid then .checking else .taking waitMs }
  | .taking waitMs =>
    if 0 < s.spdmRxSem then { s with spdmRxSem := s.spdmRxSem - 1, pc := .checking }
    else { s with pc := .waiting waitMs }
  | .checking =>
    if ¬ s.pendingValid ∨ s.messageSize < s.pendingRx.message.msg.length then s.fail
    else { s with pc := .copying }
  | .copying =>
    let requestTag := s.transmitted.getLast?.map Transmission.msgTag
    { s with pc := .clearing, handovers := s.handovers ++ [⟨s.pendingRx, requestTag⟩] }
  | .clearing => { s with pendingValid := false, pc := .idle }
  | .idle | .waiting _ => s

/-- A millisecond; `k_sem_take` gives up once the time is over. -/
def tick (s : Requester) : Requester :=
  match s.pc with
  | .waiting waitMs =>
    let s := { s with waited := s.waited + 1 }
    if waitMs ≤ s.waited then s.fail else s
  | _ => s

/-- One thread sends and receives, so both start only while no call is under way. -/
def step (s : Requester) : RequesterAction → Requester
  | .rxMessage m => s.rxMessage m
  | .sendMessage message => if s.pc = .idle then s.sendMessage message else s
  | .receiveMessage timeout buffer =>
    if s.pc = .idle then
      { s with
        pc := .entered (waitMs timeout)
        messageSize := buffer.size
        waited := 0
        framePending := s.pendingValid }
    else s
  | .proceed => s.proceed
  | .tick => s.tick

end Requester

end LinkedsemiZephyr.Firmware
