import LinkedsemiZephyr.Spdm.Framing

/-! MCTP packets inside USB frames, and the host object that reassembles them into
messages. The host only needs `recv_mctp_frame` of its transport, so it is written
over any frame source. -/
namespace LinkedsemiZephyr.Spdm
open Octets

def buildFrame (payload : Bytes) : Except PyErr Bytes :=
  let totalLen := 4 + payload.length
  if totalLen > 255 then .error (.frameTooLarge totalLen)
  else .ok ([mctpDmtf0, mctpDmtf1, 0x00, UInt8.ofNat totalLen] ++ payload)

def buildMctp (msgBody : Bytes) (msgTag : UInt8) (tagOwner : Bool)
    (dest : UInt8 := selfEid) (src : UInt8 := busOwnerEid) : Bytes :=
  let flags := 0xC0 ||| (if tagOwner then 0x08 else 0) ||| (msgTag &&& 0x07)
  [0x01, dest, src, flags] ++ msgBody

def somBit (flags : UInt8) : Bool := flags >>> 7 &&& 1 == 1
def eomBit (flags : UInt8) : Bool := flags >>> 6 &&& 1 == 1

/-- `parse_mctp_packet`: the SOM and EOM bits and the packet body. -/
def parseMctpPacket (frame : Bytes) : Except PyErr (Bool × Bool × Bytes) :=
  if frame.length < 4 then .error .usbFrameTooShort
  else
    let payload := frame.drop 4
    if payload.length < 5 then .error (.mctpPayloadTooShort payload)
    else
      let flags := payload.getD 3 0
      .ok (somBit flags, eomBit flags, payload.drop 4)

/-- Something with a `recv_mctp_frame`. A returned frame uses up some of what the
source still holds, so receiving in a loop terminates. -/
structure FrameSource (σ : Type) where
  recvMctpFrame : σ → EStateM.Result PyErr σ Bytes
  size : σ → Nat
  shrinks : ∀ {s f s'}, recvMctpFrame s = .ok f s' → size s' < size s

def usbSource : FrameSource MctpUsbTransport where
  recvMctpFrame := recvMctpFrame
  size usb := usb.stream.length
  shrinks := by
    intro usb f usb' h
    have hs := recvMctpFrame_spec usb
    rw [h] at hs
    exact hs.2.1

/-- What the next `recv_mctp_frame` of a queue does. -/
inductive Delivery where
  | frame (data : Bytes)
  | timeout
  deriving DecidableEq, Repr

/-- A source that delivers a fixed sequence and then stays silent. -/
def queueSource : FrameSource (List Delivery) where
  recvMctpFrame
    | [] => .error (.usbTimeout .header) []
    | .frame data :: ds => .ok data ds
    | .timeout :: ds => .error (.usbTimeout .header) ds
  size := List.length
  shrinks := by
    intro ds f ds' h
    cases ds with
    | nil => cases h
    | cons d ds =>
        cases d with
        | frame data => cases h; exact Nat.lt_succ_self _
        | timeout => cases h

structure SpdmHost (σ : Type) where
  usb : σ
  tag : UInt8 := 0
  transcript : Bytes := []
  messageA : Bytes := []
  messageD : Bytes := []
  lastSrc : UInt8 := selfEid
  lastDst : UInt8 := busOwnerEid
  lastTag : UInt8 := 0
  deriving DecidableEq, Repr

variable {σ : Type}

/-- `self.last_src`, `self.last_dst` and `self.last_tag` after a frame. -/
def SpdmHost.notePacket (host : SpdmHost σ) (frame : Bytes) : SpdmHost σ :=
  let payload := frame.drop 4
  if 4 ≤ payload.length then
    { host with lastSrc := payload.getD 2 0, lastDst := payload.getD 1 0,
                lastTag := payload.getD 3 0 &&& 0x07 }
  else host

@[simp] theorem SpdmHost.notePacket_usb (host : SpdmHost σ) (frame : Bytes) :
    (host.notePacket frame).usb = host.usb := by
  simp only [SpdmHost.notePacket]
  split <;> rfl

/-- `msg` after one packet: SOM starts it afresh, anything else is appended. -/
def accumulate (msg : Bytes) (som : Bool) (body : Bytes) : Bytes :=
  if som then body else msg ++ body

/-- The `while True` of `recv_mctp_payload`, with its buffer `msg`. -/
def SpdmHost.recvLoop (S : FrameSource σ) (host : SpdmHost σ) (msg : Bytes) :
    EStateM.Result PyErr (SpdmHost σ) Bytes :=
  match _h : S.recvMctpFrame host.usb with
  | .error e usb => .error e { host with usb }
  | .ok frame usb =>
    match parseMctpPacket frame with
    | .error e => .error e { host with usb }
    | .ok (som, eom, body) =>
      if eom then
        if (accumulate msg som body).isEmpty then
          .error .emptyMctpPayload (SpdmHost.notePacket { host with usb } frame)
        else .ok (accumulate msg som body) (SpdmHost.notePacket { host with usb } frame)
      else recvLoop S (SpdmHost.notePacket { host with usb } frame) (accumulate msg som body)
termination_by S.size host.usb
decreasing_by
  rw [SpdmHost.notePacket_usb]
  exact S.shrinks _h

def SpdmHost.recvMctpPayload (S : FrameSource σ) (host : SpdmHost σ) :
    EStateM.Result PyErr (SpdmHost σ) Bytes :=
  host.recvLoop S []

section Unfold
variable {S : FrameSource σ} {host : SpdmHost σ} {msg frame body : Bytes} {som : Bool} {usb : σ}
  {e : PyErr}

theorem SpdmHost.recvLoop_timeout (hf : S.recvMctpFrame host.usb = .error e usb) :
    host.recvLoop S msg = .error e { host with usb } := by
  rw [SpdmHost.recvLoop]
  split <;> simp_all

theorem SpdmHost.recvLoop_malformed (hf : S.recvMctpFrame host.usb = .ok frame usb)
    (hp : parseMctpPacket frame = .error e) : host.recvLoop S msg = .error e { host with usb } := by
  rw [SpdmHost.recvLoop]
  split
  · simp_all
  · split <;> simp_all

theorem SpdmHost.recvLoop_last (hf : S.recvMctpFrame host.usb = .ok frame usb)
    (hp : parseMctpPacket frame = .ok (som, true, body)) :
    host.recvLoop S msg =
      if (accumulate msg som body).isEmpty then
        .error .emptyMctpPayload (SpdmHost.notePacket { host with usb } frame)
      else .ok (accumulate msg som body) (SpdmHost.notePacket { host with usb } frame) := by
  rw [SpdmHost.recvLoop]
  split
  · simp_all
  · split <;> simp_all

theorem SpdmHost.recvLoop_more (hf : S.recvMctpFrame host.usb = .ok frame usb)
    (hp : parseMctpPacket frame = .ok (som, false, body)) :
    host.recvLoop S msg =
      recvLoop S (SpdmHost.notePacket { host with usb } frame) (accumulate msg som body) := by
  rw [SpdmHost.recvLoop]
  split
  · simp_all
  · split <;> simp_all

end Unfold

end LinkedsemiZephyr.Spdm
