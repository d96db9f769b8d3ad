import LinkedsemiZephyr.Lib.Buffer
import LinkedsemiZephyr.Lib.Octets
import LinkedsemiZephyr.Lib.SumCheck
import Mathlib.Data.UInt
import Mathlib.Tactic.IntervalCases

/-! IPMB messages on the wire: `ipmb_encode`, the I2C write of `IPMB_TXTask`, and the checks and
`ipmb_decode` of `IPMB_RXTask`. -/
namespace LinkedsemiZephyr.Ipmb
open Octets Buffer SumCheck

abbrev ipmiDataMaxLength : Nat := 520
abbrev ipmbReqHeaderLength : Nat := 6
abbrev ipmbRespHeaderLength : Nat := 7
abbrev ipmiMsgMaxLength : Nat := ipmiDataMaxLength + ipmbRespHeaderLength
abbrev ipmiHeaderChecksumPosition : Nat := 2

def ipmbNetfnMask : UInt8 := 0xFC
def ipmbDestLUNMask : UInt8 := 0x03
def ipmbSeqMask : UInt8 := 0xFC
def ipmbSrcLUNMask : UInt8 := 0x03

/-- `enum ipmb_error`. -/
inductive IpmbError where
  | success
  | unknown
  | failure
  | timeout
  | invalidReq
  | hdrChecksum
  | msgChecksum
  | queueCreation
  | getMessageQueue
  | mutexLock
  deriving DecidableEq, Repr

/-- The first `data_len` octets of `data`, which has room for no more. -/
abbrev Payload := { b : Bytes // b.length ≤ ipmiMsgMaxLength }

/-- `struct ipmi_msg`; `data_len` is the length of the payload. -/
structure IpmiMsg where
  destAddr : UInt8
  netfn : UInt8
  destLUN : UInt8
  hdrChksum : UInt8
  srcAddr : UInt8
  seqSource : UInt8
  seqTarget : UInt8
  seq : UInt8
  pldmInstId : UInt8
  inFSource : UInt8
  inFTarget : UInt8
  srcLUN : UInt8
  cmd : UInt8
  completionCode : UInt8
  data : Payload
  timestamp : UInt32
  msgChksum : UInt8
  deriving DecidableEq, Repr

namespace IpmiMsg

/-- `memset(msg, 0, sizeof(ipmi_msg))`. -/
def zero : IpmiMsg where
  destAddr := 0
  netfn := 0
  destLUN := 0
  hdrChksum := 0
  srcAddr := 0
  seqSource := 0
  seqTarget := 0
  seq := 0
  pldmInstId := 0
  inFSource := 0
  inFTarget := 0
  srcLUN := 0
  cmd := 0
  completionCode := 0
  data := ⟨[], by decide⟩
  timestamp := 0
  msgChksum := 0

def dataLen (msg : IpmiMsg) : Nat := msg.data.val.length

/-- `IS_RESPONSE`. -/
def isResponse (msg : IpmiMsg) : Bool := msg.netfn &&& 0x01 != 0

def headerLength (msg : IpmiMsg) : Nat :=
  if msg.isResponse then ipmbRespHeaderLength else ipmbReqHeaderLength

end IpmiMsg

/-- The address is 7 bit in a buffer and 8 bit on the bus. -/
def onBus : Bytes → Bytes
  | [] => []
  | address :: rest => address <<< 1 :: rest

def calculateChecksum (buffer : Bytes) (range : Nat) : UInt8 :=
  (slice buffer 1 range).foldl (fun checksum b => checksum - b)
    ((0 : UInt8) - buffer.getD 0 0 <<< 1)

def validateChecksum (buffer : Bytes) (bufferLen : UInt8) : IpmbError :=
  let headerChecksum := buffer.getD 2 0
  let msgChecksum := buffer.getD (bufferLen.toNat - 1) 0
  let calcHeaderChecksum := calculateChecksum buffer ipmiHeaderChecksumPosition
  let calcMsgChecksum := calculateChecksum buffer (bufferLen.toNat - 1)
  if headerChecksum = calcHeaderChecksum then
    if msgChecksum = calcMsgChecksum then .success else .hdrChecksum
  else .msgChecksum

def netfnLUN (msg : IpmiMsg) : UInt8 :=
  (msg.netfn <<< 2 &&& ipmbNetfnMask) ||| (msg.destLUN &&& ipmbDestLUNMask)

def seqLUN (msg : IpmiMsg) : UInt8 :=
  (msg.seq <<< 2 &&& ipmbSeqMask) ||| (msg.srcLUN &&& ipmbSrcLUNMask)

/-- The index of the last checksum is a `uint8_t`. -/
def ipmbEncode (buffer : Bytes) (msg : IpmiMsg) : Bytes :=
  let buffer := write buffer 0 [msg.destAddr]
  let buffer := write buffer 1 [netfnLUN msg]
  let buffer := write buffer 2 [calculateChecksum buffer ipmiHeaderChecksumPosition]
  let buffer := write buffer 3 [msg.srcAddr]
  let buffer := write buffer 4 [seqLUN msg]
  let buffer := write buffer 5 [msg.cmd]
  let buffer := if msg.isResponse then write buffer 6 [msg.completionCode] else buffer
  let buffer := write buffer msg.headerLength msg.data.val
  let i := (msg.headerLength + msg.dataLen) % 256
  write buffer i [calculateChecksum buffer i]

/-- What is decoded before the type of the message is known. -/
def decodeHeader (msg : IpmiMsg) (buffer : Bytes) : IpmiMsg :=
  { msg with
    destAddr := buffer.getD 0 0
    netfn := buffer.getD 1 0 >>> 2
    destLUN := buffer.getD 1 0 &&& ipmbDestLUNMask
    hdrChksum := buffer.getD 2 0
    srcAddr := buffer.getD 3 0
    seq := buffer.getD 4 0 >>> 2
    srcLUN := buffer.getD 4 0 &&& ipmbSrcLUNMask
    cmd := buffer.getD 5 0 }

theorem decoded_room (buffer : Bytes) (i : Nat) (len : UInt8) :
    (slice buffer i (i + (len.toNat - i - 1))).length ≤ ipmiMsgMaxLength := by
  have hlen := len.toNat_lt
  rw [length_slice]
  change _ ≤ 527
  omega

/-- `data_len` is `len - i - 1` where that is positive, else none. -/
def ipmbDecode (msg : IpmiMsg) (buffer : Bytes) (len : UInt8) : IpmiMsg :=
  let msg := decodeHeader msg buffer
  { msg with
    completionCode := if msg.isResponse then buffer.getD 6 0 else msg.completionCode
    data := ⟨_, decoded_room buffer msg.headerLength len⟩
    msgChksum := buffer.getD (len.toNat - 1) 0 }

/-- `IPMB_config`, as far as a message is made from it. -/
structure IpmbConfig where
  channel : UInt8
  channelTargetAddress : UInt8
  selfAddress : UInt8
  deriving DecidableEq, Repr

/-- The I2C drivers at the two ends: the octets that `ipmb_slave_read` gives of what the other end
writes, which are those on the bus, the address with the write bit first. -/
structure I2c where
  i2cMasterWrite : UInt8 → Bytes → Bytes
  octets : ∀ targetAddr data, i2cMasterWrite targetAddr data = targetAddr <<< 1 :: data

/-- `Fix IPMB target address`, for a response only. -/
def fixTarget (cfg : IpmbConfig) (msg : IpmiMsg) : IpmiMsg :=
  if msg.isResponse then { msg with destAddr := cfg.channelTargetAddress } else msg

def txSize (msg : IpmiMsg) : UInt8 := UInt8.ofNat (msg.dataLen + msg.headerLength)

/-- `IPMB_TXTask` up to `i2c_master_write`; `stack` is what its buffer held. -/
def transmit (i2c : I2c) (cfg : IpmbConfig) (stack : Bytes) (msg : IpmiMsg) : Bytes :=
  let msg := fixTarget cfg msg
  i2c.i2cMasterWrite cfg.channelTargetAddress
    (slice (ipmbEncode stack msg) 1 (1 + (txSize msg).toNat))

/-- `IPMB_RXTask` behind `ipmb_slave_read`; `heap` is what its buffer held. -/
def receive (heap wire : Bytes) : Bytes :=
  let buffer := write heap 0 wire
  write buffer 0 [buffer.getD 0 0 >>> 1]

def accepts (heap wire : Bytes) : Bool :=
  validateChecksum (receive heap wire) (UInt8.ofNat wire.length) = .success

/-- What stands in the buffer of `IPMB_RXTask`: the address shifted back to 7 bit. -/
def heard : Bytes → Bytes
  | [] => []
  | address :: rest => address >>> 1 :: rest

/-- What a receiver sees of the destination. -/
def addressed (msg : IpmiMsg) : IpmiMsg := { msg with destAddr := msg.destAddr &&& 0x7f }

/-! ### The layout of a frame -/

/-- Octets with the checksum of all of them behind. -/
def closed (p : Bytes) : Bytes := p ++ [check (onBus p)]

def frameHeader (msg : IpmiMsg) : Bytes := [msg.destAddr, netfnLUN msg]

def frameBody (msg : IpmiMsg) : Bytes :=
  [msg.srcAddr, seqLUN msg, msg.cmd] ++
    (if msg.isResponse then [msg.completionCode] else []) ++ msg.data.val

def frame (msg : IpmiMsg) : Bytes := closed (closed (frameHeader msg) ++ frameBody msg)

variable {p q buffer heap wire : Bytes} {msg : IpmiMsg} {cfg : IpmbConfig}

@[simp] theorem length_closed (p : Bytes) : (closed p).length = p.length + 1 := List.length_append

@[simp] theorem length_onBus (p : Bytes) : (onBus p).length = p.length := by
  cases p with
  | nil => rfl
  | cons address rest => rfl

theorem onBus_append (hp : p ≠ []) (q : Bytes) : onBus (p ++ q) = onBus p ++ q := by
  cases p with
  | nil => exact absurd rfl hp
  | cons a p => rfl

theorem calculateChecksum_eq {range : Nat} (hrange : range ≠ 0) (hb : buffer ≠ []) :
    calculateChecksum buffer range = check (onBus (buffer.take range)) := by
  obtain ⟨n, rfl⟩ := Nat.exists_eq_succ_of_ne_zero hrange
  cases buffer with
  | nil => exact absurd rfl hb
  | cons a rest =>
      change (rest.take n).foldl _ _ = check (a <<< 1 :: rest.take n)
      rw [foldl_sub, check, List.sum_cons, neg_add, zero_sub, sub_eq_add_neg]
      rfl

theorem calculateChecksum_of_isPrefix (h : p <+: buffer) (hp : p ≠ []) :
    calculateChecksum buffer p.length = check (onBus p) := by
  have hb : buffer ≠ [] := fun hb => hp (List.prefix_nil.mp (hb ▸ h))
  rw [calculateChecksum_eq (List.length_pos_iff.mpr hp).ne' hb, take_of_isPrefix h]

theorem closed_write (h : p <+: buffer) (hp : p ≠ []) :
    closed p <+: write buffer p.length [calculateChecksum buffer p.length] := by
  rw [calculateChecksum_of_isPrefix h hp]
  exact prefix_write h rfl

theorem closed_checks (h : closed p <+: buffer) (hp : p ≠ []) :
    buffer.getD p.length 0 = calculateChecksum buffer p.length := by
  have hlt : p.length < (closed p).length := by rw [length_closed]; omega
  rw [getD_of_isPrefix h hlt, calculateChecksum_of_isPrefix ((List.prefix_append p _).trans h) hp]
  exact List.getElem_concat_length rfl _

theorem headerLength_eq (msg : IpmiMsg) : (closed (frameHeader msg) ++ frameBody msg).length =
    msg.headerLength + msg.dataLen := by
  rw [List.length_append, length_closed, frameBody, List.length_append, IpmiMsg.headerLength,
    IpmiMsg.dataLen]
  cases msg.isResponse <;>
    simp only [frameHeader, List.length_append, List.length_cons, List.length_nil,
    Bool.false_eq_true, if_true, if_false, ipmbReqHeaderLength, ipmbRespHeaderLength] <;> omega

theorem length_frame (msg : IpmiMsg) : (frame msg).length = msg.headerLength + msg.dataLen + 1 := by
  rw [frame, length_closed, headerLength_eq]

/-- As long as the index does not wrap around, what `ipmb_encode` leaves is the frame. -/
theorem ipmbEncode_frame (msg : IpmiMsg) (buffer : Bytes)
    (hfit : msg.headerLength + msg.dataLen < 256) :
    frame msg <+: ipmbEncode buffer msg := by
  unfold ipmbEncode
  extract_lets b₁ b₂ b₃ b₄ b₅ b₆ b₇ b₈ i
  have h₁ : [msg.destAddr] <+: b₁ := prefix_write_zero buffer _
  have h₂ : frameHeader msg <+: b₂ := prefix_write h₁ rfl
  have h₃ : closed (frameHeader msg) <+: b₃ := closed_write h₂ (List.cons_ne_nil _ _)
  have h₄ : closed (frameHeader msg) ++ [msg.srcAddr] <+: b₄ := prefix_write h₃ rfl
  have h₅ : closed (frameHeader msg) ++ [msg.srcAddr] ++ [seqLUN msg] <+: b₅ := prefix_write h₄ rfl
  have h₆ : closed (frameHeader msg) ++ [msg.srcAddr] ++ [seqLUN msg] ++ [msg.cmd] <+: b₆ :=
    prefix_write h₅ rfl
  have h₈ : closed (frameHeader msg) ++ frameBody msg <+: b₈ := by
    cases hr : msg.isResponse with
    | false =>
        have h₇ : b₇ = b₆ := by simp only [b₇, hr, Bool.false_eq_true, if_false]
        have hlen : msg.headerLength = 6 := by rw [IpmiMsg.headerLength, hr]; rfl
        have h := prefix_write (b := msg.data.val) (h₇ ▸ h₆) hlen
        rwa [frameBody, hr]
    | true =>
        have h₇ : b₇ = write b₆ 6 [msg.completionCode] := by simp only [b₇, hr, if_true]
        have hlen : msg.headerLength = 7 := by rw [IpmiMsg.headerLength, hr]; rfl
        have h := prefix_write (b := msg.data.val) (h₇ ▸ prefix_write h₆ rfl) hlen
        rwa [frameBody, hr]
  have hi : i = (closed (frameHeader msg) ++ frameBody msg).length := by
    rw [headerLength_eq]
    exact Nat.mod_eq_of_lt hfit
  rw [hi]
  exact closed_write h₈ (List.cons_ne_nil _ _)

/-! ### Bit fields -/

theorem eq_of_bits {x y : UInt8} (h : ∀ i < 8, x.toBitVec.getLsbD i = y.toBitVec.getLsbD i) :
    x = y := by
  apply UInt8.toBitVec_inj.mp
  apply BitVec.eq_of_getLsbD_eq
  exact h

theorem address_shift (x : UInt8) : x <<< 1 >>> 1 = x &&& 0x7f := by
  apply eq_of_bits
  intro i hi
  interval_cases i <;> simp

theorem address_mask_shift (x : UInt8) : (x &&& 0x7f) <<< 1 = x <<< 1 := by
  apply eq_of_bits
  intro i hi
  interval_cases i <;> simp

/-- The upper six bits of `(x << 2 & 0xFC) | (y & 0x03)`. -/
theorem packed_shift (x y : UInt8) : ((x <<< 2 &&& 0xFC) ||| (y &&& 0x03)) >>> 2 = x &&& 0x3f := by
  apply eq_of_bits
  intro i hi
  interval_cases i <;> simp

theorem packed_mask (x y : UInt8) :
    ((x <<< 2 &&& 0xFC) ||| (y &&& 0x03)) &&& 0x03 = y &&& 0x03 := by
  apply eq_of_bits
  intro i hi
  interval_cases i <;> simp

theorem netfn_mask_odd (x : UInt8) : (x &&& 0x3f) &&& 0x01 = x &&& 0x01 := by
  apply eq_of_bits
  intro i hi
  interval_cases i <;> simp

/-! ### On the bus and back -/

theorem heard_isPrefix (heap wire : Bytes) (hwire : wire ≠ []) :
    heard wire <+: receive heap wire := by
  cases wire with
  | nil => exact absurd rfl hwire
  | cons address rest =>
      refine ⟨heap.drop (rest.length + 1), ?_⟩
      change _ = write (([] ++ address :: rest) ++ heap.drop (0 + (rest.length + 1))) 0
        [address >>> 1]
      rw [Nat.zero_add]
      rfl

/-- As long as the frame is counted in a `uint8_t`, all of it goes out. -/
theorem transmit_frame (i2c : I2c) (stack : Bytes)
    (htarget : msg.destAddr = cfg.channelTargetAddress)
    (hfit : msg.headerLength + msg.dataLen ≤ 254) :
    transmit i2c cfg stack msg = onBus (frame msg) := by
  have hfix : fixTarget cfg msg = msg := by
    rw [fixTarget, ← htarget]
    split <;> rfl
  have hsize : (txSize msg).toNat = msg.headerLength + msg.dataLen := by
    rw [txSize, UInt8.toNat_ofNat', Nat.add_comm]
    exact Nat.mod_eq_of_lt (by omega)
  obtain ⟨rest, hrest⟩ := ipmbEncode_frame msg stack (by omega)
  have hlen := length_frame msg
  rw [transmit, hfix, hsize, ← hrest, ← htarget]
  obtain ⟨tail, htail⟩ : ∃ tail, frame msg = msg.destAddr :: tail := ⟨_, rfl⟩
  rw [htail] at hlen ⊢
  rw [i2c.octets, onBus, List.cons_append, slice, List.drop_succ_cons, List.drop_zero,
    Nat.add_sub_cancel_left, List.take_left' (Nat.succ.inj hlen)]

theorem heard_closed (address : UInt8) (p : Bytes) :
    heard (onBus (closed (address :: p))) = closed ((address &&& 0x7f) :: p) := by
  change address <<< 1 >>> 1 :: (p ++ [check (address <<< 1 :: p)]) =
    (address &&& 0x7f) :: (p ++ [check ((address &&& 0x7f) <<< 1 :: p)])
  rw [address_shift, address_mask_shift]

theorem heard_frame (msg : IpmiMsg) : heard (onBus (frame msg)) = frame (addressed msg) := by
  have hcheck : check (onBus (frameHeader (addressed msg))) = check (onBus (frameHeader msg)) := by
    change check [(msg.destAddr &&& 0x7f) <<< 1, netfnLUN msg] =
      check [msg.destAddr <<< 1, netfnLUN msg]
    rw [address_mask_shift]
  calc heard (onBus (frame msg))
      = closed ((msg.destAddr &&& 0x7f) ::
        ([netfnLUN msg] ++ [check (onBus (frameHeader msg))] ++ frameBody msg)) :=
        heard_closed _ _
    _ = frame (addressed msg) := by rw [← hcheck]; rfl

theorem frame_checks (h : frame msg <+: buffer) {len : UInt8}
    (hlen : len.toNat = (frame msg).length) :
    validateChecksum buffer len = .success := by
  have hheader := closed_checks (((List.prefix_append _ _).trans (List.prefix_append _ _)).trans h)
    (List.cons_ne_nil msg.destAddr [netfnLUN msg])
  have hbody := closed_checks h (List.append_ne_nil_of_left_ne_nil (List.cons_ne_nil _ _) _)
  have hlast : len.toNat - 1 = (closed (frameHeader msg) ++ frameBody msg).length := by
    rw [hlen, frame, length_closed, Nat.add_sub_cancel]
  rw [validateChecksum, hlast]
  exact (if_pos hheader).trans (if_pos hbody)

theorem decodeHeader_frame (old : IpmiMsg) (h : frame msg <+: buffer) :
    decodeHeader old buffer =
      { old with
        destAddr := msg.destAddr
        netfn := msg.netfn &&& 0x3f
        destLUN := msg.destLUN &&& 0x03
        hdrChksum := check (onBus (frameHeader msg))
        srcAddr := msg.srcAddr
        seq := msg.seq &&& 0x3f
        srcLUN := msg.srcLUN &&& 0x03
        cmd := msg.cmd } := by
  have hlen := length_frame msg
  have hmin : 6 ≤ msg.headerLength := by
    rw [IpmiMsg.headerLength]
    split <;> decide
  have hget (i : Nat) (hi : i < 6) : buffer.getD i 0 = (frame msg).get ⟨i, by omega⟩ :=
    getD_of_isPrefix h (by omega) 0
  rw [decodeHeader, hget 0 (by decide), hget 1 (by decide), hget 2 (by decide), hget 3 (by decide),
    hget 4 (by decide), hget 5 (by decide)]
  change { old with
      destAddr := msg.destAddr
      netfn := netfnLUN msg >>> 2
      destLUN := netfnLUN msg &&& 0x03
      hdrChksum := check (onBus (frameHeader msg))
      srcAddr := msg.srcAddr
      seq := seqLUN msg >>> 2
      srcLUN := seqLUN msg &&& 0x03
      cmd := msg.cmd } = _
  unfold netfnLUN seqLUN ipmbNetfnMask ipmbDestLUNMask ipmbSeqMask ipmbSrcLUNMask
  rw [packed_shift, packed_mask, packed_shift, packed_mask]

/-- What `ipmb_decode` makes of a frame: the fields as wide as the frame has them. -/
def decoded (old msg : IpmiMsg) : IpmiMsg :=
  { old with
    destAddr := msg.destAddr
    netfn := msg.netfn &&& 0x3f
    destLUN := msg.destLUN &&& 0x03
    hdrChksum := check (onBus (frameHeader msg))
    srcAddr := msg.srcAddr
    seq := msg.seq &&& 0x3f
    srcLUN := msg.srcLUN &&& 0x03
    cmd := msg.cmd
    completionCode := if msg.isResponse then msg.completionCode else old.completionCode
    data := msg.data
    msgChksum := check (onBus (closed (frameHeader msg) ++ frameBody msg)) }

theorem isResponse_decodeHeader (old : IpmiMsg) (h : frame msg <+: buffer) :
    (decodeHeader old buffer).isResponse = msg.isResponse := by
  rw [decodeHeader_frame old h, IpmiMsg.isResponse, IpmiMsg.isResponse, netfn_mask_odd]

/-- The payload stands behind the header and in front of the last checksum. -/
theorem payload_of_isPrefix (h : frame msg <+: buffer) :
    slice buffer msg.headerLength (msg.headerLength + msg.dataLen) = msg.data.val := by
  obtain ⟨rest, rfl⟩ := h
  have hframe : frame msg = closed (frameHeader msg) ++ [msg.srcAddr, seqLUN msg, msg.cmd] ++
      (if msg.isResponse then [msg.completionCode] else []) ++ (msg.data.val ++
        [check (onBus (closed (frameHeader msg) ++ frameBody msg))]) := by
    rw [frame, closed, frameBody]
    simp only [List.append_assoc]
  have hheader : (closed (frameHeader msg) ++ [msg.srcAddr, seqLUN msg, msg.cmd] ++
      (if msg.isResponse then [msg.completionCode] else [])).length = msg.headerLength := by
    rw [IpmiMsg.headerLength, List.length_append, List.length_append, length_closed]
    cases msg.isResponse <;> rfl
  rw [hframe, List.append_assoc _ _ rest, List.append_assoc _ _ rest]
  exact slice_middle _ hheader rfl

theorem completionCode_of_isPrefix (h : frame msg <+: buffer) (hr : msg.isResponse = true) :
    buffer.getD 6 0 = msg.completionCode := by
  have hlen : 6 < (frame msg).length := by
    rw [length_frame, IpmiMsg.headerLength, if_pos hr, ipmbRespHeaderLength]
    omega
  have hframe : frame msg = closed (frameHeader msg) ++ ([msg.srcAddr, seqLUN msg, msg.cmd] ++
      [msg.completionCode] ++
        (msg.data.val ++ [check (onBus (closed (frameHeader msg) ++ frameBody msg))])) := by
    rw [frame, closed, frameBody, if_pos hr]
    simp only [List.append_assoc]
  rw [getD_of_isPrefix h hlen]
  simp only [hframe]
  rfl

theorem ipmbDecode_frame (old : IpmiMsg) (h : frame msg <+: buffer) {len : UInt8}
    (hlen : len.toNat = (frame msg).length) : ipmbDecode old buffer len = decoded old msg := by
  have hdataLen : len.toNat - msg.headerLength - 1 = msg.dataLen := by
    rw [hlen, length_frame]
    omega
  have hlast : len.toNat - 1 = (closed (frameHeader msg) ++ frameBody msg).length := by
    rw [hlen, frame, length_closed, Nat.add_sub_cancel]
  have hchksum : buffer.getD (len.toNat - 1) 0 =
      check (onBus (closed (frameHeader msg) ++ frameBody msg)) := by
    rw [hlast, getD_of_isPrefix h (by rw [length_frame, headerLength_eq]; omega)]
    exact List.getElem_concat_length rfl _
  have hresponse := isResponse_decodeHeader old h
  have hheaderLength : (decodeHeader old buffer).headerLength = msg.headerLength := by
    rw [IpmiMsg.headerLength, hresponse, IpmiMsg.headerLength]
  have hdata : (⟨_, decoded_room buffer (decodeHeader old buffer).headerLength len⟩ : Payload) =
      msg.data := by
    apply Subtype.ext
    change slice buffer _ _ = msg.data.val
    rw [hheaderLength, hdataLen, payload_of_isPrefix h]
  have hcode : (if msg.isResponse =
      true then buffer.getD 6 0 else (decodeHeader old buffer).completionCode) =
      if msg.isResponse then msg.completionCode else old.completionCode := by
    split
    · next hr => exact completionCode_of_isPrefix h hr
    · rfl
  unfold ipmbDecode
  simp only [hdata, hchksum, hresponse, hcode]
  rw [decodeHeader_frame old h]
  rfl

/-- What a message leaves in the buffer of the receiver, and its length there. -/
theorem receive_transmit (i2c : I2c) (stack heap : Bytes)
    (htarget : msg.destAddr = cfg.channelTargetAddress)
    (hfit : msg.headerLength + msg.dataLen ≤ 254) :
    frame (addressed msg) <+: receive heap (transmit i2c cfg stack msg) ∧
      (UInt8.ofNat (transmit i2c cfg stack msg).length).toNat = (frame (addressed msg)).length := by
  rw [transmit_frame i2c stack htarget hfit]
  constructor
  · rw [← heard_frame]
    exact heard_isPrefix heap _ (List.cons_ne_nil _ _)
  · have hlength : (frame (addressed msg)).length = msg.headerLength + msg.dataLen + 1 :=
      length_frame _
    rw [length_onBus, length_frame, hlength, UInt8.toNat_ofNat']
    exact Nat.mod_eq_of_lt (by omega)

theorem accepts_transmit (i2c : I2c) (stack heap : Bytes)
    (htarget : msg.destAddr = cfg.channelTargetAddress)
    (hfit : msg.headerLength + msg.dataLen ≤ 254) :
    accepts heap (transmit i2c cfg stack msg) = true := by
  obtain ⟨hframe, hlen⟩ := receive_transmit i2c stack heap htarget hfit
  rw [accepts, frame_checks hframe hlen]
  rfl

theorem ipmbDecode_transmit (i2c : I2c) (old : IpmiMsg) (stack heap : Bytes)
    (htarget : msg.destAddr = cfg.channelTargetAddress)
    (hfit : msg.headerLength + msg.dataLen ≤ 254) :
    ipmbDecode old (receive heap (transmit i2c cfg stack msg))
      (UInt8.ofNat (transmit i2c cfg stack msg).length) =
      decoded old (addressed msg) := by
  obtain ⟨hframe, hlen⟩ := receive_transmit i2c stack heap htarget hfit
  exact ipmbDecode_frame old hframe hlen

/-- A message that a `uint8_t` can count reaches the receiver: its checksums hold there, and it
is decoded to itself, its fields cut to their widths in the frame. -/
theorem ipmb_frame_round_trip (i2c : I2c) (cfg : IpmbConfig) (msg old : IpmiMsg)
    (stack heap : Bytes) (htarget : msg.destAddr = cfg.channelTargetAddress)
    (hfit : msg.headerLength + msg.dataLen ≤ 254) :
    accepts heap (transmit i2c cfg stack msg) = true ∧
      ipmbDecode old (receive heap (transmit i2c cfg stack msg))
        (UInt8.ofNat (transmit i2c cfg stack msg).length) =
        decoded old (addressed msg) :=
  ⟨accepts_transmit i2c stack heap htarget hfit,
    ipmbDecode_transmit i2c old stack heap htarget hfit⟩

/-- `GET_DEVICE_ID` to address 0x20. -/
def getDeviceId : IpmiMsg :=
  { IpmiMsg.zero with destAddr := 0x20, netfn := 0x06, srcAddr := 0x20, seq := 5, cmd := 0x01 }

/-- A bus that does as documented. -/
def busWrite : I2c := ⟨fun targetAddr data => targetAddr <<< 1 :: data, fun _ _ => rfl⟩

theorem ipmb_frame_round_trip_get_device_id :
    accepts [] (transmit busWrite ⟨0x02, 0x20, 0x10⟩ [] getDeviceId) = true ∧
      ipmbDecode .zero (receive [] (transmit busWrite ⟨0x02, 0x20, 0x10⟩ [] getDeviceId))
        (UInt8.ofNat (transmit busWrite ⟨0x02, 0x20, 0x10⟩ [] getDeviceId).length) =
          decoded .zero (addressed getDeviceId) :=
  ipmb_frame_round_trip busWrite ⟨0x02, 0x20, 0x10⟩ getDeviceId .zero [] [] rfl (by decide)

/-! ### What the two checksums let through -/

/-- One checksum comparison, as a sum over the octets up to the checksum. -/
theorem checksum_iff_balanced {n : Nat} (h : p <+: buffer) (hp : p.length = n + 1) (hn : n ≠ 0) :
    buffer.getD n 0 = calculateChecksum buffer n ↔ Balanced (onBus p) := by
  obtain rfl | ⟨q, c, rfl⟩ := List.eq_nil_or_concat p
  · cases hp
  · have hq : q.length = n := by
      rw [List.concat_eq_append, List.length_append] at hp
      exact Nat.succ.inj hp
    have hne : q ≠ [] := List.length_pos_iff.mp (by omega)
    rw [List.concat_eq_append] at h
    have hget : buffer.getD n 0 = c := by
      rw [getD_of_isPrefix h (by rw [List.length_append, hq]; exact Nat.lt_succ_self n)]
      exact List.getElem_concat_length hq.symm _
    rw [hget, ← hq, calculateChecksum_of_isPrefix ((List.prefix_append q _).trans h) hne,
      List.concat_eq_append, onBus_append hne, balanced_append_singleton]

theorem heard_take (wire : Bytes) (n : Nat) : heard (wire.take n) = (heard wire).take n := by
  cases wire with
  | nil => rw [List.take_nil, heard, List.take_nil]
  | cons address rest =>
      cases n with
      | zero => rfl
      | succ n => rfl

@[simp] theorem length_heard (wire : Bytes) : (heard wire).length = wire.length := by
  cases wire with
  | nil => rfl
  | cons address rest => rfl

/-- What is accepted: the sums over the header and over the whole frame vanish. -/
theorem accepts_iff (heap : Bytes) (hmin : 3 ≤ wire.length) (hmax : wire.length ≤ 255) :
    accepts heap wire = true ↔ Balanced (onBus (heard (wire.take 3))) ∧
      Balanced (onBus (heard wire)) := by
  have hprefix := heard_isPrefix heap wire (List.length_pos_iff.mp (by omega))
  have hprefix₃ : heard (wire.take 3) <+: receive heap wire := by
    rw [heard_take]
    exact (List.take_prefix 3 _).trans hprefix
  have hlen : (UInt8.ofNat wire.length).toNat = wire.length := by
    rw [UInt8.toNat_ofNat']
    exact Nat.mod_eq_of_lt (by omega)
  have hheader := checksum_iff_balanced (n := 2) hprefix₃
    (by rw [length_heard, List.length_take, Nat.min_eq_left hmin]) (by decide)
  have hwhole :=
    checksum_iff_balanced (n := wire.length - 1) hprefix (by rw [length_heard]; omega) (by omega)
  rw [← hheader, ← hwhole, accepts, decide_eq_true_iff, validateChecksum, hlen]
  constructor
  · intro h
    split at h
    · next hh =>
        split at h
        · next hw => exact ⟨hh, hw⟩
        · cases h
    · cases h
  · intro h
    exact (if_pos h.1).trans (if_pos h.2)

theorem shift_back (x : UInt8) : x >>> 1 <<< 1 >>> 1 = x >>> 1 := by
  apply eq_of_bits
  intro i hi
  interval_cases i <;> simp

/-- The octets summed, the bit next to the address cleared. -/
theorem onBus_heard_set {i : Nat} {x : UInt8} (hi : i ≠ 0) :
    onBus (heard (wire.set i x)) = (onBus (heard wire)).set i x := by
  obtain ⟨n, rfl⟩ := Nat.exists_eq_succ_of_ne_zero hi
  cases wire with
  | nil => rfl
  | cons address rest => rfl

/-- A change of a single octet of an accepted frame goes unnoticed only in the bit beside the
address, which is shifted out. -/
theorem ipmb_single_octet_detected (heap heap' wire : Bytes) {i : Nat} (x : UInt8)
    (hmin : 3 ≤ wire.length) (hmax : wire.length ≤ 255) (hok : accepts heap wire = true)
    (hi : i < wire.length) :
    accepts heap' (wire.set i x) = true ↔ x = wire[i] ∨ i = 0 ∧ x >>> 1 = wire[i] >>> 1 := by
  obtain ⟨hheader, hwhole⟩ := (accepts_iff heap hmin hmax).mp hok
  have hset : accepts heap' (wire.set i x) = true ↔ _ :=
    accepts_iff heap' (by rwa [List.length_set]) (by rwa [List.length_set])
  have hlt : i < (onBus (heard wire)).length := by rwa [length_onBus, length_heard]
  rw [hset]
  cases i with
  | zero =>
      obtain ⟨address, rest, rfl⟩ := List.exists_cons_of_ne_nil (List.length_pos_iff.mp hi)
      change Balanced (x >>> 1 <<< 1 :: rest.take 2) ∧ Balanced (x >>> 1 <<< 1 :: rest) ↔
        x = address ∨ 0 = 0 ∧ x >>> 1 = address >>> 1
      have hsame : Balanced (x >>> 1 <<< 1 :: rest) ↔ x >>> 1 <<< 1 = address >>> 1 <<< 1 :=
        balanced_set (i := 0) hwhole hlt
      constructor
      · rintro ⟨-, h⟩
        have hshift := congrArg (fun y : UInt8 => y >>> 1) (hsame.mp h)
        exact .inr ⟨rfl, by rwa [shift_back, shift_back] at hshift⟩
      · intro h
        have hx : x >>> 1 = address >>> 1 := h.elim (fun h => by rw [h]) And.right
        rw [hx]
        exact ⟨hheader, hwhole⟩
  | succ n =>
      have hgetElem : (onBus (heard wire))[n + 1] = wire[n + 1] := by
        cases wire with
        | nil => exact absurd hi (Nat.not_lt_zero _)
        | cons address rest => rfl
      constructor
      · rintro ⟨-, h⟩
        rw [onBus_heard_set (Nat.succ_ne_zero n)] at h
        exact .inl (((balanced_set hwhole hlt).mp h).trans hgetElem)
      · rintro (rfl | ⟨h, -⟩)
        · rw [List.set_getElem_self]
          exact ⟨hheader, hwhole⟩
        · cases h

/-- `getDeviceId` on the bus. -/
def getDeviceIdWire : Bytes := [0x40, 0x18, 0xA8, 0x20, 0x14, 0x01, 0xCB]

theorem ipmb_single_octet_detected_get_device_id :
    accepts [] (getDeviceIdWire.set 5 0x02) = true ↔
      (0x02 : UInt8) = getDeviceIdWire[5] ∨
      5 = 0 ∧ (0x02 : UInt8) >>> 1 = getDeviceIdWire[5] >>> 1 :=
  ipmb_single_octet_detected [] [] getDeviceIdWire (i := 5) 0x02 (by decide) (by decide)
    (by decide) (by decide)

end LinkedsemiZephyr.Ipmb
