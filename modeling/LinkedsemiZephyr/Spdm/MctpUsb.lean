import LinkedsemiZephyr.Spdm.PyErr
import Mathlib.Tactic.SplitIfs

/-! The byte layers of the host testers: framed MCTP over USB bulk reads, the MCTP
packet header, and reassembly into messages. USB is an explicit list of what the next
reads of the IN endpoint will do. -/
namespace LinkedsemiZephyr.Spdm
open Octets

def mctpDmtf0 : UInt8 := 0x1A
def mctpDmtf1 : UInt8 := 0xB4
def selfEid : UInt8 := 10
def busOwnerEid : UInt8 := 20

def mctpTypeSpdm : UInt8 := 0x05
def mctpTypeSecured : UInt8 := 0x06

/-- What one `endpoint_in.read` does. A timeout is either the read's own or the
expiry of the caller's deadline, which is tested just before each read. -/
inductive UsbRead where
  | chunk (data : Bytes)
  | timeout
  deriving DecidableEq, Repr

/-- `MctpUsbTransport`: the receive buffer and the reads still to come. With no read
left the endpoint stays silent and every wait times out. -/
structure MctpUsbTransport where
  rxBuf : Bytes
  reads : List UsbRead
  deriving DecidableEq, Repr

def isHeader (buf : Bytes) : Bool :=
  buf[0]? == some mctpDmtf0 && buf[1]? == some mctpDmtf1 && buf[2]? == some 0x00

/-- The LEN byte of a header at the front. -/
def lenField (buf : Bytes) : Nat := (buf.getD 3 0).toNat

/-- `_find_header`: the first header start, and 0 also when there is none. -/
def findHeader (buf : Bytes) : Nat :=
  ((List.range (buf.length - 2)).find? fun i => isHeader (buf.drop i)).getD 0

/-- `while len(self._rx_buf) < need: ... self._read_in(remain_ms)`. -/
def readUntil (need : Nat) (wait : Nat → UsbWait) (buf : Bytes) :
    List UsbRead → EStateM.Result PyErr MctpUsbTransport Unit
  | [] =>
      if need ≤ buf.length then .ok () ⟨buf, []⟩
      else .error (.usbTimeout (wait buf.length)) ⟨buf, []⟩
  | r :: rs =>
      if need ≤ buf.length then .ok () ⟨buf, r :: rs⟩
      else match r with
        | .chunk data => readUntil need wait (buf ++ data) rs
        | .timeout => .error (.usbTimeout (wait buf.length)) ⟨buf, rs⟩

/-- How the part of a loop iteration between the two waits ends: `continue`, or a
header at the front whose LEN asks for `totalLen` bytes. -/
inductive LoopExit where
  | again (buf : Bytes)
  | frame (totalLen : Nat) (buf : Bytes)
  deriving DecidableEq, Repr

/-- `idx = self._find_header(...)` and the deletion of what stands before it. -/
def resync (buf : Bytes) : Bytes :=
  let idx := findHeader buf
  if 0 < idx then buf.drop idx else buf

/-- The buffer work of one iteration of `recv_mctp_frame`, after four bytes are there. -/
def frameLoopBody (buf : Bytes) : LoopExit :=
  let buf := resync buf
  if buf.length < 4 then .again buf
  else if !isHeader buf then .again (buf.drop 1)
  else
    let totalLen := lenField buf
    if totalLen < 4 then .again (buf.drop 4) else .frame totalLen buf

/-- Bytes the reads will still deliver. -/
def pendingBytes : List UsbRead → Bytes
  | [] => []
  | .chunk data :: rs => data ++ pendingBytes rs
  | .timeout :: rs => pendingBytes rs

/-- All bytes not yet consumed by a frame, in stream order. -/
def MctpUsbTransport.stream (usb : MctpUsbTransport) : Bytes := usb.rxBuf ++ pendingBytes usb.reads

theorem readUntil_ok {need : Nat} {wait : Nat → UsbWait} {buf : Bytes} {rs : List UsbRead}
    {usb : MctpUsbTransport} (h : readUntil need wait buf rs = .ok () usb) :
    need ≤ usb.rxBuf.length ∧ buf <+: usb.rxBuf ∧ usb.stream = buf ++ pendingBytes rs ∧
      usb.reads.length ≤ rs.length := by
  induction rs generalizing buf with
  | nil =>
      simp only [readUntil] at h
      split at h
      · cases h; exact ⟨‹_›, List.prefix_refl _, rfl, Nat.le_refl _⟩
      · cases h
  | cons r rs ih =>
      simp only [readUntil] at h
      split at h
      · cases h; exact ⟨‹_›, List.prefix_refl _, rfl, Nat.le_refl _⟩
      · cases r with
        | chunk data =>
            obtain ⟨hn, hp, hs, hl⟩ := ih h
            exact ⟨hn, (List.prefix_append _ _).trans hp,
              by rw [hs, pendingBytes, List.append_assoc], Nat.le_succ_of_le hl⟩
        | timeout => cases h

/-- A wait that fails loses no byte, and has used up at least the read that timed out. -/
theorem readUntil_error {need : Nat} {wait : Nat → UsbWait} {buf : Bytes} {rs : List UsbRead}
    {e : PyErr} {usb : MctpUsbTransport} (h : readUntil need wait buf rs = .error e usb) :
    (∃ n, e = .usbTimeout (wait n)) ∧ usb.stream = buf ++ pendingBytes rs ∧
      usb.reads.length ≤ rs.length - 1 := by
  induction rs generalizing buf with
  | nil =>
      simp only [readUntil] at h
      split at h
      · cases h
      · cases h; exact ⟨⟨_, rfl⟩, rfl, Nat.le_refl _⟩
  | cons r rs ih =>
      simp only [readUntil] at h
      split at h
      · cases h
      · cases r with
        | chunk data =>
            obtain ⟨he, hs, hl⟩ := ih h
            exact ⟨he, by rw [hs, pendingBytes, List.append_assoc],
              Nat.le_trans hl (Nat.sub_le _ _)⟩
        | timeout => cases h; exact ⟨⟨_, rfl⟩, rfl, Nat.le_refl _⟩

theorem readUntil_silent {need : Nat} {wait : Nat → UsbWait} {buf : Bytes} {e : PyErr}
    {usb : MctpUsbTransport} (h : readUntil need wait buf [] = .error e usb) :
    usb = ⟨buf, []⟩ ∧ buf.length < need := by
  simp only [readUntil] at h
  split at h
  · cases h
  · cases h; exact ⟨rfl, by omega⟩

theorem findHeader_spec {buf : Bytes} {i : Nat} (h : i < findHeader buf) :
    isHeader (buf.drop i) = false ∧ findHeader buf + 2 < buf.length := by
  unfold findHeader at h ⊢
  cases hf : (List.range (buf.length - 2)).find? fun i => isHeader (buf.drop i) with
  | none => simp [hf] at h
  | some idx =>
      simp only [hf, Option.getD_some] at h ⊢
      obtain ⟨-, hm, hmin⟩ := List.find?_range_eq_some.mp hf
      have hlt := List.mem_range.mp hm
      refine ⟨by simpa using hmin i h, by omega⟩

theorem resync_eq (buf : Bytes) : resync buf = buf.drop (findHeader buf) := by
  simp only [resync]
  split
  · rfl
  · next h => rw [Nat.eq_zero_of_not_pos h, List.drop_zero]

theorem resync_length (buf : Bytes) : (resync buf).length ≤ buf.length := by
  rw [resync_eq, List.length_drop]
  omega

/-- The early `continue` is taken only after a deletion, so every `continue` deletes. -/
theorem frameLoopBody_again {buf rest : Bytes} (hlen : 4 ≤ buf.length)
    (h : frameLoopBody buf = .again rest) : rest.length < buf.length := by
  have hd := resync_length buf
  simp only [frameLoopBody] at h
  split_ifs at h
  · cases h; omega
  · cases h; simp only [List.length_drop]; omega
  · cases h; simp only [List.length_drop]; omega

theorem MctpUsbTransport.stream_length (usb : MctpUsbTransport) :
    usb.stream.length = usb.rxBuf.length + (pendingBytes usb.reads).length := by
  simp only [MctpUsbTransport.stream, List.length_append]

/-- `recv_mctp_frame`. Every `continue` shortens the buffer, and a read only moves
bytes from the endpoint into it, so the unread stream measures the loop. -/
def recvMctpFrame (usb : MctpUsbTransport) : EStateM.Result PyErr MctpUsbTransport Bytes :=
  match _hr : readUntil 4 (fun _ => .header) usb.rxBuf usb.reads with
  | .error e usb₁ => .error e usb₁
  | .ok () usb₁ =>
    match _hb : frameLoopBody usb₁.rxBuf with
    | .again buf => recvMctpFrame ⟨buf, usb₁.reads⟩
    | .frame totalLen buf =>
      match readUntil totalLen (fun n => .fullFrame n totalLen) buf usb₁.reads with
      | .error e usb₂ => .error e usb₂
      | .ok () usb₂ => .ok (usb₂.rxBuf.take totalLen) ⟨usb₂.rxBuf.drop totalLen, usb₂.reads⟩
termination_by usb.stream.length
decreasing_by
  obtain ⟨hlen, -, hs, -⟩ := readUntil_ok _hr
  have hlt := frameLoopBody_again hlen _hb
  have he := congrArg List.length hs
  simp only [MctpUsbTransport.stream_length, List.length_append] at he ⊢
  omega

section Unfold
variable {usb usb₁ usb₂ : MctpUsbTransport} {buf : Bytes} {totalLen : Nat} {e : PyErr}

theorem recvMctpFrame_noHeader
    (hr : readUntil 4 (fun _ => .header) usb.rxBuf usb.reads = .error e usb₁) :
    recvMctpFrame usb = .error e usb₁ := by
  rw [recvMctpFrame]
  split <;> simp_all

theorem recvMctpFrame_again
    (hr : readUntil 4 (fun _ => .header) usb.rxBuf usb.reads = .ok () usb₁)
    (hb : frameLoopBody usb₁.rxBuf = .again buf) :
    recvMctpFrame usb = recvMctpFrame ⟨buf, usb₁.reads⟩ := by
  rw [recvMctpFrame]
  split
  · simp_all
  · split <;> simp_all

theorem recvMctpFrame_frame
    (hr : readUntil 4 (fun _ => .header) usb.rxBuf usb.reads = .ok () usb₁)
    (hb : frameLoopBody usb₁.rxBuf = .frame totalLen buf) :
    recvMctpFrame usb = match readUntil totalLen (fun n => .fullFrame n totalLen) buf
    usb₁.reads with
      | .error e usb₂ => .error e usb₂
      | .ok () usb₂ => .ok (usb₂.rxBuf.take totalLen) ⟨usb₂.rxBuf.drop totalLen, usb₂.reads⟩ := by
  rw [recvMctpFrame]
  split
  · simp_all
  · split <;> simp_all

end Unfold

end LinkedsemiZephyr.Spdm
