import LinkedsemiZephyr.Lib.Resumable
import LinkedsemiZephyr.Spdm.MctpUsb

/-! The resynchronising framer against a reference parser of the whole stream. The
bridge is a resumable scanner whose verdicts are those of one loop iteration. -/
namespace LinkedsemiZephyr.Spdm
open Octets Resumable

/-- Everything from the first header start on. -/
def skipToHeader : Bytes → Bytes
  | [] => []
  | b :: bs => if isHeader (b :: bs) then b :: bs else skipToHeader bs

theorem skipToHeader_length (b : Bytes) : (skipToHeader b).length ≤ b.length := by
  induction b with
  | nil => exact Nat.le_refl 0
  | cons x b ih =>
      simp only [skipToHeader]
      split
      · exact Nat.le_refl _
      · exact Nat.le_succ_of_le ih

/-- The reference parser: skip to the first header; a LEN below four costs these four
bytes, any other LEN is a frame once that many bytes are there. -/
def referenceFrames (stream : Bytes) : List Bytes :=
  if (skipToHeader stream).length < 4 then []
  else if lenField (skipToHeader stream) < 4 then referenceFrames ((skipToHeader stream).drop 4)
  else if lenField (skipToHeader stream) ≤ (skipToHeader stream).length then
    (skipToHeader stream).take (lenField (skipToHeader stream)) ::
      referenceFrames ((skipToHeader stream).drop (lenField (skipToHeader stream)))
  else []
termination_by stream.length
decreasing_by
  all_goals
    have hle := skipToHeader_length stream
    simp only [List.length_drop]
    omega

def mctpNext (b : Bytes) : Verdict :=
  if b.length < 4 then .more
  else if !isHeader b then .skip 1
  else if lenField b < 4 then .skip 4
  else if lenField b ≤ b.length then .emit (lenField b)
  else .more

theorem isHeader_append {b : Bytes} (h : 4 ≤ b.length) (c : Bytes) :
    isHeader (b ++ c) = isHeader b := by
  simp only [isHeader, List.getElem?_append_left (show 0 < b.length by omega),
    List.getElem?_append_left (show 1 < b.length by omega),
    List.getElem?_append_left (show 2 < b.length by omega)]

theorem lenField_append {b : Bytes} (h : 4 ≤ b.length) (c : Bytes) :
    lenField (b ++ c) = lenField b := by
  simp only [lenField, List.getD_eq_getElem?_getD,
    List.getElem?_append_left (show 3 < b.length by omega)]

def mctpScanner : Scanner UInt8 where
  next := mctpNext
  skip_bound := by
    intro b n h
    simp only [mctpNext] at h
    split_ifs at h <;> cases h <;> omega
  emit_bound := by
    intro b n h
    simp only [mctpNext] at h
    split_ifs at h
    cases h
    omega
  stable := by
    intro b c h
    have hlen : 4 ≤ b.length := by
      by_contra hb
      exact h (by simp only [mctpNext, if_pos (show b.length < 4 by omega)])
    have hc : ¬ (b ++ c).length < 4 := by simp only [List.length_append]; omega
    simp only [mctpNext, isHeader_append hlen, lenField_append hlen, if_neg hc,
      if_neg (show ¬ b.length < 4 by omega)] at h ⊢
    split_ifs at h ⊢ with h₁ h₂ h₃ h₄ h₅
    · rfl
    · rfl
    · rfl
    · exact absurd rfl h
    · exact absurd (by simp only [List.length_append]; omega) h₃
    · rfl

theorem mctpNext_skip {b : Bytes} (hlen : 4 ≤ b.length) (h : isHeader b = false) :
    mctpScanner.next b = .skip 1 := by
  simp only [mctpScanner, mctpNext, if_neg (show ¬ b.length < 4 by omega), h,
    Bool.not_false, if_true]

theorem mctpNext_short {b : Bytes} (hlen : b.length < 4) : mctpScanner.next b = .more := by
  simp only [mctpScanner, mctpNext, if_pos hlen]

theorem mctpNext_frame {b : Bytes} (hlen : 4 ≤ b.length) (h : isHeader b = true) :
    mctpScanner.next b = if lenField b < 4 then .skip 4
      else if lenField b ≤ b.length then .emit (lenField b) else .more := by
  simp only [mctpScanner, mctpNext, if_neg (show ¬ b.length < 4 by omega), h, Bool.not_true,
    Bool.false_eq_true, if_false]

theorem pieces_skipToHeader (b : Bytes) :
    mctpScanner.pieces b = mctpScanner.pieces (skipToHeader b) := by
  induction b with
  | nil => rfl
  | cons x b ih =>
      simp only [skipToHeader]
      split
      · rfl
      · next h =>
          rw [← ih]
          by_cases hlen : 4 ≤ (x :: b).length
          · simpa only [List.append_nil, List.drop_one, List.tail_cons] using
              Scanner.pieces_skip (mctpNext_skip hlen (by simpa using h)) []
          · simp only [List.length_cons] at hlen
            rw [Scanner.pieces_more (mctpNext_short (by simp only [List.length_cons]; omega)),
              Scanner.pieces_more (mctpNext_short (by omega))]

theorem isHeader_skipToHeader (b : Bytes) :
    skipToHeader b = [] ∨ isHeader (skipToHeader b) = true := by
  induction b with
  | nil => exact .inl rfl
  | cons x b ih =>
      simp only [skipToHeader]
      split
      · next h => exact .inr h
      · exact ih

theorem isHeader_of_skipToHeader {b : Bytes} (h : 4 ≤ (skipToHeader b).length) :
    isHeader (skipToHeader b) = true := by
  rcases isHeader_skipToHeader b with hn | hh
  · simp [hn] at h
  · exact hh

/-- The reference parser is the scanner run to the end of the stream. -/
theorem referenceFrames_eq (stream : Bytes) :
    referenceFrames stream = mctpScanner.pieces stream := by
  induction stream using referenceFrames.induct with
  | case1 b hs =>
      rw [referenceFrames, if_pos hs, pieces_skipToHeader, Scanner.pieces_more (mctpNext_short hs)]
  | case2 b hs hl ih =>
      have hlen : 4 ≤ (skipToHeader b).length := by omega
      have hn := mctpNext_frame hlen (isHeader_of_skipToHeader hlen)
      rw [if_pos hl] at hn
      have hp := Scanner.pieces_skip hn []
      simp only [List.append_nil] at hp
      rw [referenceFrames, if_neg hs, if_pos hl, ih, pieces_skipToHeader b, hp]
  | case3 b hs hl hle ih =>
      have hlen : 4 ≤ (skipToHeader b).length := by omega
      have hn := mctpNext_frame hlen (isHeader_of_skipToHeader hlen)
      rw [if_neg hl, if_pos hle] at hn
      have hp := Scanner.pieces_emit hn []
      simp only [List.append_nil] at hp
      rw [referenceFrames, if_neg hs, if_neg hl, if_pos hle, ih, pieces_skipToHeader b, hp]
  | case4 b hs hl hle =>
      have hlen : 4 ≤ (skipToHeader b).length := by omega
      have hn := mctpNext_frame hlen (isHeader_of_skipToHeader hlen)
      rw [if_neg hl, if_neg hle] at hn
      rw [referenceFrames, if_neg hs, if_neg hl, if_neg hle, pieces_skipToHeader b,
        Scanner.pieces_more hn]

theorem pieces_drop_findHeader {buf : Bytes} (c : Bytes) {k : Nat} (h : k ≤ findHeader buf) :
    mctpScanner.pieces (buf ++ c) = mctpScanner.pieces (buf.drop k ++ c) := by
  induction k with
  | zero => rfl
  | succ k ih =>
      obtain ⟨hno, hlt⟩ := findHeader_spec (show k < findHeader buf by omega)
      have hlen : 4 ≤ (buf.drop k).length := by simp only [List.length_drop]; omega
      rw [ih (by omega), Scanner.pieces_skip (mctpNext_skip hlen hno), List.drop_drop]

theorem pieces_resync (buf c : Bytes) :
    mctpScanner.pieces (buf ++ c) = mctpScanner.pieces (resync buf ++ c) := by
  rw [resync_eq]
  exact pieces_drop_findHeader c (Nat.le_refl _)

/-- A `continue` changes no frame of the stream, whatever still arrives. -/
theorem frameLoopBody_again_pieces {buf rest : Bytes} (h : frameLoopBody buf = .again rest)
    (c : Bytes) : mctpScanner.pieces (buf ++ c) = mctpScanner.pieces (rest ++ c) := by
  rw [pieces_resync]
  simp only [frameLoopBody] at h
  split_ifs at h with hlen hh hl
  · cases h; rfl
  · cases h
    exact Scanner.pieces_skip (mctpNext_skip (by omega) (by simpa using hh)) c
  · cases h
    have hn := mctpNext_frame (show 4 ≤ (resync buf).length by omega) (by simpa using hh)
    rw [if_pos hl] at hn
    exact Scanner.pieces_skip hn c

theorem frameLoopBody_frame {buf rest : Bytes} {n : Nat} (h : frameLoopBody buf = .frame n rest) :
    4 ≤ rest.length ∧ isHeader rest = true ∧ lenField rest = n ∧ 4 ≤ n ∧
      rest.length ≤ buf.length ∧
      ∀ c, mctpScanner.pieces (buf ++ c) = mctpScanner.pieces (rest ++ c) := by
  simp only [frameLoopBody] at h
  split_ifs at h with hlen hh hl
  cases h
  exact ⟨by omega, by simpa using hh, rfl, by omega, resync_length buf, pieces_resync buf⟩

theorem pieces_frame {b : Bytes} {n : Nat} (hlen : 4 ≤ b.length) (hh : isHeader b = true)
    (hn : lenField b = n) (h4 : 4 ≤ n) (hle : n ≤ b.length) (c : Bytes) :
    mctpScanner.pieces (b ++ c) = b.take n :: mctpScanner.pieces (b.drop n ++ c) := by
  have hv := mctpNext_frame hlen hh
  rw [hn, if_neg (show ¬ n < 4 by omega), if_pos hle] at hv
  exact Scanner.pieces_emit hv c

/-- What one call of `recv_mctp_frame` does to the stream: a returned frame is the
reference parser's next one, a timeout costs no frame, and on a silent endpoint it
leaves none behind. -/
def FrameSpec (usb : MctpUsbTransport) : EStateM.Result PyErr MctpUsbTransport Bytes → Prop
  | .ok f usb' => referenceFrames usb.stream = f :: referenceFrames usb'.stream ∧
      usb'.stream.length < usb.stream.length ∧ usb'.reads.length ≤ usb.reads.length
  | .error e usb' => (∃ w, e = .usbTimeout w) ∧
      referenceFrames usb.stream = referenceFrames usb'.stream ∧
      usb'.stream.length ≤ usb.stream.length ∧ usb'.reads.length ≤ usb.reads.length - 1 ∧
      (usb.reads = [] → referenceFrames usb'.stream = [])

theorem recvMctpFrame_spec (usb : MctpUsbTransport) : FrameSpec usb (recvMctpFrame usb) := by
  induction usb using recvMctpFrame.induct with
  | case1 usb e usb₁ hr =>
      obtain ⟨⟨n, he⟩, hs, hl⟩ := readUntil_error hr
      rw [recvMctpFrame_noHeader hr]
      change usb₁.stream = usb.stream at hs
      refine ⟨⟨_, he⟩, by rw [hs], Nat.le_of_eq (by rw [hs]), hl, ?_⟩
      intro hnil
      rw [hnil] at hr
      obtain ⟨rfl, hshort⟩ := readUntil_silent hr
      rw [referenceFrames_eq, MctpUsbTransport.stream, pendingBytes, List.append_nil]
      exact Scanner.pieces_more (mctpNext_short hshort)
  | case2 usb usb₁ hr buf hb ih =>
      obtain ⟨hlen, -, hs, hl⟩ := readUntil_ok hr
      change usb₁.stream = usb.stream at hs
      have hshort := frameLoopBody_again hlen hb
      have hpieces : referenceFrames usb.stream =
          referenceFrames (MctpUsbTransport.mk buf usb₁.reads).stream := by
        rw [referenceFrames_eq, referenceFrames_eq, ← hs]
        exact frameLoopBody_again_pieces hb _
      have hle : (MctpUsbTransport.mk buf usb₁.reads).stream.length ≤ usb.stream.length := by
        rw [← hs]
        simp only [MctpUsbTransport.stream_length]
        omega
      rw [recvMctpFrame_again hr hb]
      cases hres : recvMctpFrame ⟨buf, usb₁.reads⟩ with
      | ok f usb' =>
          rw [hres] at ih
          exact ⟨hpieces.trans ih.1, Nat.lt_of_lt_of_le ih.2.1 hle, Nat.le_trans ih.2.2 hl⟩
      | error e usb' =>
          rw [hres] at ih
          refine ⟨ih.1, hpieces.trans ih.2.1, Nat.le_trans ih.2.2.1 hle,
            Nat.le_trans ih.2.2.2.1 (Nat.sub_le_sub_right hl 1), ?_⟩
          intro hnil
          rw [hnil] at hl
          exact ih.2.2.2.2 (List.length_eq_zero_iff.mp (Nat.le_zero.mp hl))
  | case3 usb usb₁ hr totalLen buf hb e usb₂ hr₂ =>
      obtain ⟨hlen, -, hs, hl⟩ := readUntil_ok hr
      change usb₁.stream = usb.stream at hs
      obtain ⟨h4, hh, hn, hn4, hshort, hp⟩ := frameLoopBody_frame hb
      obtain ⟨⟨n, he⟩, hs₂, hl₂⟩ := readUntil_error hr₂
      rw [recvMctpFrame_frame hr hb, hr₂]
      refine ⟨⟨_, he⟩, ?_, ?_, Nat.le_trans hl₂ (Nat.sub_le_sub_right hl 1), ?_⟩
      · rw [referenceFrames_eq, referenceFrames_eq, ← hs, hs₂]
        exact hp _
      · rw [← hs, hs₂]
        simp only [MctpUsbTransport.stream_length, List.length_append]
        omega
      · intro hnil
        rw [hnil] at hl
        rw [List.length_eq_zero_iff.mp (Nat.le_zero.mp hl)] at hr₂
        obtain ⟨rfl, hcut⟩ := readUntil_silent hr₂
        rw [referenceFrames_eq, MctpUsbTransport.stream, pendingBytes, List.append_nil]
        apply Scanner.pieces_more
        rw [mctpNext_frame h4 hh, hn, if_neg (by omega), if_neg (by omega)]
  | case4 usb usb₁ hr totalLen buf hb usb₂ hr₂ =>
      obtain ⟨hlen, -, hs, hl⟩ := readUntil_ok hr
      change usb₁.stream = usb.stream at hs
      obtain ⟨h4, hh, hn, hn4, hshort, hp⟩ := frameLoopBody_frame hb
      obtain ⟨hle, ⟨t, ht⟩, hs₂, hl₂⟩ := readUntil_ok hr₂
      have hframe := pieces_frame (b := usb₂.rxBuf) (n := totalLen)
        (by rw [← ht, List.length_append]; omega)
        (by rw [← ht, isHeader_append h4, hh]) (by rw [← ht, lenField_append h4, hn]) hn4 hle
      rw [recvMctpFrame_frame hr hb, hr₂]
      refine ⟨?_, ?_, Nat.le_trans hl₂ hl⟩
      · rw [referenceFrames_eq, referenceFrames_eq, ← hs]
        exact (hp _).trans (by rw [← hs₂]; exact hframe _)
      · have hsum := congrArg List.length hs₂
        rw [← hs]
        simp only [MctpUsbTransport.stream_length, List.length_append, List.length_drop] at hsum ⊢
        omega

/-- Frames of successive calls, a caller that retries after every timeout, and what the
buffer holds when the endpoint has gone silent. -/
def recvAll (usb : MctpUsbTransport) : List Bytes × Bytes :=
  match _h : recvMctpFrame usb with
  | .ok f usb' => (f :: (recvAll usb').1, (recvAll usb').2)
  | .error _ usb' => if usb.reads = [] then ([], usb'.rxBuf) else recvAll usb'
termination_by usb.stream.length + usb.reads.length
decreasing_by
  · have hf := recvMctpFrame_spec usb
    rw [_h] at hf
    have hlt := hf.2.1
    have hle := hf.2.2
    omega
  · have hf := recvMctpFrame_spec usb
    rw [_h] at hf
    have hle := hf.2.2.1
    have hlt := hf.2.2.2.1
    have hpos : 0 < usb.reads.length := List.length_pos_of_ne_nil ‹_›
    omega

theorem recvAll_ok {usb usb' : MctpUsbTransport} {f : Bytes} (h : recvMctpFrame usb = .ok f usb') :
    recvAll usb = (f :: (recvAll usb').1, (recvAll usb').2) := by
  rw [recvAll]
  split <;> simp_all

theorem recvAll_timeout {usb usb' : MctpUsbTransport} {e : PyErr}
    (h : recvMctpFrame usb = .error e usb') :
    recvAll usb = if usb.reads = [] then ([], usb'.rxBuf) else recvAll usb' := by
  rw [recvAll]
  split <;> simp_all

theorem recvAll_reference (usb : MctpUsbTransport) :
    (recvAll usb).1 = referenceFrames usb.stream := by
  induction usb using recvAll.induct with
  | case1 usb f usb' h ih =>
      have hf := recvMctpFrame_spec usb
      rw [h] at hf
      rw [recvAll_ok h, hf.1, ih]
  | case2 usb e usb' h hr =>
      have hf := recvMctpFrame_spec usb
      rw [h] at hf
      rw [recvAll_timeout h, if_pos hr, hf.2.1, hf.2.2.2.2 hr]
  | case3 usb e usb' h hr ih =>
      have hf := recvMctpFrame_spec usb
      rw [h] at hf
      rw [recvAll_timeout h, if_neg hr, hf.2.1, ih]

/-- The frames depend on the bytes alone: not on how the reads cut them, nor on where
receives time out. A timeout keeps every byte the reference parser still uses, and an
iteration that reads nothing shortens the buffer. -/
theorem recvMctpFrame_chunking_independent :
    (∀ reads, (recvAll ⟨[], reads⟩).1 = referenceFrames (pendingBytes reads)) ∧
    (∀ usb e usb', recvMctpFrame usb = .error e usb' →
      referenceFrames usb'.stream = referenceFrames usb.stream) ∧
    (∀ buf rest, 4 ≤ buf.length → frameLoopBody buf = .again rest → rest.length < buf.length) := by
  refine ⟨fun reads => recvAll_reference ⟨[], reads⟩, ?_, fun _ _ => frameLoopBody_again⟩
  intro usb e usb' h
  have hf := recvMctpFrame_spec usb
  rw [h] at hf
  exact hf.2.1.symm

end LinkedsemiZephyr.Spdm
