import LinkedsemiZephyr.Spdm.Reassembly

/-! Packetised messages come back whole: from the packets of a message to frames, from
frames to a byte stream, and through any reads of that stream. -/
namespace LinkedsemiZephyr.Spdm
open Octets

/-- No read times out. -/
def Lossless (reads : List UsbRead) : Prop := ∀ r ∈ reads, r ≠ .timeout

theorem readUntil_lossless {need : Nat} (wait : Nat → UsbWait) {buf : Bytes} {rs : List UsbRead}
    (hl : Lossless rs) (hn : need ≤ (buf ++ pendingBytes rs).length) :
    ∃ usb, readUntil need wait buf rs = .ok () usb ∧ Lossless usb.reads := by
  induction rs generalizing buf with
  | nil =>
      simp only [pendingBytes, List.append_nil] at hn
      exact ⟨⟨buf, []⟩, by simp only [readUntil, if_pos hn], hl⟩
  | cons r rs ih =>
      by_cases hb : need ≤ buf.length
      · exact ⟨⟨buf, r :: rs⟩, by simp only [readUntil, if_pos hb], hl⟩
      · cases r with
        | timeout => exact absurd rfl (hl _ List.mem_cons_self)
        | chunk data =>
            simp only [pendingBytes, ← List.append_assoc] at hn
            obtain ⟨usb, hr, hu⟩ := ih (fun r hr => hl r (List.mem_cons_of_mem _ hr)) hn
            exact ⟨usb, by simp only [readUntil, if_neg hb, hr], hu⟩

theorem findHeader_eq_zero {buf : Bytes} (h : isHeader buf = true) : findHeader buf = 0 := by
  by_contra hne
  have hno := (findHeader_spec (Nat.pos_of_ne_zero hne)).1
  rw [List.drop_zero, h] at hno
  cases hno

theorem frameLoopBody_whole {buf : Bytes} {n : Nat} (hlen : 4 ≤ buf.length)
    (hh : isHeader buf = true) (hn : lenField buf = n) (h4 : 4 ≤ n) :
    frameLoopBody buf = .frame n buf := by
  have hr : resync buf = buf := by rw [resync_eq, findHeader_eq_zero hh, List.drop_zero]
  simp only [frameLoopBody, hr, hn, hh, Bool.not_true, Bool.false_eq_true, if_false,
    if_neg (show ¬ buf.length < 4 by omega), if_neg (show ¬ n < 4 by omega)]

/-- A frame that says its own length and stands at the front of the stream. -/
structure IsFrame (f : Bytes) : Prop where
  long : 4 ≤ f.length
  header : isHeader f = true
  len : lenField f = f.length

theorem recvMctpFrame_whole {usb : MctpUsbTransport} {f rest : Bytes} (hf : IsFrame f)
    (hs : usb.stream = f ++ rest) (hl : Lossless usb.reads) :
    ∃ usb', recvMctpFrame usb = .ok f usb' ∧ usb'.stream = rest ∧ Lossless usb'.reads := by
  have hlong : f.length ≤ usb.stream.length := by rw [hs, List.length_append]; omega
  obtain ⟨usb₁, hr₁, hl₁⟩ := readUntil_lossless (fun _ => .header) hl
    (Nat.le_trans hf.long hlong)
  obtain ⟨h4, -, hs₁, -⟩ := readUntil_ok hr₁
  replace hs₁ : usb₁.rxBuf ++ pendingBytes usb₁.reads = f ++ rest := hs₁.trans hs
  have hh : isHeader usb₁.rxBuf = true := by
    rw [← isHeader_append h4 (pendingBytes usb₁.reads), hs₁, isHeader_append hf.long, hf.header]
  have hn : lenField usb₁.rxBuf = f.length := by
    rw [← lenField_append h4 (pendingBytes usb₁.reads), hs₁, lenField_append hf.long, hf.len]
  have hall : f.length ≤ (usb₁.rxBuf ++ pendingBytes usb₁.reads).length := by
    rw [hs₁, List.length_append]; omega
  obtain ⟨usb₂, hr₂, hl₂⟩ := readUntil_lossless (fun n => .fullFrame n f.length) hl₁ hall
  obtain ⟨hle, -, hs₂, -⟩ := readUntil_ok hr₂
  replace hs₂ : usb₂.rxBuf ++ pendingBytes usb₂.reads = f ++ rest := hs₂.trans hs₁
  rw [recvMctpFrame_frame hr₁ (frameLoopBody_whole h4 hh hn hf.long), hr₂]
  have htake : (usb₂.rxBuf ++ pendingBytes usb₂.reads).take f.length = f := by
    rw [hs₂, List.take_left]
  rw [List.take_append_of_le_length hle] at htake
  refine ⟨⟨usb₂.rxBuf.drop f.length, usb₂.reads⟩, by simp only [htake], ?_, hl₂⟩
  rw [MctpUsbTransport.stream, ← List.drop_append_of_le_length hle, hs₂, List.drop_left]

theorem delivers_stream {frames : List Bytes} (hf : ∀ f ∈ frames, IsFrame f)
    {usb : MctpUsbTransport} {rest : Bytes} (hs : usb.stream = frames.flatten ++ rest)
    (hl : Lossless usb.reads) :
    ∃ usb', usbSource.Delivers usb frames usb' ∧ usb'.stream = rest ∧ Lossless usb'.reads := by
  induction frames generalizing usb with
  | nil => exact ⟨usb, rfl, hs, hl⟩
  | cons f frames ih =>
      rw [List.flatten_cons, List.append_assoc] at hs
      obtain ⟨usb₁, hr, hs₁, hl₁⟩ := recvMctpFrame_whole (hf f List.mem_cons_self) hs hl
      obtain ⟨usb', hd, hs', hl'⟩ := ih (fun g hg => hf g (List.mem_cons_of_mem _ hg)) hs₁ hl₁
      exact ⟨usb', ⟨usb₁, hr, hd⟩, hs', hl'⟩

/-- The converse of `SpdmHost.recvLoop_ok`: such a run of frames is one message. -/
theorem SpdmHost.recvLoop_of_delivers {σ : Type} {S : FrameSource σ} {frames : List Bytes}
    (hlen : ∀ f ∈ frames, 9 ≤ f.length) (hend : EndsAtEom frames) {host : SpdmHost σ} {usb' : σ}
    (hd : S.Delivers host.usb frames usb') (msg : Bytes) (hne : assembled msg frames ≠ []) :
    ∃ host', host.recvLoop S msg = .ok (assembled msg frames) host' ∧ host'.usb = usb' := by
  induction frames generalizing host msg with
  | nil => exact hend.elim
  | cons f fs ih =>
      obtain ⟨usb, hf, hd⟩ := hd
      have hp := parseMctpPacket_ok (hlen f List.mem_cons_self)
      cases fs with
      | nil =>
          rw [show hasEom f = true from hend] at hp
          refine ⟨SpdmHost.notePacket { host with usb } f, ?_, ?_⟩
          · rw [SpdmHost.recvLoop_last hf hp, if_neg (by simpa [assembled] using hne)]
            rfl
          · rw [SpdmHost.notePacket_usb]; exact hd
      | cons g gs =>
          rw [hend.1] at hp
          rw [SpdmHost.recvLoop_more hf hp]
          exact ih (fun k hk => hlen k (List.mem_cons_of_mem _ hk)) hend.2
            (by rw [SpdmHost.notePacket_usb]; exact hd) _ hne

/-- One MCTP packet before its SOM and EOM bits are known: the header bytes and the
other six flag bits are free. -/
structure MctpPacket where
  version : UInt8
  dest : UInt8
  src : UInt8
  low : UInt8
  body : Bytes
  nonempty : body ≠ []
  bounded : body.length ≤ 247

def markedFlags (som eom : Bool) (low : UInt8) : UInt8 :=
  (if som then 0x80 else 0) ||| (if eom then 0x40 else 0) ||| (low &&& 0x3F)

def MctpPacket.bytes (p : MctpPacket) (som eom : Bool) : Bytes :=
  [p.version, p.dest, p.src, markedFlags som eom p.low] ++ p.body

theorem markedFlags_bits (som eom : Bool) (low : UInt8) :
    somBit (markedFlags som eom low) = som ∧ eomBit (markedFlags som eom low) = eom := by
  have h : ∀ n : Fin 256, ∀ som eom : Bool,
      somBit (markedFlags som eom (UInt8.ofNat n)) = som ∧
        eomBit (markedFlags som eom (UInt8.ofNat n)) = eom := by decide +kernel
  simpa only [UInt8.ofNat_toNat] using h ⟨low.toNat, low.toNat_lt⟩ som eom

/-- A message cut into consecutive packets. -/
structure MessageSplit where
  first : MctpPacket
  rest : List MctpPacket

def MessageSplit.packets (s : MessageSplit) : List MctpPacket := s.first :: s.rest

def MessageSplit.message (s : MessageSplit) : Bytes := s.packets.flatMap MctpPacket.body

/-- The packets after the first: EOM on the last. -/
def continuation : List MctpPacket → List Bytes
  | [] => []
  | p :: ps => p.bytes false ps.isEmpty :: continuation ps

/-- SOM on the first packet, EOM on the last. -/
def MessageSplit.wire (s : MessageSplit) : List Bytes :=
  s.first.bytes true s.rest.isEmpty :: continuation s.rest

/-- `build_frame` of a payload it accepts. -/
def usbFrame (payload : Bytes) : Bytes :=
  [mctpDmtf0, mctpDmtf1, 0x00, UInt8.ofNat (4 + payload.length)] ++ payload

theorem buildFrame_ok {payload : Bytes} (h : payload.length ≤ 251) :
    buildFrame payload = .ok (usbFrame payload) := by
  simp only [buildFrame, if_neg (show ¬ 4 + payload.length > 255 by omega), usbFrame]

theorem isFrame_usbFrame {payload : Bytes} (h : payload.length ≤ 251) :
    IsFrame (usbFrame payload) where
  long := by simp only [usbFrame, List.cons_append, List.length_cons]; omega
  header := by simp [isHeader, usbFrame]
  len := by
    simp only [lenField, usbFrame, List.cons_append, List.nil_append, List.length_cons,
      List.getD_cons_succ, List.getD_cons_zero, UInt8.toNat_ofNat']
    omega

section Packet
variable (p : MctpPacket) (som eom : Bool)

theorem MctpPacket.length_bytes : (p.bytes som eom).length = 4 + p.body.length := by
  simp only [MctpPacket.bytes, List.length_append, List.length_cons, List.length_nil]

theorem MctpPacket.bytes_bounded : (p.bytes som eom).length ≤ 251 := by
  have hb := p.bounded
  rw [p.length_bytes]
  omega

theorem MctpPacket.frame_long : 9 ≤ (usbFrame (p.bytes som eom)).length := by
  have hpos := List.length_pos_of_ne_nil p.nonempty
  simp only [usbFrame, List.length_append, p.length_bytes, List.length_cons, List.length_nil]
  omega

@[simp] theorem MctpPacket.hasSom_frame : hasSom (usbFrame (p.bytes som eom)) = som :=
  (markedFlags_bits som eom p.low).1

@[simp] theorem MctpPacket.hasEom_frame : hasEom (usbFrame (p.bytes som eom)) = eom :=
  (markedFlags_bits som eom p.low).2

@[simp] theorem MctpPacket.packetBody_frame : packetBody (usbFrame (p.bytes som eom)) = p.body :=
  rfl

end Packet

theorem continuation_noSom {ps : List MctpPacket} :
    ∀ f ∈ (continuation ps).map usbFrame, hasSom f = false := by
  induction ps with
  | nil => simp [continuation]
  | cons p ps ih =>
      simp only [continuation, List.map_cons, List.mem_cons, forall_eq_or_imp]
      exact ⟨p.hasSom_frame _ _, ih⟩

theorem continuation_body (ps : List MctpPacket) :
    ((continuation ps).map usbFrame).flatMap packetBody = ps.flatMap MctpPacket.body := by
  induction ps with
  | nil => rfl
  | cons p ps ih =>
      simp only [continuation, List.map_cons, List.flatMap_cons, MctpPacket.packetBody_frame, ih]

theorem endsAtEom_continuation (p : MctpPacket) (som : Bool) (ps : List MctpPacket) :
    EndsAtEom ((p.bytes som ps.isEmpty :: continuation ps).map usbFrame) := by
  induction ps generalizing p som with
  | nil => exact p.hasEom_frame som true
  | cons q ps ih => exact endsAtEom_cons (p.hasEom_frame som false) (ih q false)

theorem mem_continuation {ps : List MctpPacket} {b : Bytes} (h : b ∈ continuation ps) :
    ∃ p som eom, b = MctpPacket.bytes p som eom := by
  induction ps with
  | nil => cases h
  | cons p ps ih =>
      rcases List.mem_cons.mp h with rfl | h
      · exact ⟨p, false, _, rfl⟩
      · exact ih h

theorem MessageSplit.mem_wire {s : MessageSplit} {b : Bytes} (h : b ∈ s.wire) :
    ∃ p som eom, b = MctpPacket.bytes p som eom := by
  rcases List.mem_cons.mp h with rfl | h
  · exact ⟨s.first, true, _, rfl⟩
  · exact mem_continuation h

theorem MessageSplit.assembled_wire (s : MessageSplit) :
    assembled [] (s.wire.map usbFrame) = s.message := by
  rw [MessageSplit.wire, List.map_cons,
    ← List.nil_append (usbFrame (s.first.bytes true s.rest.isEmpty) :: _),
    assembled_restart (s.first.hasSom_frame _ _) continuation_noSom, List.flatMap_cons,
    continuation_body]
  rfl

theorem MessageSplit.message_ne (s : MessageSplit) : s.message ≠ [] := by
  simp only [MessageSplit.message, MessageSplit.packets, List.flatMap_cons, ne_eq,
    List.append_eq_nil_iff]
  intro h
  exact s.first.nonempty h.1

/-- Successive calls of `recv_mctp_payload`. -/
def SpdmHost.recvMessages {σ : Type} (S : FrameSource σ) :
    Nat → SpdmHost σ → EStateM.Result PyErr (SpdmHost σ) (List Bytes)
  | 0, host => .ok [] host
  | n + 1, host =>
    match host.recvMctpPayload S with
    | .error e host' => .error e host'
    | .ok m host' =>
      match recvMessages S n host' with
      | .error e host'' => .error e host''
      | .ok ms host'' => .ok (m :: ms) host''

/-- One call takes exactly the packets of the first message. -/
theorem recvMctpPayload_split (s : MessageSplit) {host : SpdmHost MctpUsbTransport} {rest : Bytes}
    (hs : host.usb.stream = (s.wire.map usbFrame).flatten ++ rest) (hl : Lossless host.usb.reads) :
    ∃ host', host.recvMctpPayload usbSource = .ok s.message host' ∧ host'.usb.stream = rest ∧
      Lossless host'.usb.reads := by
  have hframe : ∀ f ∈ s.wire.map usbFrame, IsFrame f := by
    intro f hf
    obtain ⟨b, hb, rfl⟩ := List.mem_map.mp hf
    obtain ⟨p, som, eom, rfl⟩ := s.mem_wire hb
    exact isFrame_usbFrame (p.bytes_bounded som eom)
  have hlong : ∀ f ∈ s.wire.map usbFrame, 9 ≤ f.length := by
    intro f hf
    obtain ⟨b, hb, rfl⟩ := List.mem_map.mp hf
    obtain ⟨p, som, eom, rfl⟩ := s.mem_wire hb
    exact p.frame_long som eom
  obtain ⟨usb', hd, hs', hl'⟩ := delivers_stream hframe hs hl
  have hasm := s.assembled_wire
  obtain ⟨host', hr, rfl⟩ := SpdmHost.recvLoop_of_delivers hlong
    (endsAtEom_continuation s.first true s.rest) hd [] (by rw [hasm]; exact s.message_ne)
  exact ⟨host', by rw [SpdmHost.recvMctpPayload, hr, hasm], hs', hl'⟩

theorem recvMessages_splits (splits : List MessageSplit) {host : SpdmHost MctpUsbTransport}
    {rest : Bytes}
    (hs : host.usb.stream = ((splits.flatMap MessageSplit.wire).map usbFrame).flatten ++ rest)
    (hl : Lossless host.usb.reads) :
    ∃ host', host.recvMessages usbSource splits.length =
      .ok (splits.map MessageSplit.message) host' ∧
      host'.usb.stream = rest := by
  induction splits generalizing host with
  | nil => exact ⟨host, rfl, hs⟩
  | cons s splits ih =>
      rw [List.flatMap_cons, List.map_append, List.flatten_append, List.append_assoc] at hs
      obtain ⟨host₁, hr, hs₁, hl₁⟩ := recvMctpPayload_split s hs hl
      obtain ⟨host', hrest, hs'⟩ := ih hs₁ hl₁
      exact ⟨host',
        by simp only [List.length_cons, SpdmHost.recvMessages, hr, hrest, List.map_cons], hs'⟩

theorem mapM_buildFrame {ps : List Bytes} (h : ∀ p ∈ ps, p.length ≤ 251) :
    ps.mapM buildFrame = .ok (ps.map usbFrame) := by
  induction ps with
  | nil => rfl
  | cons p ps ih =>
      rw [List.mapM_cons, buildFrame_ok (h p List.mem_cons_self),
        ih fun q hq => h q (List.mem_cons_of_mem _ hq)]
      rfl

/-- Framed messages come back in order from any reads of their bytes, and nothing is
left over. -/
theorem recvMctpPayload_roundtrip (splits : List MessageSplit) :
    ∃ frames, (splits.flatMap MessageSplit.wire).mapM buildFrame = .ok frames ∧
      ∀ (reads : List UsbRead) (host : SpdmHost MctpUsbTransport),
        Lossless reads → pendingBytes reads = frames.flatten → host.usb = ⟨[], reads⟩ →
        ∃ host', host.recvMessages usbSource splits.length =
            .ok (splits.map MessageSplit.message) host' ∧
          host'.usb.rxBuf = [] ∧ pendingBytes host'.usb.reads = [] := by
  refine ⟨(splits.flatMap MessageSplit.wire).map usbFrame, mapM_buildFrame ?_, ?_⟩
  · intro b hb
    obtain ⟨s, -, hb⟩ := List.mem_flatMap.mp hb
    obtain ⟨p, som, eom, rfl⟩ := s.mem_wire hb
    exact p.bytes_bounded som eom
  · intro reads host hl hp hu
    have hs : host.usb.stream =
        ((splits.flatMap MessageSplit.wire).map usbFrame).flatten ++ [] := by
      rw [hu, MctpUsbTransport.stream, hp, List.nil_append, List.append_nil]
    obtain ⟨host', hr, hs'⟩ := recvMessages_splits splits hs (by rw [hu]; exact hl)
    exact ⟨host', hr, List.append_eq_nil_iff.mp hs'⟩

end LinkedsemiZephyr.Spdm
