import LinkedsemiZephyr.Spdm.MctpPacket
import Mathlib.Data.List.Infix

/-! What `recv_mctp_payload` returns: which packets a message is made of, and the round
trip of packetised messages through framed USB reads. -/
namespace LinkedsemiZephyr.Spdm
open Octets

def packetFlags (frame : Bytes) : UInt8 := frame.getD 7 0
def packetSrc (frame : Bytes) : UInt8 := frame.getD 6 0
def packetTag (frame : Bytes) : UInt8 := packetFlags frame &&& 0x07
def packetBody (frame : Bytes) : Bytes := frame.drop 8
def hasSom (frame : Bytes) : Bool := somBit (packetFlags frame)
def hasEom (frame : Bytes) : Bool := eomBit (packetFlags frame)

theorem parseMctpPacket_ok {frame : Bytes} (h : 9 ≤ frame.length) :
    parseMctpPacket frame = .ok (hasSom frame, hasEom frame, packetBody frame) := by
  have hp : ¬ (frame.drop 4).length < 5 := by simp only [List.length_drop]; omega
  simp only [parseMctpPacket, if_neg (show ¬ frame.length < 4 by omega), if_neg hp, hasSom, hasEom,
    packetFlags, packetBody, List.getD_eq_getElem?_getD, List.getElem?_drop, List.drop_drop]

theorem parseMctpPacket_inv {frame body : Bytes} {som eom : Bool}
    (h : parseMctpPacket frame = .ok (som, eom, body)) :
    9 ≤ frame.length ∧ hasSom frame = som ∧ hasEom frame = eom ∧ packetBody frame = body := by
  have hlen : 9 ≤ frame.length := by
    by_contra hlt
    simp only [parseMctpPacket, List.length_drop] at h
    split_ifs at h
    omega
  rw [parseMctpPacket_ok hlen] at h
  simp only [Except.ok.injEq, Prod.mk.injEq] at h
  exact ⟨hlen, h⟩

/-- A run of successful `recv_mctp_frame` calls and the frames it returned. -/
def FrameSource.Delivers {σ : Type} (S : FrameSource σ) : σ → List Bytes → σ → Prop
  | s, [], s' => s = s'
  | s, f :: fs, s' => ∃ s₁, S.recvMctpFrame s = .ok f s₁ ∧ S.Delivers s₁ fs s'

/-- The buffer of the loop after some packets. -/
def assembled (msg : Bytes) (frames : List Bytes) : Bytes :=
  frames.foldl (fun msg f => accumulate msg (hasSom f) (packetBody f)) msg

/-- Only the last packet has EOM. -/
def EndsAtEom : List Bytes → Prop
  | [] => False
  | [f] => hasEom f = true
  | f :: fs => hasEom f = false ∧ EndsAtEom fs

theorem endsAtEom_cons {f : Bytes} {fs : List Bytes} (hf : hasEom f = false) (h : EndsAtEom fs) :
    EndsAtEom (f :: fs) := by
  cases fs with
  | nil => exact h.elim
  | cons g fs => exact ⟨hf, h⟩

theorem endsAtEom_append {before fs : List Bytes} (h : EndsAtEom (before ++ fs)) (hne : fs ≠ []) :
    EndsAtEom fs := by
  induction before with
  | nil => exact h
  | cons f before ih =>
      cases hb : before ++ fs with
      | nil => exact absurd (List.append_eq_nil_iff.mp hb).2 hne
      | cons g gs =>
          rw [List.cons_append, hb] at h
          exact ih (by rw [hb]; exact h.2)

variable {σ : Type} {S : FrameSource σ}

/-- A returned message is what the packets of the call leave in the buffer, and the
call stops at the first EOM. -/
theorem SpdmHost.recvLoop_ok {host host' : SpdmHost σ} {msg m : Bytes}
    (h : host.recvLoop S msg = .ok m host') :
    ∃ frames, S.Delivers host.usb frames host'.usb ∧ m = assembled msg frames ∧
      EndsAtEom frames := by
  induction host, msg using SpdmHost.recvLoop.induct (S := S) with
  | case1 host msg e usb hf => rw [SpdmHost.recvLoop_timeout hf] at h; cases h
  | case2 host msg frame usb hf e hp => rw [SpdmHost.recvLoop_malformed hf hp] at h; cases h
  | case3 host msg frame usb hf som body hempty hp =>
      rw [SpdmHost.recvLoop_last hf hp, if_pos hempty] at h
      cases h
  | case4 host msg frame usb hf som body hempty hp =>
      obtain ⟨-, rfl, he, rfl⟩ := parseMctpPacket_inv hp
      rw [SpdmHost.recvLoop_last hf hp, if_neg hempty] at h
      cases h
      exact ⟨[frame], ⟨usb, hf, by rw [SpdmHost.notePacket_usb]; rfl⟩, rfl, he⟩
  | case5 host msg frame usb hf som eom body hp heom ih =>
      obtain rfl : eom = false := by simpa using heom
      obtain ⟨-, rfl, he, rfl⟩ := parseMctpPacket_inv hp
      rw [SpdmHost.recvLoop_more hf hp] at h
      obtain ⟨frames, hd, hm, hend⟩ := ih h
      exact ⟨frame :: frames, ⟨usb, hf, by simpa using hd⟩, hm, endsAtEom_cons he hend⟩

theorem assembled_noSom {frames : List Bytes} (h : ∀ f ∈ frames, hasSom f = false) (msg : Bytes) :
    assembled msg frames = msg ++ frames.flatMap packetBody := by
  induction frames generalizing msg with
  | nil => simp [assembled]
  | cons f frames ih =>
      have hf := h f List.mem_cons_self
      have hrest :=
        ih (fun g hg => h g (List.mem_cons_of_mem _ hg)) (accumulate msg (hasSom f) (packetBody f))
      simp only [assembled, List.foldl_cons, List.flatMap_cons] at hrest ⊢
      rw [hrest]
      simp only [hf, accumulate, Bool.false_eq_true, if_false, List.append_assoc]

theorem assembled_restart {first : Bytes} (hf : hasSom first = true) {rest : List Bytes}
    (h : ∀ f ∈ rest, hasSom f = false) (msg : Bytes) (before : List Bytes) :
    assembled msg (before ++ first :: rest) = (first :: rest).flatMap packetBody := by
  have hrest := assembled_noSom h (packetBody first)
  simp only [assembled, List.foldl_append, List.foldl_cons, hf, accumulate, if_true] at hrest ⊢
  rw [hrest, List.flatMap_cons]

theorem exists_lastSom {frames : List Bytes} (h : frames.any hasSom = true) :
    ∃ before first rest, frames = before ++ first :: rest ∧ hasSom first = true ∧
      ∀ f ∈ rest, hasSom f = false := by
  induction frames with
  | nil => simp at h
  | cons f frames ih =>
      by_cases hr : frames.any hasSom = true
      · obtain ⟨before, first, rest, rfl, hf, hn⟩ := ih hr
        exact ⟨f :: before, first, rest, rfl, hf, hn⟩
      · have hn : ∀ g ∈ frames, hasSom g = false := by simpa using hr
        simp only [List.any_cons, Bool.or_eq_true] at h
        exact ⟨[], f, frames, rfl, h.resolve_right hr, hn⟩

/-- The packets up to and including the first EOM. -/
def untilEom : List Bytes → List Bytes
  | [] => []
  | f :: fs => if hasEom f then [f] else f :: untilEom fs

theorem untilEom_eq {frames : List Bytes} (h : EndsAtEom frames) : untilEom frames = frames := by
  induction frames with
  | nil => rfl
  | cons f fs ih =>
      cases fs with
      | nil => simp only [untilEom, show hasEom f = true from h, if_true]
      | cons g gs =>
          rw [untilEom, h.1, ih h.2]
          rfl

theorem any_eom {frames : List Bytes} (h : EndsAtEom frames) : frames.any hasEom = true := by
  induction frames with
  | nil => exact h.elim
  | cons f fs ih =>
      cases fs with
      | nil => rw [List.any_cons, show hasEom f = true from h, Bool.true_or]
      | cons g gs => rw [List.any_cons, ih h.2, Bool.or_true]

/-- Packets that a receiver keyed by source EID and message tag puts together. -/
def sameSender (f g : Bytes) : Bool := packetSrc f == packetSrc g && packetTag f == packetTag g

/-- `m` starts at this SOM packet: of what follows, the packets that `keep` puts with it,
up to the first EOM among them, and nothing else. -/
def StartsMessage (keep : Bytes → Bytes → Bool) (m : Bytes) : List Bytes → Prop
  | [] => False
  | first :: rest =>
      hasSom first = true ∧ ((first :: rest).filter (keep first)).any hasEom = true ∧
        m = (untilEom ((first :: rest).filter (keep first))).flatMap packetBody

def ReassembledFrom (keep : Bytes → Bytes → Bool) (frames : List Bytes) (m : Bytes) : Prop :=
  ∃ run ∈ frames.tails, StartsMessage keep m run

instance (keep : Bytes → Bytes → Bool) (m : Bytes) : DecidablePred (StartsMessage keep m)
  | [] => inferInstanceAs (Decidable False)
  | _ :: _ => inferInstanceAs (Decidable (_ ∧ _ ∧ _))

instance (keep : Bytes → Bytes → Bool) (frames : List Bytes) (m : Bytes) :
    Decidable (ReassembledFrom keep frames m) :=
  inferInstanceAs (Decidable (∃ run ∈ frames.tails, StartsMessage keep m run))

theorem startsMessage_of_endsAtEom {keep : Bytes → Bytes → Bool} {first : Bytes} {rest : List Bytes}
    (hf : hasSom first = true) (hend : EndsAtEom (first :: rest))
    (hkeep : ∀ f ∈ first :: rest, keep first f = true) :
    StartsMessage keep ((first :: rest).flatMap packetBody) (first :: rest) := by
  have hall : (first :: rest).filter (keep first) = first :: rest := List.filter_eq_self.mpr hkeep
  refine ⟨hf, ?_, ?_⟩
  · rw [hall]
    exact any_eom hend
  · rw [hall, untilEom_eq hend]

theorem sameSender_refl (f : Bytes) : sameSender f f = true := by
  simp only [sameSender, beq_self_eq_true, Bool.and_self]

/-- A call that has seen a SOM returns exactly the bodies from its last SOM to its first
EOM. Packets are not told apart by sender; when those from that SOM on have one sender,
they are the run a receiver keyed by sender would have collected. -/
theorem recvMctpPayload_reassembles {host host' : SpdmHost σ} {m : Bytes}
    (h : host.recvMctpPayload S = .ok m host') :
    ∃ frames, S.Delivers host.usb frames host'.usb ∧ EndsAtEom frames ∧
      (frames.any hasSom = true →
        ReassembledFrom (fun _ _ => true) frames m ∧
        ∃ first rest, first :: rest <:+ frames ∧ hasSom first = true ∧
        (∀ f ∈ rest, hasSom f = false) ∧
          m = (first :: rest).flatMap packetBody ∧
          ((∀ f ∈ rest, sameSender first f = true) → ReassembledFrom sameSender frames m)) := by
  obtain ⟨frames, hd, hm, hend⟩ := SpdmHost.recvLoop_ok h
  refine ⟨frames, hd, hend, fun hsom => ?_⟩
  obtain ⟨before, first, rest, rfl, hf, hn⟩ := exists_lastSom hsom
  have hm' : m = (first :: rest).flatMap packetBody := hm.trans (assembled_restart hf hn [] before)
  have hrun : EndsAtEom (first :: rest) := endsAtEom_append hend (by simp)
  have hsuf : first :: rest <:+ before ++ first :: rest := List.suffix_append _ _
  have htail : first :: rest ∈ (before ++ first :: rest).tails := List.mem_tails _ _ |>.mpr hsuf
  refine ⟨⟨_, htail, hm' ▸ startsMessage_of_endsAtEom hf hrun (fun _ _ => rfl)⟩,
    first, rest, hsuf, hf, hn, hm', fun hsame => ⟨_, htail, ?_⟩⟩
  rw [hm']
  apply startsMessage_of_endsAtEom hf hrun
  intro f hmem
  rcases List.mem_cons.mp hmem with rfl | hmem
  · exact sameSender_refl f
  · exact hsame f hmem

def Delivery.frame? : Delivery → Option Bytes
  | .frame data => some data
  | .timeout => none

/-- EID 8 opens a message with tag 0; the end of another one, from EID 9 with tag 1,
comes in between. -/
def interleavedFrames : List Delivery :=
  [.frame [0x1A, 0xB4, 0x00, 0x09, 0x01, 0x14, 0x08, 0x80, 0x05],
    .frame [0x1A, 0xB4, 0x00, 0x09, 0x01, 0x14, 0x09, 0x41, 0x06]]

theorem interleavedFrames_returned :
    ∃ host', SpdmHost.recvMctpPayload queueSource { usb := interleavedFrames } =
      .ok [0x05, 0x06] host' ∧ host'.usb = [] := by
  refine ⟨{ usb := [], lastSrc := 0x09, lastDst := 0x14, lastTag := 0x01 }, ?_, rfl⟩
  have hopen : parseMctpPacket [0x1A, 0xB4, 0x00, 0x09, 0x01, 0x14, 0x08, 0x80, 0x05] =
      .ok (true, false, [0x05]) := rfl
  have hend : parseMctpPacket [0x1A, 0xB4, 0x00, 0x09, 0x01, 0x14, 0x09, 0x41, 0x06] =
      .ok (false, true, [0x06]) := rfl
  rw [SpdmHost.recvMctpPayload, SpdmHost.recvLoop_more rfl hopen, SpdmHost.recvLoop_last rfl hend]
  rfl

/-- Two senders' packets do mix, so no receiver keyed by sender returned this message. -/
theorem recvMctpPayload_mixes_senders :
    ¬ ∀ (deliveries : List Delivery) (m : Bytes) (host' : SpdmHost (List Delivery)),
      SpdmHost.recvMctpPayload queueSource { usb := deliveries } = .ok m host' →
      ReassembledFrom sameSender (deliveries.filterMap Delivery.frame?) m := by
  intro h
  obtain ⟨host', hr, -⟩ := interleavedFrames_returned
  exact absurd (h _ _ _ hr) (by decide)

/-- The frames that a queue delivers are those at its front. -/
theorem queueSource_delivers {queue queue' : List Delivery} {frames : List Bytes}
    (h : queueSource.Delivers queue frames queue') :
    queue.filterMap Delivery.frame? = frames ++ queue'.filterMap Delivery.frame? := by
  induction frames generalizing queue with
  | nil => exact congrArg (List.filterMap Delivery.frame?) h
  | cons f frames ih =>
      obtain ⟨middle, hf, hrest⟩ := h
      cases queue with
      | nil => cases hf
      | cons d queue =>
          cases d with
          | timeout => cases hf
          | frame data =>
              cases hf
              exact congrArg (f :: ·) (ih hrest)

theorem recvMctpPayload_reassembles_interleaved :
    EndsAtEom (interleavedFrames.filterMap Delivery.frame?) ∧
      ReassembledFrom (fun _ _ => true) (interleavedFrames.filterMap Delivery.frame?)
        [0x05, 0x06] := by
  obtain ⟨host', hr, husb⟩ := interleavedFrames_returned
  obtain ⟨frames, hd, hend, hsom⟩ := recvMctpPayload_reassembles hr
  have hframes : interleavedFrames.filterMap Delivery.frame? = frames := by
    rw [queueSource_delivers hd, husb]
    exact List.append_nil frames
  rw [hframes]
  exact ⟨hend, (hsom (hframes ▸ rfl)).1⟩

end LinkedsemiZephyr.Spdm
