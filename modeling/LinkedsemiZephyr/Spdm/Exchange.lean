import LinkedsemiZephyr.Spdm.Requester
import LinkedsemiZephyr.Spdm.ResponderSteps
import LinkedsemiZephyr.Spdm.RoundTrip

/-! Requester and responder over an intact link: an exchange is one `dispatch` between
two frames, and nothing but the negotiation requests moves `message_a`. -/
namespace LinkedsemiZephyr.Spdm
open Octets PartialRun SpdmPythonResponder

theorem of_buildFrame {payload frame : Bytes} (h : buildFrame payload = .ok frame) :
    frame = usbFrame payload := by
  simp only [buildFrame] at h
  split at h
  · cases h
  · cases h; rfl

/-- The body of a single-packet message is what stands behind the two headers. -/
@[simp] theorem drop_usbFrame (body : Bytes) (tag : UInt8) (tagOwner : Bool) :
    (usbFrame (buildMctp body tag tagOwner)).drop 8 = body := rfl

theorem parseMctpPacket_buildMctp {body : Bytes} (hne : body ≠ []) (tag : UInt8) (tagOwner : Bool) :
    ∃ som, parseMctpPacket (usbFrame (buildMctp body tag tagOwner)) = .ok (som, true, body) := by
  have hpos := List.length_pos_of_ne_nil hne
  have heom : ∀ n : Fin 8,
      eomBit (0xC0 ||| (if tagOwner then 0x08 else 0) ||| UInt8.ofNat n) = true := by
    cases tagOwner <;> decide +kernel
  have hlow : (tag &&& 0x07).toNat < 8 := by
    rw [UInt8.toNat_and]
    exact Nat.lt_of_le_of_lt Nat.and_le_right (by decide)
  have htag : eomBit (0xC0 ||| (if tagOwner then 0x08 else 0) ||| (tag &&& 0x07)) = true := by
    simpa only [UInt8.ofNat_toNat] using heom ⟨(tag &&& 0x07).toNat, hlow⟩
  have hlong : ¬ (usbFrame (buildMctp body tag tagOwner)).length < 4 := by
    simp only [usbFrame, List.length_append, List.length_cons]
    omega
  have hbody : ¬ (buildMctp body tag tagOwner).length < 5 := by
    simp only [buildMctp, List.length_append, List.length_cons, List.length_nil]
    omega
  refine ⟨somBit (0xC0 ||| (if tagOwner then 0x08 else 0) ||| (tag &&& 0x07)), ?_⟩
  simp only [parseMctpPacket, if_neg hlong]
  change (if (buildMctp body tag tagOwner).length < 5 then _ else _) = _
  rw [if_neg hbody]
  exact congrArg (fun eom => Except.ok (_, eom, body)) htag

/-- What `transact` hands over is what the receiving host reassembles. -/
theorem recvMctpPayload_buildMctp {body : Bytes} (hne : body ≠ []) (tag : UInt8) (tagOwner : Bool)
    {host : SpdmHost (List Delivery)} {later : List Delivery}
    (hu : host.usb = .frame (usbFrame (buildMctp body tag tagOwner)) :: later) :
    host.recvMctpPayload queueSource = .ok body
      (SpdmHost.notePacket { host with usb := later }
        (usbFrame (buildMctp body tag tagOwner))) := by
  obtain ⟨som, hp⟩ := parseMctpPacket_buildMctp hne tag tagOwner
  have hf : queueSource.recvMctpFrame host.usb =
      .ok (usbFrame (buildMctp body tag tagOwner)) later := by
    rw [hu]; rfl
  have hacc : accumulate [] som body = body := by cases som <;> rfl
  rw [SpdmHost.recvMctpPayload, SpdmHost.recvLoop_last hf hp, hacc,
    List.isEmpty_eq_false_iff.mpr hne, if_neg Bool.false_ne_true]

namespace SpdmPythonResponder

variable {E : Device} {d : Draw} {st st' : SpdmPythonResponder} {req rsp : Bytes}

/-- The requests that extend `message_a`. -/
def Negotiating (req : Bytes) : Prop :=
  handlerOf req ∈ [some .version, some .caps, some .algs]

instance (req : Bytes) : Decidable (Negotiating req) := inferInstanceAs (Decidable (_ ∈ _))

theorem call_negotiation {fn : Handler} (hfn : fn ∉ [Handler.version, .caps, .algs])
    (h : fn.call E d st req = .ok (rsp, st')) :
    st'.messageA = st.messageA ∧ (st.messageD ≠ [] → st'.messageD = st.messageD) := by
  by_cases hrec : fn ∈ recorders
  · cases fn with
    | digests =>
        cases h
        refine ⟨?_, fun hd => ?_⟩
        · simp only [record]
          split <;> rfl
        · have hne : st.messageD.isEmpty = false := List.isEmpty_eq_false_iff.mpr hd
          simp only [record, hne, Bool.false_eq_true, if_false]
    | certificate =>
        simp only [Handler.call, handleCertificate] at h
        split at h
        · cases h
        · split at h
          · cases h
          · cases h; exact ⟨rfl, fun _ => rfl⟩
    | challenge => cases h; exact ⟨rfl, fun _ => rfl⟩
    | version => exact absurd (by decide) hfn
    | caps => exact absurd (by decide) hfn
    | algs => exact absurd (by decide) hfn
    | _ => exact absurd hrec (by decide)
  · have hsame := call_unrecorded hrec h
    exact ⟨hsame.messageA, fun _ => hsame.messageD⟩

theorem dispatch_negotiation (hreq : ¬ Negotiating req) (h : st.dispatch E d req = .ok (rsp, st')) :
    st'.messageA = st.messageA ∧ (st.messageD ≠ [] → st'.messageD = st.messageD) := by
  rcases dispatch_cases h with ⟨rfl, -⟩ | ⟨fn, hfn, h⟩
  · exact ⟨rfl, fun _ => rfl⟩
  · refine call_negotiation (fun hmem => hreq ?_) h
    rw [Negotiating, hfn]
    exact List.mem_map.mpr ⟨fn, hmem, rfl⟩

theorem dispatch_handler (fn : Handler) (hlen : 2 ≤ req.length) (hfn : handlerOf req = some fn) :
    st.dispatch E d req = fn.call E d st req := by
  simp only [dispatch, if_neg (Nat.not_lt.mpr hlen), hfn]

@[simp] theorem closeSession_messageA (st : SpdmPythonResponder) (req : Bytes) :
    (st.closeSession req).messageA = st.messageA := by
  unfold closeSession
  split <;> rfl

@[simp] theorem closeSession_messageD (st : SpdmPythonResponder) (req : Bytes) :
    (st.closeSession req).messageD = st.messageD := by
  unfold closeSession
  split <;> rfl

@[simp] theorem closeSession_transcript (st : SpdmPythonResponder) (req : Bytes) :
    (st.closeSession req).transcript = st.transcript := by
  unfold closeSession
  split <;> rfl

/-- A clear message is answered in the clear. -/
theorem serve_clear {tag : UInt8} {served : Served}
    (h : st.serve E d (mctpTypeSpdm :: req) tag = .ok (served, st')) :
    ∃ st₁, dispatch E d { st with lastTag := tag } req = .ok (served.response, st₁) ∧
      served.frame.drop 8 = mctpTypeSpdm :: served.response ∧ 2 ≤ req.length ∧
      st' = st₁.closeSession req := by
  obtain ⟨st₁, st₂, st₃, hr, hd, hf, hlen, rfl⟩ := serve_ok h
  rw [recvRequest_clear (by decide)] at hr
  simp only [Except.ok.injEq, Prod.mk.injEq] at hr
  obtain ⟨⟨hreq, hsec⟩, rfl⟩ := hr
  rw [← hreq] at hd hlen ⊢
  rw [← hsec] at hf
  have hst : st₃ = st₂ := by
    rcases reply_state hf with ⟨-, rfl⟩ | ⟨keys, keys', inner, htrue, -⟩
    · rfl
    · cases htrue
  simp only [reply, Bool.false_eq_true, if_false, sendFrame] at hf
  split at hf
  · cases hf
  · next frame hframe =>
      simp only [Except.ok.injEq, Prod.mk.injEq] at hf
      refine ⟨st₂, hd, ?_, hlen, by rw [hst]⟩
      rw [← hf.1, of_buildFrame hframe, drop_usbFrame]

theorem serve_of_dispatch {tag : UInt8} {st₁ : SpdmPythonResponder} (hlen : 2 ≤ req.length)
    (hd : dispatch E d { st with lastTag := tag } req = .ok (rsp, st₁)) (hrsp : rsp.length ≤ 246) :
    ∃ served st', st.serve E d (mctpTypeSpdm :: req) tag = .ok (served, st') := by
  have hb : (buildMctp (mctpTypeSpdm :: rsp) st₁.lastTag false).length ≤ 251 := by
    simp only [buildMctp, List.length_append, List.length_cons, List.length_nil]
    omega
  refine ⟨⟨req, false, rsp, usbFrame (buildMctp (mctpTypeSpdm :: rsp) st₁.lastTag false)⟩,
    st₁.closeSession req, ?_⟩
  simp only [serve, recvRequest_clear (show mctpTypeSpdm &&& 0x7F = mctpTypeSpdm by decide), hd,
    reply, Bool.false_eq_true, if_false, sendFrame, buildFrame_ok hb, if_neg (Nat.not_lt.mpr hlen)]
  rfl

end SpdmPythonResponder

namespace Linked

variable {E : Device} {d : Draw} {host host' : Linked} {request rsp msgBody msg : Bytes}
  {code : UInt8}
  {recordA : Bool}

section NotePacket
variable (host : Linked) (frame : Bytes)

@[simp] theorem notePacket_transcript : (host.notePacket frame).transcript = host.transcript := by
  simp only [SpdmHost.notePacket]
  split <;> rfl

@[simp] theorem notePacket_messageA : (host.notePacket frame).messageA = host.messageA := by
  simp only [SpdmHost.notePacket]
  split <;> rfl

@[simp] theorem notePacket_messageD : (host.notePacket frame).messageD = host.messageD := by
  simp only [SpdmHost.notePacket]
  split <;> rfl

end NotePacket

theorem transact_ok (h : transact E d host msgBody = .ok (msg, host')) :
    ∃ tag served, host.usb.serve E d msgBody tag = .ok (served, host'.usb) ∧
      msg = served.frame.drop 8 ∧
      host'.transcript = host.transcript ∧ host'.messageA = host.messageA ∧
      host'.messageD = host.messageD := by
  unfold transact at h
  split at h
  · cases h
  · next frame hframe =>
      rw [of_buildFrame hframe, drop_usbFrame] at h
      split at h
      · cases h
      · next served usb hs =>
          cases h
          exact ⟨_, served, by simpa using hs, rfl, by simp, by simp, by simp⟩

theorem transact_of_serve (hlen : msgBody.length ≤ 247)
    (hs : ∀ tag, ∃ served usb, host.usb.serve E d msgBody tag = .ok (served, usb)) :
    ∃ msg host', transact E d host msgBody = .ok (msg, host') := by
  have hb : (buildMctp msgBody host.tag true).length ≤ 251 := by
    simp only [buildMctp, List.length_append, List.length_cons, List.length_nil]
    omega
  obtain ⟨served, usb, hs⟩ := hs ((usbFrame (buildMctp msgBody host.tag true)).getD 7 0 &&& 0x07)
  refine ⟨served.frame.drop 8,
    SpdmHost.notePacket { host with usb, tag := (host.tag + 1) &&& 0x07 } served.frame, ?_⟩
  simp only [transact, buildFrame_ok hb, drop_usbFrame, hs]

/-- What an exchange that returned has done on both sides. -/
theorem exchange_ok (h : exchange E d host request code recordA = .ok (rsp, host')) :
    ∃ tag st, dispatch E d { host.usb with lastTag := tag } request = .ok (rsp, st) ∧
      expectCode rsp code = .ok () ∧ host'.usb = st.closeSession request ∧
      host'.transcript = host.transcript ++ request ++ rsp ∧
      host'.messageA = (if recordA then host.messageA ++ request ++ rsp else host.messageA) ∧
      host'.messageD = host.messageD := by
  unfold exchange at h
  obtain ⟨⟨msg, host₁⟩, ht, h⟩ := of_bind_ok h
  obtain ⟨tag, served, hs, rfl, htr, ha, hd⟩ := transact_ok ht
  obtain ⟨st, hdisp, hframe, -, husb⟩ := serve_clear hs
  simp only [hframe] at h
  obtain ⟨-, -, h⟩ := of_bind_ok h
  obtain ⟨⟨⟩, hcode, h⟩ := of_bind_ok h
  simp only [Except.ok.injEq, Prod.mk.injEq] at h
  obtain ⟨rfl, rfl⟩ := h
  exact ⟨tag, st, hdisp, hcode, husb, by rw [← htr]; rfl, by rw [← ha]; rfl, hd⟩

/-- An exchange returns when both messages fit a frame and the response has the code. -/
theorem exchange_of_dispatch (recordA : Bool) (hlen : 2 ≤ request.length)
    (hmax : request.length ≤ 246)
    (hd : ∀ tag, ∃ st, dispatch E d { host.usb with lastTag := tag } request = .ok (rsp, st))
    (hrsp : rsp.length ≤ 246) (hcode : expectCode rsp code = .ok ()) :
    ∃ host', exchange E d host request code recordA = .ok (rsp, host') := by
  have hs : ∀ tag, ∃ served usb, host.usb.serve E d (mctpTypeSpdm :: request) tag =
      .ok (served, usb) := by
    intro tag
    obtain ⟨st, hd⟩ := hd tag
    exact serve_of_dispatch hlen hd hrsp
  have hbody : (mctpTypeSpdm :: request).length ≤ 247 := Nat.succ_le_succ hmax
  obtain ⟨msg, host₁, ht⟩ := transact_of_serve hbody hs
  obtain ⟨tag, served, hserve, rfl, -⟩ := transact_ok ht
  obtain ⟨st, hdisp, hframe, -, -⟩ := serve_clear hserve
  obtain ⟨st', hd⟩ := hd tag
  rw [hdisp] at hd
  cases hd
  refine ⟨record host₁ request served.response recordA, ?_⟩
  rw [exchange, ht, ok_bind]
  simp only [hframe, List.getD_cons_zero]
  rw [require_ok (by decide), ok_bind, List.drop_one, List.tail_cons, hcode, ok_bind]

/-- An exchange whose answer is known, from either end. -/
theorem exchange_answered (E : Device) (d : Draw) (host : Linked) (request rsp : Bytes)
    (code : UInt8) (recordA : Bool) (hlen : 2 ≤ request.length) (hmax : request.length ≤ 246)
    (hend : request.getD 1 0 ≠ spdmEndSession) {dev : UInt8 → SpdmPythonResponder}
    (hd : ∀ tag, dispatch E d { host.usb with lastTag := tag } request = .ok (rsp, dev tag))
    (hrsp : rsp.length ≤ 246) (hcode : expectCode rsp code = .ok ()) :
    ∃ tag host', exchange E d host request code recordA = .ok (rsp, host') ∧ host'.usb = dev tag ∧
      host'.transcript = host.transcript ++ request ++ rsp ∧
      host'.messageA = (if recordA then host.messageA ++ request ++ rsp else host.messageA) ∧
      host'.messageD = host.messageD := by
  obtain ⟨host', h⟩ := exchange_of_dispatch recordA hlen hmax (fun tag => ⟨_, hd tag⟩) hrsp hcode
  obtain ⟨tag, st, hdisp, -, husb, htr, ha, hmd⟩ := exchange_ok h
  rw [hd tag] at hdisp
  cases hdisp
  rw [closeSession, if_neg hend] at husb
  exact ⟨tag, host', h, husb, htr, ha, hmd⟩

end Linked

end LinkedsemiZephyr.Spdm
