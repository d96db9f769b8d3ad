import LinkedsemiZephyr.Spdm.FailedSend
import LinkedsemiZephyr.Spdm.Handshake

/-! Which requests the loop of `run` gets through. A handler has a default for a field, or
answers an error without it, or reads it unchecked; the last ends the run. -/
namespace LinkedsemiZephyr.Spdm
open Octets

namespace SpdmPythonResponder

variable {E : Device} {d : Draw} {st st' : SpdmPythonResponder} {req rsp : Bytes}

/-- The loop body of `run` behind `recv_request`. -/
def answer (E : Device) (d : Draw) (st : SpdmPythonResponder) (request : Bytes) (secured : Bool) :
    Except PyErr (Served × SpdmPythonResponder) :=
  match dispatch E d st request with
  | .error e => .error e
  | .ok (response, st) =>
    match reply E st response secured with
    | .error e => .error e
    | .ok (frame, st) =>
      if request.length < 2 then .error .indexError
      else .ok (⟨request, secured, response, frame⟩, st.closeSession request)

theorem serve_eq_answer (msg : Bytes) (tag : UInt8) :
    st.serve E d msg tag = match recvRequest E { st with lastTag := tag } msg with
      | .error e => .error e
      | .ok ((request, secured), st) => st.answer E d request secured := rfl

/-- The request is all there for its handler, defaults aside: both fields of
GET_CERTIFICATE, a point of the curve, the `verify_data`, the lengths of a vendor request,
`param1` of SUBSCRIBE_EVENT_TYPES. -/
def Complete (E : Device) (d : Draw) (req : Bytes) : Handler → Prop
  | .certificate => 8 ≤ req.length
  | .keyExchange => 104 ≤ req.length ∧ (E.crypto.exchange d.ephemeral (slice req 40 104)).isSome
  | .finish => 36 ≤ req.length
  | .vendor => 7 ≤ req.length ∧ 9 + (req.getD 6 0).toNat ≤ req.length
  | .events => req.getD 1 0 = spdmSubscribeEventTypes → 3 ≤ req.length
  | _ => True

/-- No handler for the code, or not all that its handler needs. -/
def Malformed (E : Device) (d : Draw) (req : Bytes) : Prop :=
  ∀ fn, handlerOf req = some fn → ¬ Complete E d req fn

/-- No exception comes out of the handler. A FINISH without its `verify_data` only fails
the comparison, and what is left of a chain has to fit its field. -/
def Handles (E : Device) (d : Draw) (req : Bytes) : Handler → Prop
  | .certificate => 8 ≤ req.length ∧
      E.chain.length - leNat (slice req 4 6) - min (leNat (slice req 6 8)) certPortion < 65536
  | .finish => True
  | fn => Complete E d req fn

def IsError (rsp : Bytes) : Prop := rsp.getD 1 0 = spdmErrorCode

instance (rsp : Bytes) : Decidable (IsError rsp) := inferInstanceAs (Decidable (_ = _))

/-- An ERROR, or the response that goes with the code of the request. -/
def IsResponse (req rsp : Bytes) : Prop :=
  4 ≤ rsp.length ∧ (IsError rsp ∨ rsp.getD 1 0 = req.getD 1 0 &&& 0x7F)

/-- What is wanted of a handled request. A record of 219 octets fills a frame. -/
structure Answered (E : Device) (d : Draw) (st : SpdmPythonResponder) (req rsp : Bytes)
    (st' : SpdmPythonResponder) : Prop where
  response : IsResponse req rsp
  short : rsp.length < 220
  malformed : Malformed E d req → IsError rsp
  unchanged : IsError rsp → st' = st

theorem Answered.error (E : Device) (d : Draw) (st : SpdmPythonResponder) (req : Bytes)
    (code param2 : UInt8) :
    Answered E d st req (spdmError code param2) st :=
  ⟨⟨Nat.le_refl 4, .inl rfl⟩, show 4 < 220 by decide, fun _ => rfl, fun _ => rfl⟩

section Codes
variable {fn : Handler}

/-- The code of a handler's requests; only `handle_events` has two. -/
theorem handlerOf_code (h : handlerOf req = some fn) (hone : fn ≠ .events) {code : UInt8}
    (hcode : (code, fn) ∈ handlers) : req.getD 1 0 = code := by
  have hunique : ∀ p ∈ handlers, ∀ q ∈ handlers, p.2 = q.2 → p.2 ≠ .events → p.1 = q.1 := by decide
  obtain ⟨front, rest, heq, -⟩ := List.lookup_eq_some_iff.mp h
  have hmem : (req.getD 1 0, fn) ∈ handlers := by
    rw [heq]
    exact List.mem_append_right _ List.mem_cons_self
  exact hunique _ hmem _ hcode rfl hone

/-- A response of its own kind to a complete request. -/
theorem Answered.ordinary (code : UInt8) (hfn : handlerOf req = some fn) (hone : fn ≠ .events)
    (hcode : (code, fn) ∈ handlers) (hrsp : rsp.getD 1 0 = code &&& 0x7F)
    (hne : code &&& 0x7F ≠ spdmErrorCode) (hlong : 4 ≤ rsp.length) (hshort : rsp.length < 220)
    (hcomplete : Complete E d req fn) :
    Answered E d st req rsp st' := by
  have hplain : ¬ IsError rsp := fun he => hne (hrsp.symm.trans he)
  refine ⟨⟨hlong, .inr ?_⟩, hshort, fun hm => absurd hcomplete (hm fn hfn),
    fun he => absurd he hplain⟩
  rw [handlerOf_code hfn hone hcode, hrsp]

end Codes

section Handlers

theorem certificate_answered (hfn : handlerOf req = some .certificate)
    (h : Handles E d req .certificate) :
    ∃ rsp st', st.handleCertificate E req = .ok (rsp, st') ∧ Answered E d st req rsp st' := by
  obtain ⟨hlong, hremain⟩ := h
  have hportion := length_slice E.chain (leNat (slice req 4 6))
    (leNat (slice req 4 6) + min (leNat (slice req 6 8)) certPortion)
  rw [Nat.add_sub_cancel_left] at hportion
  simp only [handleCertificate, if_neg (Nat.not_lt.mpr hlong)]
  rw [if_neg (by rw [hportion]; omega)]
  refine ⟨_, _, rfl, Answered.ordinary spdmGetCertificate hfn (by decide) (by decide)
    rfl (by decide)
    ?_ ?_ hlong⟩
  · simp only [List.length_append, List.length_cons, List.length_nil, length_leBytes]
    omega
  · have hcap : min (leNat (slice req 6 8)) certPortion ≤ 200 := Nat.min_le_right _ 200
    simp only [List.length_append, List.length_cons, List.length_nil, length_leBytes, hportion]
    omega

theorem certificate_raises (h : ¬ Handles E d req .certificate) :
    ∃ e, st.handleCertificate E req = .error e := by
  simp only [handleCertificate]
  by_cases hshort : req.length < 8
  · exact ⟨_, if_pos hshort⟩
  · rw [if_neg hshort]
    refine ⟨.structError, if_pos ?_⟩
    have hremain : ¬ E.chain.length - leNat (slice req 4 6) -
        min (leNat (slice req 6 8)) certPortion < 65536 :=
      fun hlt => h ⟨Nat.le_of_not_lt hshort, hlt⟩
    rw [length_slice, Nat.add_sub_cancel_left]
    omega

theorem length_digestsRsp_le (hl : E.crypto.FixedLengths) (multiKey : Bool) (usage : UInt16) :
    (digestsRsp E.digest multiKey usage).length ≤ 40 := by
  have hextra : (if multiKey then [1, spdmCertModelDevice] ++ pack16 usage else []).length ≤ 4 := by
    cases multiKey <;> simp
  simp only [digestsRsp, List.length_append, Linked.length_digest hl, List.length_cons,
    List.length_nil]
  omega

theorem length_challengeUnsigned (hl : E.crypto.FixedLengths) (nonce : Sized 32) (req : Bytes) :
    (challengeUnsigned E.digest nonce req).length ≤ 78 := by
  have hctx : (if 44 ≤ req.length then slice req 36 44 else zeros 8).length ≤ 8 := by
    split
    · rw [length_slice]
      omega
    · exact Nat.le_of_eq List.length_replicate
  simp only [challengeUnsigned, List.length_append, List.length_cons, List.length_nil,
    Linked.length_digest hl, nonce.2, length_leBytes]
  omega

theorem dheP256Shared_ok {C : Crypto} {priv : Nat} {xy : Bytes} :
    (∃ shared, C.dheP256Shared priv xy = .ok shared) ↔
      xy.length = 64 ∧ (C.exchange priv xy).isSome := by
  unfold Crypto.dheP256Shared
  by_cases hlen : xy.length = 64
  · rw [if_neg (not_not.mpr hlen)]
    cases C.exchange priv xy with
    | none => simp
    | some shared => simp [hlen]
  · rw [if_pos hlen]
    simp [hlen]

theorem keyExchange_ok_iff :
    (∃ shared, E.crypto.dheP256Shared d.ephemeral (slice req 40 104) = .ok shared) ↔
    Complete E d req .keyExchange := by
  rw [dheP256Shared_ok, length_slice]
  refine and_congr_left' ?_
  omega

theorem keyExchange_answered (hfn : handlerOf req = some .keyExchange)
    (h : Handles E d req .keyExchange) :
    ∃ rsp st', st.handleKeyExchange E d req = .ok (rsp, st') ∧ Answered E d st req rsp st' := by
  obtain ⟨shared, hs⟩ := keyExchange_ok_iff.mpr h
  have hlong : ¬ req.length < 6 := by
    have hkey : 104 ≤ req.length := h.1
    omega
  simp only [handleKeyExchange, if_neg hlong, hs]
  refine ⟨st.keyExchangeRsp E d req, _, rfl, Answered.ordinary spdmKeyExchange hfn (by decide)
    (by decide) rfl (by decide) ?_ ?_ h⟩
  · rw [length_keyExchangeRsp]
    decide
  · rw [length_keyExchangeRsp]
    decide

theorem keyExchange_raises (h : ¬ Handles E d req .keyExchange) :
    ∃ e, st.handleKeyExchange E d req = .error e := by
  unfold handleKeyExchange
  split
  · exact ⟨_, rfl⟩
  · cases hs : E.crypto.dheP256Shared d.ephemeral (slice req 40 104) with
    | error e => exact ⟨e, rfl⟩
    | ok shared => exact absurd (keyExchange_ok_iff.mp ⟨shared, hs⟩) h

/-- A FINISH that is cut short never has the right `verify_data`. -/
theorem finish_answered_any (hl : E.crypto.FixedLengths) (hfn : handlerOf req = some .finish) :
    ∃ rsp st', st.handleFinish E req = .ok (rsp, st') ∧ Answered E d st req rsp st' := by
  by_cases haccepted : st.FinishAccepted E req
  · obtain ⟨ke, hke, hverify⟩ := haccepted
    have hlong : 36 ≤ req.length := by
      have hlen := congrArg List.length hverify
      rw [length_slice, finishExpect, hl.hmac] at hlen
      omega
    refine ⟨st.finishRsp E ke req, _, handleFinish_accepted hke hverify,
      Answered.ordinary spdmFinish hfn (by decide)
      (by decide) rfl (by decide) ?_ ?_ hlong⟩
    · rw [Linked.length_finishRsp hl]
      decide
    · rw [Linked.length_finishRsp hl]
      decide
  · exact ⟨_, _, handleFinish_rejected haccepted, Answered.error E d st req 0x01 0⟩

theorem parseVendorPayload_ok : (∃ payload, parseVendorPayload req = .ok payload) ↔
    Complete E d req .vendor := by
  unfold parseVendorPayload Complete
  split
  · next hshort => exact iff_of_false (by simp) fun hc => absurd hc.1 (Nat.not_le.mpr hshort)
  · next hlong =>
      simp only
      split
      · next hshort => exact iff_of_false (by simp) fun hc => by omega
      · next hlong' => exact iff_of_true ⟨_, rfl⟩ ⟨by omega, by omega⟩

theorem vendor_answered (hfn : handlerOf req = some .vendor) (h : Handles E d req .vendor) :
    ∃ rsp st', st.handleVendor req = .ok (rsp, st') ∧ Answered E d st req rsp st' := by
  obtain ⟨payload, hp⟩ := (parseVendorPayload_ok (E := E) (d := d)).mpr h
  simp only [handleVendor, hp]
  refine ⟨_, _, rfl, Answered.ordinary spdmVendorDefinedRequest hfn (by decide) (by decide) rfl
    (by decide) ?_ ?_ h⟩
  · split <;> decide
  · split <;> decide

theorem vendor_raises (h : ¬ Handles E d req .vendor) : ∃ e, st.handleVendor req = .error e := by
  unfold handleVendor
  cases hp : parseVendorPayload req with
  | error e => exact ⟨e, rfl⟩
  | ok payload => exact absurd ((parseVendorPayload_ok (E := E) (d := d)).mp ⟨payload, hp⟩) h

theorem handlerOf_events (hfn : handlerOf req = some .events) :
    req.getD 1 0 = spdmGetSupportedEventTypes ∨ req.getD 1 0 = spdmSubscribeEventTypes := by
  have hcodes : ∀ p ∈ handlers, p.2 = .events →
      p.1 = spdmGetSupportedEventTypes ∨ p.1 = spdmSubscribeEventTypes := by decide
  obtain ⟨front, rest, heq, -⟩ := List.lookup_eq_some_iff.mp hfn
  refine hcodes (req.getD 1 0, .events) ?_ rfl
  rw [heq]
  exact List.mem_append_right _ List.mem_cons_self

theorem events_answered (hfn : handlerOf req = some .events) (h : Handles E d req .events) :
    ∃ rsp st', st.handleEvents req = .ok (rsp, st') ∧ Answered E d st req rsp st' := by
  have hcomplete : ¬ Malformed E d req := fun hm => hm .events hfn h
  have hne : spdmSubscribeEventTypes ≠ spdmGetSupportedEventTypes := by decide
  rcases handlerOf_events hfn with hcode | hcode
  · simp only [handleEvents, hcode, if_true]
    refine ⟨_, _, rfl, ⟨by decide, .inr ?_⟩, by decide, fun hm => absurd hm hcomplete,
      fun he => absurd he (by decide)⟩
    rw [hcode]
    rfl
  · simp only [handleEvents, hcode, if_neg hne, if_true, if_neg (Nat.not_lt.mpr (h hcode))]
    refine ⟨_, _, rfl, ⟨by decide, .inr ?_⟩, by decide, fun hm => absurd hm hcomplete,
      fun he => absurd he (by decide)⟩
    rw [hcode]
    rfl

theorem events_raises (h : ¬ Handles E d req .events) : ∃ e, st.handleEvents req = .error e := by
  obtain ⟨hcode, hshort⟩ := Classical.not_imp.mp h
  have hne : spdmSubscribeEventTypes ≠ spdmGetSupportedEventTypes := by decide
  simp only [handleEvents, hcode, if_neg hne, if_true]
  exact ⟨_, if_pos (Nat.lt_of_not_le hshort)⟩

theorem call_answered (hl : E.crypto.FixedLengths) {fn : Handler} (hfn : handlerOf req = some fn)
    (h : Handles E d req fn) :
    ∃ rsp st', fn.call E d st req = .ok (rsp, st') ∧ Answered E d st req rsp st' := by
  cases fn with
  | version =>
      exact ⟨versionRsp, _, rfl, Answered.ordinary spdmGetVersion hfn (by decide) (by decide) rfl
        (by decide) (by decide) (by decide) h⟩
  | caps =>
      exact ⟨capsRsp, _, rfl, Answered.ordinary spdmGetCapabilities hfn (by decide) (by decide) rfl
        (by decide) (by decide) (by decide) h⟩
  | algs =>
      have hlen : ∀ other, (algsRsp other).length = 48 := fun _ => rfl
      refine ⟨algsRsp _, _, rfl, Answered.ordinary spdmNegotiateAlgorithms hfn (by decide)
        (by decide) rfl (by decide) ?_ ?_ h⟩ <;> rw [hlen] <;> decide
  | digests =>
      have hlen := length_digestsRsp_le hl st.multiKey st.usage
      refine ⟨digestsRsp E.digest st.multiKey st.usage, _, rfl, Answered.ordinary spdmGetDigests hfn
        (by decide) (by decide) rfl (by decide) ?_ (by omega) h⟩
      simp only [digestsRsp, List.length_append, List.length_cons, List.length_nil]
      omega
  | certificate => exact certificate_answered hfn h
  | challenge =>
      have hlen := length_challengeUnsigned hl d.nonce req
      refine ⟨challengeUnsigned E.digest d.nonce req ++ _, _, rfl,
        Answered.ordinary spdmChallenge hfn (by decide) (by decide) rfl (by decide) ?_ ?_ h⟩
      · simp only [List.length_append, length_signSpdmHash]
        omega
      · simp only [List.length_append, length_signSpdmHash]
        omega
  | keyPairInfo =>
      exact ⟨_, _, rfl, Answered.ordinary spdmGetKeyPairInfo hfn (by decide) (by decide) rfl
        (by decide) (Nat.le_of_ble_eq_true rfl) (Nat.le_of_ble_eq_true rfl) h⟩
  | setKeyPair =>
      simp only [Handler.call, handleSetKeyPair]
      split <;> exact ⟨setKeyPairAck, _, rfl, Answered.ordinary spdmSetKeyPairInfo hfn (by decide)
        (by decide) rfl (by decide) (by decide) (by decide) h⟩
  | keyExchange => exact keyExchange_answered hfn h
  | finish => exact finish_answered_any hl hfn
  | vendor => exact vendor_answered hfn h
  | events => exact events_answered hfn h
  | endSession =>
      exact ⟨endSessionAck, _, rfl, Answered.ordinary spdmEndSession hfn (by decide) (by decide) rfl
        (by decide) (by decide) (by decide) h⟩

theorem call_raises {fn : Handler} (h : ¬ Handles E d req fn) :
    ∃ e, fn.call E d st req = .error e := by
  cases fn with
  | certificate => exact certificate_raises h
  | keyExchange => exact keyExchange_raises h
  | vendor => exact vendor_raises h
  | events => exact events_raises h
  | _ => exact absurd trivial h

end Handlers

section Dispatch

theorem dispatch_answered (st : SpdmPythonResponder) (hl : E.crypto.FixedLengths)
    (h : ∀ fn, handlerOf req = some fn → Handles E d req fn) :
    ∃ rsp st', st.dispatch E d req = .ok (rsp, st') ∧ Answered E d st req rsp st' := by
  unfold dispatch
  split
  · exact ⟨_, _, rfl, Answered.error E d st req 0x01 0⟩
  · cases hfn : handlerOf req with
    | none => exact ⟨_, _, rfl, Answered.error E d st req 0x05 (req.getD 1 0)⟩
    | some fn => exact call_answered hl hfn (h fn hfn)

theorem dispatch_raises (st : SpdmPythonResponder) {fn : Handler} (hfn : handlerOf req = some fn)
    (h : ¬ Handles E d req fn) :
    ∃ e, st.dispatch E d req = .error e := by
  unfold dispatch
  split
  · next hshort =>
      rw [handlerOf_short hshort] at hfn
      cases hfn
  · rw [hfn]
    exact call_raises h

/-- The session can make one more record. -/
def CanSeal (keys : SecuredSession) : Prop :=
  keys.seqOf keys.role < 2 ^ 64 ∧ 8 ≤ (keys.saltOf keys.role).length

/-- A FINISH brings a session that can; no other request changes whether there is one. -/
theorem dispatch_canSeal (hl : E.crypto.FixedLengths) (h : st.dispatch E d req = .ok (rsp, st')) :
    (∃ keys ∈ st'.keys, CanSeal keys) ↔
      (handlerOf req = some .finish ∧ st.FinishAccepted E req) ∨
      ∃ keys ∈ st.keys, CanSeal keys := by
  rcases dispatch_effect h with ⟨hk, -, hno⟩ | ⟨ke, hfn, hke, he, -, rfl⟩ | ⟨shared, hfn, -, rfl⟩
  · rw [hk, or_iff_right hno]
  · refine iff_of_true ⟨st.finishSession E ke req, rfl, show 0 < 2 ^ 64 by decide, ?_⟩
      (.inl ⟨hfn, ke, hke, he⟩)
    change 8 ≤ (E.crypto.hkdfExpand _ _ 12).length
    rw [hl.hkdf]
    decide
  · have hno : ¬ (handlerOf req = some .finish ∧ st.FinishAccepted E req) := by
      rintro ⟨hfin, -⟩
      rw [hfn] at hfin
      cases hfin
    rw [or_iff_right hno]

end Dispatch

section Reply

theorem length_usbFrame (payload : Bytes) : (usbFrame payload).length = payload.length + 4 := by
  simp only [usbFrame, List.length_append, List.length_cons, List.length_nil]
  omega

theorem reply_fits (hC : E.crypto.AeadCorrect) (hshort : rsp.length < 220) {secured : Bool}
    (hseal : secured = true → ∃ keys ∈ st.keys, CanSeal keys) :
    ∃ frame st', st.reply E rsp secured = .ok (frame, st') ∧ frame.length ≤ 255 ∧
      (st' = st ∨ secured = true ∧ ∃ keys ∈
        st.keys, st' = { st with keys := some (keys.bump keys.role) }) := by
  cases secured with
  | false =>
      have hpacket : (buildMctp (mctpTypeSpdm :: rsp) st.lastTag false).length =
          rsp.length + 5 := by
        simp only [buildMctp, List.length_append, List.length_cons, List.length_nil]
        omega
      refine ⟨usbFrame (buildMctp (mctpTypeSpdm :: rsp) st.lastTag false), st, ?_, ?_, .inl rfl⟩
      · have hfits : (buildMctp (mctpTypeSpdm :: rsp) st.lastTag false).length ≤ 251 := by omega
        simp only [reply, Bool.false_eq_true, if_false, sendFrame, buildFrame_ok hfits]
      · rw [length_usbFrame, hpacket]
        omega
  | true =>
      obtain ⟨keys, hk, hseq, hsalt⟩ := hseal rfl
      obtain ⟨iv, hiv⟩ := Channel.aeadIv_total hsalt hseq
      have hsent := SecuredSender.send_fits false id (a := ⟨keys, st.lastTag⟩) hC hshort hiv
      refine ⟨usbFrame (buildMctp (mctpTypeSecured ::
          keys.sealRecord E.crypto keys.role (keys.seqOf keys.role) iv rsp) st.lastTag false),
        { st with keys := some (keys.bump keys.role) }, ?_, ?_, .inr ⟨rfl, keys, hk, rfl⟩⟩
      · rw [SecuredSender.reply_eq hk, SecuredSender.reply, hsent]
        rfl
      · rw [length_usbFrame, SecuredSender.length_packet (a := ⟨keys, st.lastTag⟩),
          SecuredSender.length_sealRecord hC]
        omega

theorem aeadIv_fails {keys : SecuredSession} (h : ¬ CanSeal keys) :
    ∃ e, aeadIv (keys.saltOf keys.role) (keys.seqOf keys.role) = .error e := by
  cases hiv : aeadIv (keys.saltOf keys.role) (keys.seqOf keys.role) with
  | error e => exact ⟨e, rfl⟩
  | ok iv =>
      obtain ⟨hseq, hsalt, -⟩ := aeadIv_ok hiv
      exact absurd ⟨hseq, hsalt⟩ h

theorem reply_raises (hC : E.crypto.AeadCorrect) (hshort : rsp.length < 220)
    (h : ¬ ∃ keys ∈ st.keys, CanSeal keys) : ∃ e, st.reply E rsp true = .error e := by
  cases hk : st.keys with
  | none => exact ⟨.securedReplyWithoutSession, by simp only [reply, hk, if_true]⟩
  | some keys =>
      have hseal : ¬ CanSeal keys := fun hs => h ⟨keys, hk, hs⟩
      obtain ⟨e, he⟩ := SecuredSender.send_half_done false id (m := rsp)
        (a := ⟨keys, st.lastTag⟩) hC (by omega) (.inr (aeadIv_fails hseal))
      exact ⟨e, by rw [SecuredSender.reply_eq hk, SecuredSender.reply, he]⟩

end Reply

/-- A request the loop gets through: it can be indexed, its handler raises nothing, and in
a session there is a number left for the response. -/
structure Answerable (E : Device) (d : Draw) (st : SpdmPythonResponder) (req : Bytes)
    (secured : Bool) : Prop where
  indexed : 2 ≤ req.length
  handles : ∀ fn, handlerOf req = some fn → Handles E d req fn
  seals : secured = true →
    (handlerOf req = some .finish ∧ st.FinishAccepted E req) ∨ ∃ keys ∈ st.keys, CanSeal keys

/-- The pass returns: an SPDM response in a frame, an ERROR to what is malformed, and an
ERROR that leaves nothing behind but the number of its own record. -/
def Survives (E : Device) (d : Draw) (st : SpdmPythonResponder) (req : Bytes) (secured : Bool) :
    Prop :=
  ∃ served st₁ st', st.dispatch E d req = .ok (served.response, st₁) ∧
    st.answer E d req secured = .ok (served, st') ∧
    IsResponse req served.response ∧ served.frame.length ≤ 255 ∧
    (Malformed E d req → IsError served.response) ∧
    (IsError served.response → st₁ = st ∧ (st' = st ∨
      secured = true ∧ ∃ keys ∈ st.keys, st' = { st with keys := some (keys.bump keys.role) }))

theorem endSession_not_error (hd : st.dispatch E d req = .ok (rsp, st')) (hlen : 2 ≤ req.length)
    (he : IsError rsp) : req.getD 1 0 ≠ spdmEndSession := by
  intro hcode
  have hfn : handlerOf req = some .endSession := by
    rw [handlerOf, hcode]
    rfl
  rw [dispatch_handler .endSession hlen hfn] at hd
  cases hd
  exact absurd he (by decide)

theorem answer_survives (hl : E.crypto.FixedLengths) (hC : E.crypto.AeadCorrect) {secured : Bool}
    (h : Answerable E d st req secured) : Survives E d st req secured := by
  obtain ⟨rsp, st₁, hd, hanswered⟩ := dispatch_answered st hl h.handles
  obtain ⟨frame, st₂, hr, hframe, hst⟩ := reply_fits hC hanswered.short
    (fun hsec => (dispatch_canSeal hl hd).mpr (h.seals hsec))
  refine ⟨⟨req, secured, rsp, frame⟩, st₁, st₂.closeSession req, hd, ?_, hanswered.response, hframe,
    hanswered.malformed, fun he => ?_⟩
  · simp only [answer, hd, hr, if_neg (Nat.not_lt.mpr h.indexed)]
  · obtain rfl := hanswered.unchanged he
    have hopen : st₂.closeSession req = st₂ := if_neg (endSession_not_error hd h.indexed he)
    rw [hopen]
    exact ⟨rfl, hst⟩

theorem answerable_of_survives (hl : E.crypto.FixedLengths) (hC : E.crypto.AeadCorrect)
    {secured : Bool} (h : Survives E d st req secured) : Answerable E d st req secured := by
  obtain ⟨served, st₁, st', hd, hanswer, -⟩ := h
  have hhandles : ∀ fn, handlerOf req = some fn → Handles E d req fn := by
    intro fn hfn
    by_contra hno
    obtain ⟨e, he⟩ := dispatch_raises st hfn hno
    rw [hd] at he
    cases he
  simp only [answer, hd] at hanswer
  split at hanswer
  · cases hanswer
  · next frame st₂ hr =>
      split at hanswer
      · cases hanswer
      · next hlen =>
          refine ⟨Nat.le_of_not_lt hlen, hhandles, ?_⟩
          rintro rfl
          obtain ⟨rsp, st₁', hd', hanswered⟩ := dispatch_answered st hl hhandles
          rw [hd] at hd'
          cases hd'
          by_contra hno
          obtain ⟨e, he⟩ := reply_raises hC hanswered.short (mt (dispatch_canSeal hl hd).mp hno)
          rw [hr] at he
          cases he

/-- In any state, the requests `run` survives. -/
theorem survives_iff (hl : E.crypto.FixedLengths) (hC : E.crypto.AeadCorrect) (d : Draw)
    (st : SpdmPythonResponder) (req : Bytes) (secured : Bool) :
    Survives E d st req secured ↔ Answerable E d st req secured :=
  ⟨answerable_of_survives hl hC, answer_survives hl hC⟩

/-- A request of one octet is answered an ERROR and then indexed at 1; a GET_CERTIFICATE
without its fields raises in the handler. -/
theorem short_requests_raise : ¬ Survives sampleDevice (sampleDraw 0) {} [spdmVer] false ∧
    ¬ Survives sampleDevice (sampleDraw 0) {} [spdmVer, spdmGetCertificate] false := by
  constructor
  · rintro ⟨served, st₁, st', -, hanswer, -⟩
    cases hanswer
  · rintro ⟨served, st₁, st', -, hanswer, -⟩
    cases hanswer

theorem survives_getVersion :
    Survives sampleDevice (sampleDraw 0) {} [spdmVer, spdmGetVersion, 0, 0] false :=
  (survives_iff constantCrypto_fixedLengths constantCrypto_aeadCorrect (sampleDraw 0)
    {} _ false).mpr
    ⟨by decide, fun fn hfn => by cases hfn; trivial, fun hsec => by cases hsec⟩

end SpdmPythonResponder

end LinkedsemiZephyr.Spdm
