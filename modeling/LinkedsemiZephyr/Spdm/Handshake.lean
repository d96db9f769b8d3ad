import LinkedsemiZephyr.Spdm.Exchange

/-! The handshake between the two testers: negotiation and the first DIGESTS bring them in
step, and a key exchange between testers in step leaves both with the same session. -/
namespace LinkedsemiZephyr.Spdm
open Octets PartialRun SpdmPythonResponder

namespace Linked

variable {E : Device} {d : Draw} {host : Linked}

/-- What one negotiation appends on both sides. -/
def negotiated : Bytes :=
  getVersionReq ++ versionRsp ++ (getCapabilitiesReq ++ capsRsp) ++
    (negotiateAlgorithmsReq ++ algsRsp spdmOpaqueDataFormat1)

/-- What `negotiate` did to the two ends. -/
structure Negotiated (host host' : Linked) : Prop where
  transcript : host'.transcript = host.transcript ++ negotiated
  messageA : host'.messageA = host.messageA ++ negotiated
  messageD : host'.messageD = host.messageD
  usbTranscript : host'.usb.transcript = host.usb.transcript ++ negotiated
  usbMessageA : host'.usb.messageA = host.usb.messageA ++ negotiated
  usbMessageD : host'.usb.messageD = host.usb.messageD
  usage : host'.usb.usage = host.usb.usage
  multiKey : host'.usb.multiKey = true

theorem dispatch_negotiateAlgorithms {st : SpdmPythonResponder}
    (h : st.reqFlags = field32 getCapabilitiesReq 8) :
    st.dispatch E d negotiateAlgorithmsReq =
      .ok (algsRsp spdmOpaqueDataFormat1,
        ({ st with multiKey := true }.recordA negotiateAlgorithmsReq
          (algsRsp spdmOpaqueDataFormat1)).record
          negotiateAlgorithmsReq (algsRsp spdmOpaqueDataFormat1)) := by
  have hother : st.reqFlags &&& spdmReqFlagsMultiKeyNeg = 0 := by rw [h]; decide
  rw [dispatch_handler .algs (by decide) (by decide)]
  simp only [Handler.call, handleAlgs, hother, bne_self_eq_false, Bool.false_eq_true, if_false]
  rfl

theorem negotiate_ok (E : Device) (d : Draw) (host : Linked) :
    ∃ host', negotiate E d host = .ok host' ∧ Negotiated host host' := by
  obtain ⟨t₁, host₁, h₁, husb₁, htr₁, ha₁, hd₁⟩ :=
    exchange_answered E d host getVersionReq versionRsp
      spdmVersion true (by decide) (by decide) (by decide) (fun _ => rfl) (by decide) rfl
  obtain ⟨t₂, host₂, h₂, husb₂, htr₂, ha₂, hd₂⟩ :=
    exchange_answered E d host₁ getCapabilitiesReq capsRsp
      spdmCapabilities true (by decide) (by decide) (by decide) (fun _ => rfl) (by decide) rfl
  obtain ⟨t₃, host₃, h₃, husb₃, htr₃, ha₃, hd₃⟩ :=
    exchange_answered E d host₂ negotiateAlgorithmsReq
      (algsRsp spdmOpaqueDataFormat1) spdmAlgorithms true (by decide) (by decide) (by decide)
      (fun tag => dispatch_negotiateAlgorithms (by rw [husb₂]; rfl)) (by decide) rfl
  refine ⟨host₃, ?_, ?_⟩
  · rw [negotiate, h₁, ok_bind]
    change (checkVersion versionRsp >>= _) = _
    rw [show checkVersion versionRsp = .ok () from rfl, ok_bind, h₂, ok_bind]
    change (checkCapabilities capsRsp >>= _) = _
    rw [show checkCapabilities capsRsp = .ok () from rfl, ok_bind, h₃, ok_bind]
    rfl
  · constructor
    · rw [htr₃, htr₂, htr₁]
      simp only [negotiated, List.append_assoc]
    · rw [ha₃, ha₂, ha₁]
      simp only [negotiated, if_true, List.append_assoc]
    · rw [hd₃, hd₂, hd₁]
    · rw [husb₃]
      change host₂.usb.transcript ++ negotiateAlgorithmsReq ++ algsRsp spdmOpaqueDataFormat1 = _
      rw [husb₂]
      change host₁.usb.transcript ++ getCapabilitiesReq ++ capsRsp ++ _ ++ _ = _
      rw [husb₁]
      change host.usb.transcript ++ getVersionReq ++ versionRsp ++ _ ++ _ ++ _ ++ _ = _
      simp only [negotiated, List.append_assoc]
    · rw [husb₃]
      change host₂.usb.messageA ++ negotiateAlgorithmsReq ++ algsRsp spdmOpaqueDataFormat1 = _
      rw [husb₂]
      change host₁.usb.messageA ++ getCapabilitiesReq ++ capsRsp ++ _ ++ _ = _
      rw [husb₁]
      change host.usb.messageA ++ getVersionReq ++ versionRsp ++ _ ++ _ ++ _ ++ _ = _
      simp only [negotiated, List.append_assoc]
    · rw [husb₃, husb₂, husb₁]
      rfl
    · rw [husb₃, husb₂, husb₁]
      rfl
    · rw [husb₃]
      rfl

/-- Both sides would prefix a KEY_EXCHANGE transcript with the same bytes. -/
structure InStep (host : Linked) : Prop where
  messageA : host.messageA = host.usb.messageA
  messageD : host.messageD = host.usb.messageD
  digested : host.messageD ≠ []

theorem length_digest (hl : E.crypto.FixedLengths) : E.digest.length = 32 := hl.sha256 E.chain

theorem slice_digestsRsp (hl : E.crypto.FixedLengths) (multiKey : Bool) (usage : UInt16) :
    slice (digestsRsp E.digest multiKey usage) 4 36 = E.digest := by
  rw [digestsRsp, List.append_assoc]
  exact slice_middle _ rfl (by rw [length_digest hl])

theorem drop_digestsRsp (hl : E.crypto.FixedLengths) (usage : UInt16) :
    (digestsRsp E.digest true usage).drop 36 = [1, spdmCertModelDevice] ++ pack16 usage := by
  have h36 : ([spdmVer, spdmDigests, 0x01, 0x01] ++ E.digest).length = 36 := by
    simp only [List.length_append, length_digest hl, List.length_cons, List.length_nil]
  rw [digestsRsp, List.drop_left' h36, if_pos rfl]

theorem length_digestsRsp (hl : E.crypto.FixedLengths) (usage : UInt16) :
    (digestsRsp E.digest true usage).length = 40 := by
  simp only [digestsRsp, if_true, List.length_append, length_digest hl, length_pack16,
    List.length_cons, List.length_nil]

/-- The first GET_DIGESTS of a multi-key connection. -/
theorem getSlot0Digest_ok (hl : E.crypto.FixedLengths) (hmulti : host.usb.multiKey = true)
    (husage : host.usb.usage &&& spdmKeyUsageKeyEx ≠ 0) (hd : host.messageD = [])
    (hud : host.usb.messageD = []) (ha : host.messageA = host.usb.messageA) :
    ∃ host', getSlot0Digest E d host = .ok (E.digest, host') ∧ InStep host' ∧
      host'.transcript = host.transcript ++ getDigestsReq ++
        digestsRsp E.digest true host.usb.usage ∧
      host'.usb.transcript = host.usb.transcript ++ getDigestsReq ++
        digestsRsp E.digest true host.usb.usage := by
  have hlen := length_digestsRsp hl host.usb.usage
  have hdisp : ∀ tag, dispatch E d { host.usb with lastTag := tag } getDigestsReq =
      .ok (digestsRsp E.digest true host.usb.usage,
        { host.usb with
          lastTag := tag
          messageD := digestsRsp E.digest true host.usb.usage
          transcript :=
            host.usb.transcript ++ getDigestsReq ++ digestsRsp E.digest true host.usb.usage }) := by
    intro tag
    rw [dispatch_handler .digests (by decide) (by decide)]
    simp only [Handler.call, handleDigests, hmulti, hud, List.isEmpty_nil, if_true]
    rfl
  obtain ⟨tag, host₁, h₁, husb₁, htr₁, ha₁, hd₁⟩ := exchange_answered E d host _ _ spdmDigests false
    (by decide) (by decide) (by decide) hdisp (by omega) (by simp only [expectCode, hlen]; rfl)
  have hextra := drop_digestsRsp hl host.usb.usage
  have hfield : field16 ([1, spdmCertModelDevice] ++ pack16 host.usb.usage) 2 = host.usb.usage := by
    simpa using field16_pack16 (a := [1, spdmCertModelDevice]) host.usb.usage [] rfl
  have hkid : ([1, spdmCertModelDevice] ++ pack16 host.usb.usage).getD 0 0 = 1 := rfl
  have hmodel : ([1, spdmCertModelDevice] ++ pack16 host.usb.usage).getD 1 0 &&& 0x7 =
      spdmCertModelDevice := by
    change spdmCertModelDevice &&& 0x7 = spdmCertModelDevice
    decide
  have hempty : host₁.messageD.isEmpty = true := by rw [hd₁, hd]; rfl
  refine ⟨{ host₁ with messageD := digestsRsp E.digest true host.usb.usage }, ?_, ?_, htr₁, ?_⟩
  · rw [getSlot0Digest, h₁, ok_bind]
    simp only [hlen, hextra, hfield, slice_digestsRsp hl, hempty, if_true]
    rw [require_ok (by decide), ok_bind, require_ok (by simp), ok_bind,
      require_ok (by simp), ok_bind,
      require_ok (by simp), ok_bind, require_ok hkid, ok_bind, require_ok hmodel, ok_bind,
      require_ok husage, ok_bind]
  · refine ⟨?_, ?_, ?_⟩
    · rw [husb₁]
      exact ha₁.trans ha
    · rw [husb₁]
    · exact List.ne_nil_of_length_pos (by rw [hlen]; decide)
  · rw [husb₁]

/-! The requests and responses of a key exchange. -/

section KeyExchange

variable {st : SpdmPythonResponder} {own dk : Draw} {reqSessionId : UInt16} {req : Bytes}

theorem keyExchangeReq_parts (C : Crypto) (own : Draw) (reqSessionId : UInt16) :
    keyExchangeReq C own reqSessionId =
      [spdmVer, spdmKeyExchange, 0, 0] ++ (pack16 reqSessionId ++
        ([spdmEventAllPolicy, 0] ++ own.nonce.1 ++
          ((C.pubXy own.ephemeral).1 ++ leBytes 2 0))) := by
  simp only [keyExchangeReq, List.append_assoc]

theorem length_keyExchangeReq (C : Crypto) : (keyExchangeReq C own reqSessionId).length = 106 := by
  simp only [keyExchangeReq, List.length_append, List.length_cons, List.length_nil, length_pack16,
    length_leBytes, own.nonce.2, (C.pubXy own.ephemeral).2]

theorem keyExchangeReq_sessionId (C : Crypto) :
    leNat (slice (keyExchangeReq C own reqSessionId) 4 6) = reqSessionId.toNat := by
  rw [keyExchangeReq_parts, slice_middle (i := 4) _ rfl (by rw [length_pack16]), pack16,
    leNat_leBytes (by simpa using reqSessionId.toNat_lt)]

theorem keyExchangeReq_xy (C : Crypto) :
    slice (keyExchangeReq C own reqSessionId) 40 104 = (C.pubXy own.ephemeral).1 := by
  rw [keyExchangeReq_parts, ← List.append_assoc, ← List.append_assoc]
  refine slice_middle _ ?_ ?_
  · simp only [List.length_append, List.length_cons, List.length_nil, length_pack16, own.nonce.2]
  · rw [(C.pubXy own.ephemeral).2]

theorem dheP256Shared_agrees {C : Crypto} (hc : C.Commutes) (a b : Nat) :
    ∃ shared, C.dheP256Shared a (C.pubXy b).1 = .ok shared ∧ C.dheP256Shared b (C.pubXy a).1 =
      .ok shared := by
  obtain ⟨shared, hs⟩ := Option.isSome_iff_exists.mp (hc.defined a b)
  refine ⟨shared, ?_, ?_⟩
  · simp only [Crypto.dheP256Shared, (C.pubXy b).2, ne_eq, not_true_eq_false, if_false, hs]
  · simp only [Crypto.dheP256Shared, (C.pubXy a).2, ne_eq, not_true_eq_false, if_false,
      ← hc.commutes, hs]

theorem take_keyExchangeRsp :
    (st.keyExchangeRsp E dk req).take 106 = keyExchangeUnsigned E.crypto dk :=
  List.take_left' (length_keyExchangeUnsigned E.crypto dk)

theorem signatureOffset_keyExchangeRsp :
    signatureOffset (st.keyExchangeRsp E dk req) = .ok 106 := by
  have hmut : (st.keyExchangeRsp E dk req).getD 6 0 = 0 := rfl
  simp only [signatureOffset, length_keyExchangeRsp, hmut, keyExchangeRsp_opaque]
  rfl

/-- The signature a KEY_EXCHANGE_RSP carries is over the transcript the requester
rebuilds. -/
theorem verify_keyExchangeRsp (hv : E.crypto.VerifiesOwn) :
    E.crypto.verifySpdmHash keyExchangeContext
      (E.crypto.sha256 (st.thPrefix E ++ req ++ (st.keyExchangeRsp E dk req).take 106))
      (slice (st.keyExchangeRsp E dk req) 106 (106 + 64)) = .ok () := by
  have hsig : slice (st.keyExchangeRsp E dk req) 106 (106 + 64) =
      (E.crypto.signSpdmHash dk.ecdsa keyExchangeContext
        (E.crypto.sha256 (st.thPrefix E ++ req ++ keyExchangeUnsigned E.crypto dk))).1 :=
    slice_suffix (length_keyExchangeUnsigned E.crypto dk) (by rw [length_signSpdmHash])
  rw [take_keyExchangeRsp, hsig]
  exact if_pos (hv _ _)

/-- `verify_data` over the open handshake gets a FINISH_RSP and a session. -/
theorem finish_answered (hl : E.crypto.FixedLengths) (st : SpdmPythonResponder) {ke : KeState}
    (hk : st.keState = some ke) {finishHdr finishReq : Bytes}
    (hhdr : finishHdr = [spdmVer, spdmFinish, 0x00, 0x00])
    (hreq : finishReq = finishHdr ++ E.crypto.hmacSha256 ke.reqFinished
      (E.crypto.sha256 (st.thPrefix E ++ ke.req ++ ke.rsp ++ finishHdr))) :
    st.dispatch E d finishReq =
      .ok (st.finishRsp E ke finishReq,
        { st with keys := some (st.finishSession E ke finishReq) }) := by
  have htake : finishReq.take 4 = finishHdr := by rw [hreq, hhdr]; rfl
  have hslice : slice finishReq 4 36 = st.finishExpect E ke finishReq := by
    rw [finishExpect, htake, hreq, hhdr]
    exact slice_suffix rfl (by rw [hl.hmac])
  rw [dispatch_handler .finish (by rw [hreq, hhdr]; simp) (by rw [hreq, hhdr]; rfl)]
  exact handleFinish_accepted hk hslice

theorem length_finishRsp (hl : E.crypto.FixedLengths) (ke : KeState) :
    (st.finishRsp E ke req).length = 36 := by
  simp only [finishRsp, List.length_append, hl.hmac]
  rfl

theorem slice_finishRsp (hl : E.crypto.FixedLengths) (st : SpdmPythonResponder) (ke : KeState)
    (req : Bytes) :
    slice (st.finishRsp E ke req) 4 36 = E.crypto.hmacSha256 ke.rspFinished
      (E.crypto.sha256
        (st.thPrefix E ++ ke.req ++ ke.rsp ++ req ++ (st.finishRsp E ke req).take 4)) := by
  change slice (finishRspHdr ++ _) 4 36 = _
  exact slice_suffix rfl (by rw [hl.hmac])

end KeyExchange

/-- Both ends hold the session of one handshake, and neither has used it. -/
structure Agreed (keys : SecuredSession) (st : SpdmPythonResponder) : Prop where
  responder : st.keys = some { keys with role := .responder }
  role : keys.role = .requester
  reqSeq : keys.reqSeq = 0
  rspSeq : keys.rspSeq = 0

/-- The first half of a round: the responder answers KEY_EXCHANGE and keeps its state. -/
theorem exchange_keyExchange {own dk : Draw} {shared : Bytes} (reqSessionId : UInt16)
    (hdk : E.crypto.dheP256Shared dk.ephemeral (E.crypto.pubXy own.ephemeral).1 = .ok shared)
    (hs : InStep host) {keReq : Bytes} (hkeReq : keyExchangeReq E.crypto own reqSessionId = keReq) :
    ∃ host', exchange E dk host keReq spdmKeyExchangeRsp false =
        .ok (host.usb.keyExchangeRsp E dk keReq, host') ∧
      host'.usb.keState = some (host.usb.keyExchangeState E dk keReq shared) ∧
      host'.usb.thPrefix E = host.usb.thPrefix E ∧
      host'.messageA ++ host'.messageD ++ E.digest = host.usb.thPrefix E ∧ InStep host' := by
  have hlen : keReq.length = 106 := by rw [← hkeReq, length_keyExchangeReq]
  have hcode : keReq.getD 1 0 = spdmKeyExchange := by rw [← hkeReq]; rfl
  have hxy : slice keReq 40 104 = (E.crypto.pubXy own.ephemeral).1 := by
    rw [← hkeReq]
    exact keyExchangeReq_xy E.crypto
  have hdisp : ∀ tag, dispatch E dk { host.usb with lastTag := tag } keReq =
      .ok (host.usb.keyExchangeRsp E dk keReq,
        { host.usb with
          lastTag := tag
          keState := some (host.usb.keyExchangeState E dk keReq shared) }) := by
    intro tag
    rw [dispatch_handler .keyExchange (by omega) (by rw [handlerOf, hcode]; rfl)]
    simp only [Handler.call, handleKeyExchange, hxy, hdk, if_neg (show ¬ keReq.length < 6 by omega)]
    rfl
  obtain ⟨tag, host', h, husb, -, ha, hd⟩ :=
    exchange_answered E dk host _ _ spdmKeyExchangeRsp false
      (by omega) (by omega) (by rw [hcode]; decide) hdisp (by rw [length_keyExchangeRsp]; decide)
      (by simp only [expectCode, length_keyExchangeRsp]; rfl)
  have ha' : host'.messageA = host.usb.messageA := ha.trans hs.messageA
  have hd' : host'.messageD = host.usb.messageD := hd.trans hs.messageD
  refine ⟨host', h, by rw [husb], by rw [husb]; rfl, by rw [ha', hd']; rfl, ?_, ?_, ?_⟩
  · rw [ha', husb]
  · rw [hd', husb]
  · rw [hd]
    exact hs.digested

/-- The second half: the responder accepts FINISH and installs its session. -/
theorem exchange_finish (hl : E.crypto.FixedLengths) (df : Draw) {ke : KeState} (hs : InStep host)
    (hk : host.usb.keState = some ke) {finishReq : Bytes}
    (hreq : finishReq = [spdmVer, spdmFinish, 0x00, 0x00] ++
      E.crypto.hmacSha256 ke.reqFinished (E.crypto.sha256
        (host.usb.thPrefix E ++ ke.req ++ ke.rsp ++ [spdmVer, spdmFinish, 0x00, 0x00]))) :
    ∃ host', exchange E df host finishReq spdmFinishRsp false =
        .ok (host.usb.finishRsp E ke finishReq, host') ∧
      host'.usb.keys = some (host.usb.finishSession E ke finishReq) ∧ InStep host' := by
  have hlen : finishReq.length = 36 := by
    rw [hreq, List.length_append, hl.hmac]
    rfl
  have hcode : finishReq.getD 1 0 = spdmFinish := by rw [hreq]; rfl
  have hdisp : ∀ tag, dispatch E df { host.usb with lastTag := tag } finishReq =
      .ok (host.usb.finishRsp E ke finishReq,
        { host.usb with lastTag := tag, keys := some (host.usb.finishSession E ke finishReq) }) :=
    fun tag => finish_answered hl { host.usb with lastTag := tag } hk rfl hreq
  obtain ⟨tag, host', h, husb, -, ha, hd⟩ := exchange_answered E df host _ _ spdmFinishRsp false
    (by omega) (by omega) (by rw [hcode]; decide) hdisp (by rw [length_finishRsp hl]; decide)
    (by simp only [expectCode, length_finishRsp hl]; rfl)
  refine ⟨host', h, by rw [husb], ?_, ?_, ?_⟩
  · rw [husb]
    exact ha.trans hs.messageA
  · rw [husb]
    exact hd.trans hs.messageD
  · rw [hd]
    exact hs.digested

/-- From testers in step `run_key_exchange` passes every check of both sides. -/
theorem runKeyExchange_ok (hl : E.crypto.FixedLengths) (hc : E.crypto.Commutes)
    (hv : E.crypto.VerifiesOwn) (hs : InStep host) (own dk df : Draw) (reqSessionId : UInt16) :
    ∃ keys host', runKeyExchange E own dk df host E.digest reqSessionId = .ok (keys, host') ∧
      Agreed keys host'.usb ∧ InStep host' := by
  obtain ⟨shared, hown, hdk⟩ := dheP256Shared_agrees hc own.ephemeral dk.ephemeral
  generalize hkeReq : keyExchangeReq E.crypto own reqSessionId = keReq
  obtain ⟨host₁, h₁, hk₁, hth₁, hprefix₁, hs₁⟩ := exchange_keyExchange reqSessionId hdk hs hkeReq
  generalize hke : host.usb.keyExchangeState E dk keReq shared = ke at hk₁
  generalize hfin : [spdmVer, spdmFinish, 0x00, 0x00] ++ E.crypto.hmacSha256 ke.reqFinished
    (E.crypto.sha256
      (host.usb.thPrefix E ++ ke.req ++ ke.rsp ++ [spdmVer, spdmFinish, 0x00, 0x00])) = finishReq
  obtain ⟨host₂, h₂, hk₂, hs₂⟩ := exchange_finish hl df hs₁ hk₁ (by rw [hth₁, hfin])
  have hid : ke.sessionId =
      UInt32.ofNat
        (leNat (slice (host.usb.keyExchangeRsp E dk keReq) 4 6) <<< 16 ||| reqSessionId.toNat) := by
    rw [← hke, keyExchangeState, keyExchangeRsp_sessionId, ← hkeReq,
      keyExchangeReq_sessionId, sessionIdOf]
  have hreq : ke.req = keReq := by rw [← hke]; rfl
  have hrsp : ke.rsp = host.usb.keyExchangeRsp E dk keReq := by rw [← hke]; rfl
  have hhk : E.crypto.deriveHandshakeKeys shared
      (E.crypto.sha256 (host.usb.thPrefix E ++ keReq ++ host.usb.keyExchangeRsp E dk keReq)) =
        ⟨ke.handshakeSecret, ke.reqFinished, ke.rspFinished⟩ := by rw [← hke]; rfl
  have hmac := slice_finishRsp hl host₁.usb ke finishReq
  rw [hreq, hrsp] at hfin hmac
  rw [hth₁] at hmac
  refine ⟨{ host₁.usb.finishSession E ke finishReq with role := .requester }, host₂, ?_,
    ⟨hk₂, rfl, rfl, rfl⟩, hs₂⟩
  simp only [runKeyExchange, hkeReq]
  rw [h₁, ok_bind]
  simp only [hprefix₁]
  rw [signatureOffset_keyExchangeRsp, ok_bind, verify_keyExchangeRsp hv, ok_bind, keyExchangeRsp_xy,
    hown, ok_bind]
  simp only [hhk, hfin]
  rw [h₂, ok_bind]
  simp only [length_finishRsp hl]
  rw [require_ok (by decide), ok_bind, require_ok hmac, ok_bind]
  simp only [finishSession, hid, hreq, hrsp, hth₁]

end Linked

end LinkedsemiZephyr.Spdm
