import LinkedsemiZephyr.Spdm.NonceReuse
import LinkedsemiZephyr.Spdm.OpenLink

/-! What someone on the link can do to a key exchange: the responder signs over whatever follows
the share of a request, the requester lets a response declare any length of opaque data, and it
hashes whatever follows a FINISH_RSP. -/
namespace LinkedsemiZephyr.Spdm
open Octets PartialRun SpdmPythonResponder

/-- The front of a KEY_EXCHANGE_RSP with the intruder's share, its opaque data as long as what the
responder signs. -/
def lure (C : Crypto) (intruder : Draw) : Bytes :=
  let header := [spdmVer, spdmKeyExchangeRsp, 0, 0] ++ leBytes 2 rspSessionId ++ [0, 0]
  header ++ intruder.nonce.1 ++ (C.pubXy intruder.ephemeral).1 ++ leBytes 2 106

variable {E : Device} {C : Crypto} {intruder own dk : Draw} {st : SpdmPythonResponder}
  {req rsp : Bytes}
  {reqSessionId : UInt16}

theorem length_lure : (lure C intruder).length = 106 := by
  simp only [lure, List.length_append, List.length_cons, List.length_nil, length_leBytes,
    intruder.nonce.2, (C.pubXy intruder.ephemeral).2]

/-- Header and nonce, the share, the length of the opaque data, and what follows. -/
theorem lure_parts (C : Crypto) (intruder : Draw) (rsp : Bytes) : ∃ head : Bytes, head.length = 40 ∧
    lure C intruder ++ rsp =
      head ++ ((C.pubXy intruder.ephemeral).1 ++ (leBytes 2 106 ++ rsp)) := by
  refine ⟨[spdmVer, spdmKeyExchangeRsp, 0, 0] ++ leBytes 2 rspSessionId ++ [0, 0] ++
    intruder.nonce.1, ?_, ?_⟩
  · simp only [List.length_append, List.length_cons, List.length_nil, length_leBytes,
      intruder.nonce.2]
  · simp only [lure, List.append_assoc]

theorem lure_xy : slice (lure C intruder ++ rsp) 40 104 = (C.pubXy intruder.ephemeral).1 := by
  obtain ⟨head, hhead, hparts⟩ := lure_parts C intruder rsp
  rw [hparts]
  exact slice_middle _ hhead (by rw [(C.pubXy intruder.ephemeral).2])

theorem lure_opaque : leNat (slice (lure C intruder ++ rsp) 104 106) = 106 := by
  obtain ⟨head, hhead, hparts⟩ := lure_parts C intruder rsp
  rw [hparts, ← List.append_assoc, slice_middle _ ?_ (by rw [length_leBytes])]
  · rfl
  · rw [List.length_append, hhead, (C.pubXy intruder.ephemeral).2]

/-- The requester takes the responder's whole answer up to its signature for opaque data. -/
theorem signatureOffset_lure (hrsp : rsp.length = 170) :
    Linked.signatureOffset (lure C intruder ++ rsp) = .ok 212 := by
  have hlen : (lure C intruder ++ rsp).length = 276 := by rw [List.length_append, length_lure, hrsp]
  have hmut : (lure C intruder ++ rsp).getD 6 0 = 0 := rfl
  simp only [Linked.signatureOffset, hlen, hmut, lure_opaque]
  rfl

/-- The signature of the answer is over the transcript the requester rebuilds. -/
theorem verify_lure (hv : E.crypto.VerifiesOwn) (st : SpdmPythonResponder) (dk intruder : Draw)
    (req : Bytes) :
    E.crypto.verifySpdmHash keyExchangeContext
      (E.crypto.sha256 (st.thPrefix E ++ req ++
        (lure E.crypto intruder ++ st.keyExchangeRsp E dk (req ++ lure E.crypto intruder)).take
          212))
      (slice (lure E.crypto intruder ++ st.keyExchangeRsp E dk (req ++ lure E.crypto intruder))
        212 (212 + 64)) =
        .ok () := by
  generalize hrsp : st.keyExchangeRsp E dk (req ++ lure E.crypto intruder) = rsp
  have hlong : (lure E.crypto intruder).length ≤ 212 := by
    rw [length_lure]
    decide
  have hunsigned : rsp.take 106 = keyExchangeUnsigned E.crypto dk := by
    rw [← hrsp]
    exact Linked.take_keyExchangeRsp
  have htake : (lure E.crypto intruder ++ rsp).take 212 =
      lure E.crypto intruder ++ keyExchangeUnsigned E.crypto dk := by
    rw [List.take_append, length_lure, hunsigned, List.take_of_length_le hlong]
  have hslice : slice (lure E.crypto intruder ++ rsp) 212 (212 + 64) =
      slice rsp 106 (106 + 64) := by
    rw [slice, slice, List.drop_append, length_lure, List.drop_eq_nil_of_le hlong, List.nil_append]
  rw [htake, hslice, ← List.append_assoc, List.append_assoc _ req, ← hunsigned, ← hrsp]
  exact Linked.verify_keyExchangeRsp hv

/-- What follows the share of a request changes neither the code nor the share. -/
theorem serve_lured (hc : E.crypto.Commutes) (st : SpdmPythonResponder) (own dk : Draw)
    (intruder : Draw) (reqSessionId : UInt16) (tag : UInt8) :
    let lured := Linked.keyExchangeReq E.crypto own reqSessionId ++ lure E.crypto intruder
    ∃ served st', st.serve E dk (mctpTypeSpdm :: lured) tag = .ok (served, st') ∧
      served.response = st.keyExchangeRsp E dk lured := by
  intro lured
  obtain ⟨shared, hshared, -⟩ := Linked.dheP256Shared_agrees hc dk.ephemeral own.ephemeral
  have hlen : lured.length = 212 := by
    rw [List.length_append, Linked.length_keyExchangeReq, length_lure]
  have hcode : handlerOf lured = some .keyExchange := rfl
  have hxy : slice lured 40 104 = (E.crypto.pubXy own.ephemeral).1 := by
    rw [← Linked.keyExchangeReq_xy E.crypto, slice, slice, List.drop_append_of_le_length,
      List.take_append_of_le_length]
    · rw [List.length_drop, Linked.length_keyExchangeReq]
      decide
    · rw [Linked.length_keyExchangeReq]
      decide
  have hdispatch : dispatch E dk { st with lastTag := tag } lured =
      .ok (st.keyExchangeRsp E dk lured,
      { st with lastTag := tag, keState := some (st.keyExchangeState E dk lured shared) }) := by
    rw [dispatch_handler .keyExchange (by omega) hcode]
    simp only [Handler.call, handleKeyExchange, hxy, hshared,
      if_neg (show ¬ lured.length < 6 by omega)]
    rfl
  obtain ⟨served, st', hserve⟩ :=
    serve_of_dispatch (by omega) hdispatch (by rw [length_keyExchangeRsp]; decide)
  obtain ⟨st₁, hdispatch', -, -, -⟩ := serve_clear hserve
  have hsame := Except.ok.inj (hdispatch'.symm.trans hdispatch)
  exact ⟨served, st', hserve, congrArg Prod.fst hsame⟩

/-- Every message can be cut into packets. -/
theorem exists_split (msg : Bytes) (hne : msg ≠ []) :
    ∃ split : MessageSplit, split.message = msg := by
  let packet (body : Bytes) (hbody : body ≠ []) (hlen : body.length ≤ 247) : MctpPacket :=
    ⟨0x01, busOwnerEid, selfEid, 0, body, hbody, hlen⟩
  induction hn : msg.length using Nat.strong_induction_on generalizing msg with
  | _ n ih =>
    subst hn
    have hpos := List.length_pos_of_ne_nil hne
    by_cases hlen : msg.length ≤ 247
    · exact ⟨⟨packet msg hne hlen, []⟩, List.append_nil msg⟩
    · have hdrop : msg.drop 247 ≠ [] := List.ne_nil_of_length_pos (by rw [List.length_drop]; omega)
      have htake : msg.take 247 ≠ [] := List.ne_nil_of_length_pos (by rw [List.length_take]; omega)
      obtain ⟨split, hsplit⟩ := ih _ (by rw [List.length_drop]; omega) (msg.drop 247) hdrop rfl
      refine ⟨⟨packet (msg.take 247) htake (by rw [List.length_take]; omega), split.packets⟩, ?_⟩
      change msg.take 247 ++ split.message = msg
      rw [hsplit, List.take_append_drop]

theorem lossless_chunk (data : Bytes) : Lossless [.chunk data] := by
  intro r hr
  rw [List.mem_singleton.mp hr]
  exact UsbRead.noConfusion

/-- The FINISH_RSP of someone who has the secret. -/
def finishRspFor (C : Crypto) (shared messages : Bytes) : Bytes :=
  finishRspHdr ++ SpdmHost.finishRspData C shared messages finishRspHdr

theorem length_finishRspFor (hl : C.FixedLengths) (shared messages : Bytes) :
    (finishRspFor C shared messages).length = 36 := by
  rw [finishRspFor, List.length_append, SpdmHost.finishRspData, hl.hmac]
  rfl

theorem slice_finishRspFor (hl : C.FixedLengths) (shared messages : Bytes) :
    slice (finishRspFor C shared messages) 4 36 =
      SpdmHost.finishRspData C shared messages ((finishRspFor C shared messages).take 4) := by
  change slice (finishRspHdr ++ _) 4 36 = SpdmHost.finishRspData C shared messages finishRspHdr
  apply slice_suffix rfl
  rw [SpdmHost.finishRspData, hl.hmac]
  decide

/-- Whoever sits between testers in step can end up with the session: the responder signs the
request with the lure behind it, and the requester verifies that signature with the lure in front
of the answer, takes the intruder's share and returns a session of the intruder's secret. -/
theorem keyExchange_hijacked (hl : E.crypto.FixedLengths) (hc : E.crypto.Commutes)
    (hv : E.crypto.VerifiesOwn) (st : SpdmPythonResponder) (own dk intruder : Draw)
    (reqSessionId : UInt16) (tag : UInt8) :
    ∃ served st' shared,
      st.serve E dk (mctpTypeSpdm ::
        (Linked.keyExchangeReq E.crypto own reqSessionId ++ lure E.crypto intruder)) tag =
        .ok (served, st') ∧
      E.crypto.dheP256Shared intruder.ephemeral (E.crypto.pubXy own.ephemeral).1 = .ok shared ∧
      ∃ keSplit finishSplit : MessageSplit,
        let keRsp := lure E.crypto intruder ++ served.response
        let messages := st.thPrefix E ++ Linked.keyExchangeReq E.crypto own reqSessionId ++ keRsp
        keSplit.message = mctpTypeSpdm :: keRsp ∧
        finishSplit.message = mctpTypeSpdm :: finishRspFor E.crypto shared messages ∧
        ∀ (host : SpdmHost MctpUsbTransport) (rest : Bytes),
          host.messageA = st.messageA → host.messageD = st.messageD →
          host.usb.stream = (keSplit.wire.map usbFrame).flatten ++
            ((finishSplit.wire.map usbFrame).flatten ++ rest) →
          Lossless host.usb.reads →
          ∃ host', host.runKeyExchange usbSource E.crypto own E.digest reqSessionId =
            .ok (SpdmHost.session E.crypto (SpdmHost.sessionId keRsp reqSessionId) shared messages
              (finishRspFor E.crypto shared messages), host') := by
  obtain ⟨served, st', hserve, hresponse⟩ := serve_lured hc st own dk intruder reqSessionId tag
  obtain ⟨shared, hown, hintruder⟩ :=
    Linked.dheP256Shared_agrees hc own.ephemeral intruder.ephemeral
  generalize hmessages : st.thPrefix E ++ Linked.keyExchangeReq E.crypto own reqSessionId ++
    (lure E.crypto intruder ++ served.response) = messages
  obtain ⟨keSplit, hke⟩ :=
    exists_split (mctpTypeSpdm :: (lure E.crypto intruder ++ served.response))
      (List.cons_ne_nil _ _)
  obtain ⟨finishSplit, hfinish⟩ :=
    exists_split (mctpTypeSpdm :: finishRspFor E.crypto shared messages)
      (List.cons_ne_nil _ _)
  refine ⟨served, st', shared, hserve, hintruder, keSplit, finishSplit, hke, ?_, ?_⟩
  · rw [hmessages]
    exact hfinish
  · intro host rest ha hd hs hlossless
    have hrsp : served.response.length = 170 := by rw [hresponse, length_keyExchangeRsp]
    have hreq : (Linked.keyExchangeReq E.crypto own reqSessionId).length ≤ 246 := by
      rw [Linked.length_keyExchangeReq]
      decide
    have hkeCode : expectCode (lure E.crypto intruder ++ served.response)
        spdmKeyExchangeRsp = .ok () := by
      have hlen : ¬ (lure E.crypto intruder ++ served.response).length < 2 := by
        rw [List.length_append, length_lure]
        omega
      rw [expectCode, if_neg hlen]
      rfl
    obtain ⟨host₁, hx, ha₁, hd₁, hs₁, hl₁⟩ :=
      SpdmHost.exchange_split host keSplit hke hreq hkeCode hs hlossless
    have hth : host₁.thPrefix E.digest = st.thPrefix E := by
      rw [SpdmHost.thPrefix, ha₁, hd₁, ha, hd]
      rfl
    have hfinReq : (SpdmHost.finishReq E.crypto shared messages).length ≤ 246 := by
      rw [SpdmHost.finishReq, List.length_append, hl.hmac]
      decide
    have hfinLen := length_finishRspFor hl shared messages
    have hfinCode : expectCode (finishRspFor E.crypto shared messages) spdmFinishRsp = .ok () := by
      rw [expectCode, if_neg (by rw [hfinLen]; decide)]
      rfl
    obtain ⟨host₂, hy, -⟩ :=
      SpdmHost.exchange_split host₁ finishSplit hfinish hfinReq hfinCode hs₁ hl₁
    refine ⟨host₂, ?_⟩
    have hverify := verify_lure hv st dk intruder (Linked.keyExchangeReq E.crypto own reqSessionId)
    rw [← hresponse, ← hth] at hverify
    rw [← hth] at hmessages ⊢
    have hrun := SpdmHost.runKeyExchange_of hx (signatureOffset_lure hrsp) hverify
      (by rw [lure_xy]; exact hown)
      (by rw [hmessages]; exact hy) (by rw [hfinLen])
      (by rw [hmessages]; exact slice_finishRspFor hl shared messages)
    rw [hmessages] at hrun
    rw [hmessages]
    exact hrun

theorem keyExchange_hijacked_sample : ∃ served st' keys usb host',
    SpdmPythonResponder.serve sampleDevice (sampleDraw 1) {} (mctpTypeSpdm ::
      (Linked.keyExchangeReq constantCrypto (sampleDraw 0) 0x00FF ++
        lure constantCrypto (sampleDraw 2))) 0 =
        .ok (served, st') ∧
    SpdmHost.runKeyExchange usbSource constantCrypto (sampleDraw 0) { usb }
      sampleDevice.digest 0x00FF =
      .ok (keys, host') := by
  obtain ⟨served, st', shared, hserve, -, keSplit, finishSplit, -, -, hrun⟩ :=
    keyExchange_hijacked (E := sampleDevice) constantCrypto_fixedLengths constantCrypto_commutes
      constantCrypto_verifiesOwn {} (sampleDraw 0) (sampleDraw 1) (sampleDraw 2) 0x00FF 0
  let stream :=
    (keSplit.wire.map usbFrame).flatten ++ ((finishSplit.wire.map usbFrame).flatten ++ [])
  obtain ⟨host', hhost⟩ := hrun { usb := ⟨[], [.chunk stream]⟩ } [] rfl rfl (List.append_nil stream)
    (lossless_chunk stream)
  exact ⟨served, st', _, ⟨[], [.chunk stream]⟩, host', hserve, hhost⟩

/-- Octets behind the FINISH_RSP pass every check, and where both ends had come to one session
without them, the requester's is no longer the one that the responder has. -/
theorem finishRsp_trailing (inj : E.crypto.Injective) {df : Draw} {linked linked' : Linked}
    {keys : SecuredSession} {certChainHash : Bytes}
    (h : Linked.runKeyExchange E own dk df linked certChainHash reqSessionId = .ok (keys, linked'))
    (hagreed : Linked.Agreed keys linked'.usb) :
    ∃ keRsp finishRsp, ∀ (extra : Bytes) (keSplit finishSplit : MessageSplit)
      (host : SpdmHost MctpUsbTransport) (rest : Bytes), keSplit.message = mctpTypeSpdm :: keRsp →
      finishSplit.message = mctpTypeSpdm :: (finishRsp ++ extra) →
      SpdmHost.SameMessages linked host → Lossless host.usb.reads →
      host.usb.stream =
        (keSplit.wire.map usbFrame).flatten ++ ((finishSplit.wire.map usbFrame).flatten ++ rest) →
      ∃ keys' host',
        host.runKeyExchange usbSource E.crypto own certChainHash reqSessionId =
          .ok (keys', host') ∧
        (Linked.Agreed keys' linked'.usb ↔ extra = []) := by
  obtain ⟨keRsp, shared, finishRsp, hkeys, hrun⟩ := SpdmHost.runKeyExchange_linked h
  refine ⟨keRsp, finishRsp, fun extra keSplit finishSplit host rest hke hfinish hsame hl hs => ?_⟩
  obtain ⟨host', hhost⟩ := hrun extra keSplit finishSplit host rest hke hfinish hsame hl hs
  refine ⟨_, host', hhost, ?_⟩
  constructor
  · intro hsession
    have hboth := Option.some.inj (hsession.responder.symm.trans hagreed.responder)
    have hkey := congrArg SecuredSession.rspKey hboth
    rw [hkeys] at hkey
    obtain ⟨-, hth2⟩ := inj.rspKey hkey
    exact List.append_right_eq_self.mp (List.append_cancel_left (inj.sha256 hth2))
  · rintro rfl
    rw [hkeys] at hagreed
    rw [List.append_nil]
    exact hagreed

/-- One octet behind the FINISH_RSP of a sample handshake. -/
theorem finishRsp_trailing_octet : ∃ linked' keys keys' usb host',
    Linked.runKeyExchange markedDevice (sampleDraw 0) (sampleDraw 0) (sampleDraw 1) { usb := {} } []
      0x00FF = .ok (keys, linked') ∧
    SpdmHost.runKeyExchange usbSource markedDevice.crypto (sampleDraw 0) { usb } [] 0x00FF =
      .ok (keys', host') ∧
    Linked.Agreed keys linked'.usb ∧ ¬ Linked.Agreed keys' linked'.usb := by
  have hreturns : (match Linked.runKeyExchange markedDevice (sampleDraw 0) (sampleDraw 0)
      (sampleDraw 1) { usb := {} } [] 0x00FF with
    | .ok (keys, linked') =>
      decide (linked'.usb.keys = some { keys with role := .responder } ∧ keys.role = .requester ∧
        keys.reqSeq = 0 ∧ keys.rspSeq = 0)
    | .error _ => false) = true := by decide +kernel
  cases hlinked : Linked.runKeyExchange markedDevice (sampleDraw 0) (sampleDraw 0) (sampleDraw 1)
      { usb := {} } [] 0x00FF with
  | error e =>
      rw [hlinked] at hreturns
      cases hreturns
  | ok result =>
      rw [hlinked] at hreturns
      obtain ⟨hresponder, hrole, hreq, hrsp⟩ := of_decide_eq_true hreturns
      have hagreed : Linked.Agreed result.1 result.2.usb := ⟨hresponder, hrole, hreq, hrsp⟩
      obtain ⟨keRsp, finishRsp, hrun⟩ :=
        finishRsp_trailing markedCrypto_injective hlinked hagreed
      obtain ⟨keSplit, hke⟩ := exists_split (mctpTypeSpdm :: keRsp) (List.cons_ne_nil _ _)
      obtain ⟨finishSplit, hfinish⟩ :=
        exists_split (mctpTypeSpdm :: (finishRsp ++ [0])) (List.cons_ne_nil _ _)
      let stream :=
        (keSplit.wire.map usbFrame).flatten ++ ((finishSplit.wire.map usbFrame).flatten ++ [])
      obtain ⟨keys', host', hhost, hsame⟩ :=
        hrun [0] keSplit finishSplit { usb := ⟨[], [.chunk stream]⟩ } []
          hke hfinish ⟨rfl, rfl, rfl⟩ (lossless_chunk stream) (List.append_nil stream)
      exact ⟨result.2, result.1, keys', _, host', rfl, hhost, hagreed,
        fun h => List.cons_ne_nil _ _ (hsame.mp h)⟩

end LinkedsemiZephyr.Spdm
