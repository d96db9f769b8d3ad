import LinkedsemiZephyr.Spdm.ChallengeTranscript
import LinkedsemiZephyr.Spdm.Handshake

/-! The requester on a link nobody vouches for: its receives return whatever frames come in. A
verified signature ties what it accepted to a request the responder answered. -/
namespace LinkedsemiZephyr.Spdm
open Octets PartialRun SpdmPythonResponder

namespace SpdmHost

variable {σ : Type} {S : FrameSource σ}

/-- `exchange` on the frames of any link. -/
def exchange (S : FrameSource σ) (host : SpdmHost σ) (request : Bytes) (expectedCode : UInt8)
    (recordA : Bool) :
    Except PyErr (Bytes × SpdmHost σ) := do
  let _ ← buildFrame (buildMctp (mctpTypeSpdm :: request) host.tag true)
  match recvMctpPayload S { host with tag := (host.tag + 1) &&& 0x07 } with
  | .error e _ => .error e
  | .ok msg host => do
    require (msg.getD 0 0 &&& 0x7F = mctpTypeSpdm) (.unexpectedMctpType (msg.take 8))
    let rsp := msg.drop 1
    expectCode rsp expectedCode
    .ok (rsp, { host with
      transcript := host.transcript ++ request ++ rsp
      messageA := if recordA then host.messageA ++ request ++ rsp else host.messageA })

/-- `th_prefix` of `run_key_exchange`. -/
def thPrefix (host : SpdmHost σ) (certChainHash : Bytes) : Bytes :=
  host.messageA ++ host.messageD ++ certChainHash

/-- The FINISH request over the messages up to KEY_EXCHANGE_RSP. -/
def finishReq (C : Crypto) (shared messages : Bytes) : Bytes :=
  let hk := C.deriveHandshakeKeys shared (C.sha256 messages)
  let finishHdr := [spdmVer, spdmFinish, 0x00, 0x00]
  finishHdr ++ C.hmacSha256 hk.reqFinished (C.sha256 (messages ++ finishHdr))

/-- The `verify_data` that a FINISH_RSP must carry behind its header. -/
def finishRspData (C : Crypto) (shared messages header : Bytes) : Bytes :=
  let hk := C.deriveHandshakeKeys shared (C.sha256 messages)
  C.hmacSha256 hk.rspFinished (C.sha256 (messages ++ finishReq C shared messages ++ header))

/-- The session `run_key_exchange` returns. -/
def session (C : Crypto) (sessionId : UInt32) (shared messages finishRsp : Bytes) :
    SecuredSession :=
  let hk := C.deriveHandshakeKeys shared (C.sha256 messages)
  let th2 := C.sha256 (messages ++ finishReq C shared messages ++ finishRsp)
  let ak := C.deriveApplicationKeys hk.handshakeSecret th2
  { sessionId, reqKey := ak.reqKey, reqSalt := ak.reqSalt, rspKey := ak.rspKey,
    rspSalt := ak.rspSalt }

/-- `session_id` of `run_key_exchange`. -/
def sessionId (keRsp : Bytes) (reqSessionId : UInt16) : UInt32 :=
  UInt32.ofNat (leNat (slice keRsp 4 6) <<< 16 ||| reqSessionId.toNat)

/-- `run_key_exchange`; `own` are the requester's draws. -/
def runKeyExchange (S : FrameSource σ) (C : Crypto) (own : Draw) (host : SpdmHost σ)
    (certChainHash : Bytes) (reqSessionId : UInt16) :
    Except PyErr (SecuredSession × SpdmHost σ) := do
  let keReq := Linked.keyExchangeReq C own reqSessionId
  let (keRsp, host) ← exchange S host keReq spdmKeyExchangeRsp false
  let sigOff ← Linked.signatureOffset keRsp
  let signature := slice keRsp sigOff (sigOff + 64)
  let thForSig := C.sha256 (host.thPrefix certChainHash ++ keReq ++ keRsp.take sigOff)
  C.verifySpdmHash keyExchangeContext thForSig signature
  let messages := host.thPrefix certChainHash ++ keReq ++ keRsp
  let shared ← C.dheP256Shared own.ephemeral (slice keRsp 40 104)
  let (finishRsp, host) ← exchange S host (finishReq C shared messages) spdmFinishRsp false
  require (4 + 32 ≤ finishRsp.length) (.finishRspTooShort finishRsp.length)
  require (slice finishRsp 4 36 = finishRspData C shared messages (finishRsp.take 4))
    .finishHmacMismatch
  .ok (session C (sessionId keRsp reqSessionId) shared messages finishRsp, host)

def challengeReq (nonce : Sized 32) (reqCtx : Sized 8) : Bytes :=
  [spdmVer, spdmChallenge, 0x00, 0x00] ++ nonce.1 ++ reqCtx.1

/-- CHALLENGE of `run_spdm_handshake`. -/
def challenge (S : FrameSource σ) (C : Crypto) (host : SpdmHost σ) (nonce : Sized 32)
    (reqCtx : Sized 8) :
    Except PyErr (SpdmHost σ) := do
  let (chal, host) ← exchange S host (challengeReq nonce reqCtx) spdmChallengeAuth false
  let sig := chal.drop (chal.length - 64)
  let unsigned := chal.take (chal.length - 64)
  require (unsigned.drop (unsigned.length - 8) = reqCtx.1) .requesterContextMismatch
  C.verifySpdmHash challengeContext
    (C.sha256 (host.transcript.take (host.transcript.length - 64))) sig
  .ok host

/-! ### What the calls do -/

variable {C : Crypto} {own : Draw} {host host' : SpdmHost σ} {keys : SecuredSession}
  {request rsp msg : Bytes}
  {certChainHash : Bytes} {reqSessionId : UInt16} {code : UInt8} {recordA : Bool} {nonce : Sized 32}
  {reqCtx : Sized 8}

/-- The messages a host keeps. -/
structure SameMessages {τ : Type} (host : SpdmHost σ) (host' : SpdmHost τ) : Prop where
  transcript : host'.transcript = host.transcript
  messageA : host'.messageA = host.messageA
  messageD : host'.messageD = host.messageD

theorem notePacket_messages (host : SpdmHost σ) (frame : Bytes) :
    SameMessages host (host.notePacket frame) := by
  unfold notePacket
  extract_lets payload
  split <;> exact ⟨rfl, rfl, rfl⟩

theorem recvLoop_messages (h : host.recvLoop S msg = .ok rsp host') : SameMessages host host' := by
  induction host, msg using recvLoop.induct (S := S) with
  | case1 host msg e usb hf => rw [recvLoop_timeout hf] at h; cases h
  | case2 host msg frame usb hf e hp => rw [recvLoop_malformed hf hp] at h; cases h
  | case3 host msg frame usb hf som body hempty hp =>
      rw [recvLoop_last hf hp, if_pos hempty] at h
      cases h
  | case4 host msg frame usb hf som body hempty hp =>
      rw [recvLoop_last hf hp, if_neg hempty] at h
      cases h
      obtain ⟨ht, ha, hd⟩ := notePacket_messages { host with usb } frame
      exact ⟨ht, ha, hd⟩
  | case5 host msg frame usb hf som eom body hp heom ih =>
      obtain rfl : eom = false := Bool.eq_false_iff.mpr heom
      rw [recvLoop_more hf hp] at h
      obtain ⟨ht, ha, hd⟩ := notePacket_messages { host with usb } frame
      obtain ⟨ht', ha', hd'⟩ := ih h
      exact ⟨ht'.trans ht, ha'.trans ha, hd'.trans hd⟩

/-- What an exchange that returned has recorded. -/
theorem exchange_ok (h : host.exchange S request code recordA = .ok (rsp, host')) :
    expectCode rsp code = .ok () ∧ host'.transcript = host.transcript ++ request ++ rsp ∧
      host'.messageA = (if recordA then host.messageA ++ request ++ rsp else host.messageA) ∧
      host'.messageD = host.messageD := by
  unfold exchange at h
  obtain ⟨frame, -, h⟩ := of_bind_ok h
  split at h
  · cases h
  · next msg host₁ hr =>
      obtain ⟨-, -, h⟩ := of_bind_ok h
      obtain ⟨⟨⟩, hcode, h⟩ := of_bind_ok h
      cases h
      obtain ⟨ht, ha, hd⟩ := recvLoop_messages hr
      exact ⟨hcode, by rw [← ht], by rw [← ha], hd⟩

theorem of_require {p : Prop} [Decidable p] {e : PyErr} {u : Unit} (h : require p e = .ok u) :
    p := by
  unfold require at h
  split at h
  · assumption
  · cases h

theorem signatureOffset_ok {keRsp : Bytes} {sigOff : Nat}
    (h : Linked.signatureOffset keRsp = .ok sigOff) :
    106 ≤ sigOff ∧ keRsp.length = sigOff + 64 := by
  unfold Linked.signatureOffset at h
  obtain ⟨-, -, h⟩ := of_bind_ok h
  obtain ⟨-, -, h⟩ := of_bind_ok h
  obtain ⟨-, -, h⟩ := of_bind_ok h
  obtain ⟨⟨⟩, hlen, h⟩ := of_bind_ok h
  cases h
  exact ⟨Nat.le_add_right 106 _, of_require hlen⟩

theorem verifySpdmHash_ok {context th sig : Bytes} (h : C.verifySpdmHash context th sig = .ok ()) :
    C.verify (C.sha256 (spdm13SigningContext context ++ th)) sig = true := by
  unfold Crypto.verifySpdmHash at h
  split at h
  · assumption
  · cases h

/-- What a key exchange that returned received and what it made of it. -/
structure KeyExchanged (C : Crypto) (own : Draw) (reqSessionId : UInt16) (certChainHash : Bytes)
    (host host' : SpdmHost σ) (keys : SecuredSession) (keRsp shared finishRsp : Bytes) : Prop where
  signedPart : 106 ≤ keRsp.length - 64
  verified : C.verify (C.sha256 (spdm13SigningContext keyExchangeContext ++
    C.sha256 (host.thPrefix certChainHash ++ Linked.keyExchangeReq C own reqSessionId ++
      keRsp.take (keRsp.length - 64)))) (keRsp.drop (keRsp.length - 64)) = true
  secret : C.dheP256Shared own.ephemeral (slice keRsp 40 104) = .ok shared
  transcript : host'.transcript = host.transcript ++
    Linked.keyExchangeReq C own reqSessionId ++ keRsp ++
    finishReq C shared (host.thPrefix certChainHash ++ Linked.keyExchangeReq C own reqSessionId ++
      keRsp) ++ finishRsp
  session : keys = session C (sessionId keRsp reqSessionId) shared
    (host.thPrefix certChainHash ++ Linked.keyExchangeReq C own reqSessionId ++ keRsp) finishRsp

theorem runKeyExchange_ok
    (h : host.runKeyExchange S C own certChainHash reqSessionId = .ok (keys, host')) :
    ∃ keRsp shared finishRsp,
      KeyExchanged C own reqSessionId certChainHash host host' keys keRsp shared finishRsp := by
  unfold runKeyExchange at h
  obtain ⟨⟨keRsp, host₁⟩, hx, h⟩ := of_bind_ok h
  obtain ⟨-, ht, ha, hd⟩ := exchange_ok hx
  obtain ⟨sigOff, hoff, h⟩ := of_bind_ok h
  obtain ⟨hmin, hlen⟩ := signatureOffset_ok hoff
  obtain ⟨⟨⟩, hverify, h⟩ := of_bind_ok h
  obtain ⟨shared, hshared, h⟩ := of_bind_ok h
  obtain ⟨⟨finishRsp, host₂⟩, hy, h⟩ := of_bind_ok h
  obtain ⟨-, ht', -, -⟩ := exchange_ok hy
  obtain ⟨-, -, h⟩ := of_bind_ok h
  obtain ⟨-, -, h⟩ := of_bind_ok h
  cases h
  have hth : host₁.thPrefix certChainHash = host.thPrefix certChainHash := by
    rw [thPrefix, thPrefix, ha, hd]
    rfl
  have hsigOff : keRsp.length - 64 = sigOff := by omega
  have hsig : slice keRsp sigOff (sigOff + 64) = keRsp.drop sigOff := by
    rw [slice, ← hlen]
    exact List.take_of_length_le (by rw [List.length_drop])
  refine ⟨keRsp, shared, finishRsp, ?_, ?_, hshared, ?_, ?_⟩
  · omega
  · rw [hsigOff, ← hsig, ← hth]
    exact verifySpdmHash_ok hverify
  · rw [ht', ht, hth]
  · rw [hth]

/-- A challenge that returned has verified its transcript up to the last 64 octets. -/
theorem challenge_ok (h : host.challenge S C nonce reqCtx = .ok host') :
    ∃ chal, host'.transcript = host.transcript ++ challengeReq nonce reqCtx ++ chal ∧
      C.verify (C.sha256 (spdm13SigningContext challengeContext ++
        C.sha256 (host'.transcript.take (host'.transcript.length - 64))))
          (chal.drop (chal.length - 64)) = true := by
  unfold challenge at h
  obtain ⟨⟨chal, host₁⟩, hx, h⟩ := of_bind_ok h
  obtain ⟨-, ht, -, -⟩ := exchange_ok hx
  obtain ⟨-, -, h⟩ := of_bind_ok h
  obtain ⟨⟨⟩, hverify, h⟩ := of_bind_ok h
  cases h
  exact ⟨chal, ht, verifySpdmHash_ok hverify⟩

/-- An exchange returns what is received, if it has the code. -/
theorem exchange_received {host₁ : SpdmHost σ} (recordA : Bool) (hreq : request.length ≤ 246)
    (hr : recvMctpPayload S { host with tag := (host.tag + 1) &&& 0x07 } =
      .ok (mctpTypeSpdm :: rsp) host₁)
    (hcode : expectCode rsp code = .ok ()) :
    ∃ host', host.exchange S request code recordA = .ok (rsp, host') ∧ host'.usb = host₁.usb := by
  have hb : (buildMctp (mctpTypeSpdm :: request) host.tag true).length ≤ 251 := by
    simp only [buildMctp, List.length_append, List.length_cons, List.length_nil]
    omega
  refine ⟨{ host₁ with
    transcript := host₁.transcript ++ request ++ rsp
    messageA := if recordA then host₁.messageA ++ request ++ rsp else host₁.messageA }, ?_, rfl⟩
  rw [exchange, buildFrame_ok hb, ok_bind, hr]
  simp only [List.getD_cons_zero]
  rw [require_ok (by decide), ok_bind, List.drop_one, List.tail_cons, hcode, ok_bind]

theorem runKeyExchange_of {host₁ host₂ : SpdmHost σ} {keRsp shared finishRsp : Bytes} {sigOff : Nat}
    (hx : host.exchange S (Linked.keyExchangeReq C own reqSessionId) spdmKeyExchangeRsp false =
      .ok (keRsp, host₁))
    (hoff : Linked.signatureOffset keRsp = .ok sigOff)
    (hverify : C.verifySpdmHash keyExchangeContext (C.sha256 (host₁.thPrefix certChainHash ++
      Linked.keyExchangeReq C own reqSessionId ++ keRsp.take sigOff))
      (slice keRsp sigOff (sigOff + 64)) = .ok ())
    (hshared : C.dheP256Shared own.ephemeral (slice keRsp 40 104) = .ok shared)
    (hy : host₁.exchange S (finishReq C shared
      (host₁.thPrefix certChainHash ++ Linked.keyExchangeReq C own reqSessionId ++ keRsp))
      spdmFinishRsp false = .ok (finishRsp, host₂))
    (hlen : 4 + 32 ≤ finishRsp.length)
    (hmac : slice finishRsp 4 36 = finishRspData C shared (host₁.thPrefix certChainHash ++
      Linked.keyExchangeReq C own reqSessionId ++ keRsp) (finishRsp.take 4)) :
    host.runKeyExchange S C own certChainHash reqSessionId =
      .ok (session C (sessionId keRsp reqSessionId) shared
        (host₁.thPrefix certChainHash ++ Linked.keyExchangeReq C own reqSessionId ++ keRsp)
          finishRsp, host₂) := by
  simp only [runKeyExchange, hx, hoff, hverify, hshared, hy, ok_bind]
  rw [require_ok hlen, ok_bind, require_ok hmac, ok_bind]

/-- A message in any number of packets is one response. -/
theorem exchange_split (host : SpdmHost MctpUsbTransport) (split : MessageSplit) {rest : Bytes}
    (hmessage : split.message = mctpTypeSpdm :: rsp) (hreq : request.length ≤ 246)
    (hcode : expectCode rsp code = .ok ())
    (hs : host.usb.stream = (split.wire.map usbFrame).flatten ++ rest)
    (hl : Lossless host.usb.reads) :
    ∃ host', host.exchange usbSource request code false = .ok (rsp, host') ∧
      host'.messageA = host.messageA ∧
      host'.messageD = host.messageD ∧ host'.usb.stream = rest ∧ Lossless host'.usb.reads := by
  let tagged : SpdmHost MctpUsbTransport := { host with tag := (host.tag + 1) &&& 0x07 }
  have hs' : tagged.usb.stream = (split.wire.map usbFrame).flatten ++ rest := hs
  obtain ⟨host₁, hr, hrest, hl₁⟩ := recvMctpPayload_split split hs' hl
  rw [hmessage] at hr
  obtain ⟨host', hx, husb⟩ := exchange_received false hreq hr hcode
  obtain ⟨-, -, ha, hd⟩ := exchange_ok hx
  exact ⟨host', hx, ha, hd, by rw [husb, hrest], by rw [husb]; exact hl₁⟩

/-! ### The responder's own frames -/

theorem length_of_buildFrame {payload frame : Bytes} (h : buildFrame payload = .ok frame) :
    payload.length ≤ 251 := by
  unfold buildFrame at h
  extract_lets totalLen at h
  split at h
  · cases h
  · omega

theorem length_buildMctp (body : Bytes) (tag : UInt8) (tagOwner : Bool) :
    (buildMctp body tag tagOwner).length = 4 + body.length := List.length_append

/-- The request of an exchange with the responder fits a packet. -/
theorem fits_of_linked {E : Device} {d : Draw} {linked linked' : Linked}
    (h : Linked.exchange E d linked request code recordA = .ok (rsp, linked')) :
    request.length ≤ 246 := by
  unfold Linked.exchange Linked.transact at h
  obtain ⟨⟨msg, linked₁⟩, ht, -⟩ := of_bind_ok h
  split at ht
  · cases ht
  · next frame hframe =>
      have hreq := length_of_buildFrame hframe
      rw [length_buildMctp, List.length_cons] at hreq
      omega

theorem expectCode_append (h : expectCode rsp code = .ok ()) (extra : Bytes) :
    expectCode (rsp ++ extra) code = .ok () := by
  unfold expectCode at h
  split at h
  · cases h
  · next hlen =>
      have hget : (rsp ++ extra).getD 1 0 = rsp.getD 1 0 := by
        rw [List.getD_eq_getElem?_getD, List.getElem?_append_left (by omega),
          ← List.getD_eq_getElem?_getD]
      have hlen' : ¬ (rsp ++ extra).length < 2 := by
        rw [List.length_append]
        omega
      split at h
      · split at h
        · cases h
        · cases h
      · next hne =>
          split at h
          · cases h
          · next hcode => rw [expectCode, if_neg hlen', hget, if_neg hne, if_neg hcode]

/-- A key exchange that returned linked to the responder returns over any packets of its answers
too, and takes whatever stands behind the FINISH_RSP for part of it. -/
theorem runKeyExchange_linked {E : Device} {dk df : Draw} {linked linked' : Linked}
    (h : Linked.runKeyExchange E own dk df linked certChainHash reqSessionId =
      .ok (keys, linked')) :
    ∃ keRsp shared finishRsp,
      let messages := linked.messageA ++ linked.messageD ++ certChainHash ++
        Linked.keyExchangeReq E.crypto own reqSessionId ++ keRsp
      keys = session E.crypto (sessionId keRsp reqSessionId) shared messages finishRsp ∧
      ∀ (extra : Bytes) (keSplit finishSplit : MessageSplit) (host :
        SpdmHost MctpUsbTransport) (rest : Bytes),
        keSplit.message = mctpTypeSpdm :: keRsp →
        finishSplit.message = mctpTypeSpdm :: (finishRsp ++ extra) →
        SameMessages linked host → Lossless host.usb.reads →
        host.usb.stream = (keSplit.wire.map usbFrame).flatten ++
          ((finishSplit.wire.map usbFrame).flatten ++ rest) →
        ∃ host', host.runKeyExchange usbSource E.crypto own certChainHash reqSessionId =
          .ok (session E.crypto (sessionId keRsp reqSessionId) shared messages (finishRsp ++ extra),
            host') := by
  unfold Linked.runKeyExchange at h
  obtain ⟨⟨keRsp, linked₁⟩, hx, h⟩ := of_bind_ok h
  obtain ⟨sigOff, hoff, h⟩ := of_bind_ok h
  obtain ⟨⟨⟩, hverify, h⟩ := of_bind_ok h
  obtain ⟨shared, hshared, h⟩ := of_bind_ok h
  obtain ⟨⟨finishRsp, linked₂⟩, hy, h⟩ := of_bind_ok h
  obtain ⟨⟨⟩, hlen, h⟩ := of_bind_ok h
  obtain ⟨⟨⟩, hmac, h⟩ := of_bind_ok h
  cases h
  obtain ⟨-, -, -, hcode, -, -, ha, hd⟩ := Linked.exchange_ok hx
  have hth : linked₁.messageA ++ linked₁.messageD ++ certChainHash =
      linked.messageA ++ linked.messageD ++ certChainHash := by
    rw [ha, hd]
    rfl
  simp only [hth] at hverify hy hmac ⊢
  refine ⟨keRsp, shared, finishRsp, rfl,
    fun extra keSplit finishSplit host rest hke hfinish hsame hl hs => ?_⟩
  have hreq := fits_of_linked hx
  have hreq' := fits_of_linked hy
  obtain ⟨-, -, -, hcode', -⟩ := Linked.exchange_ok hy
  obtain ⟨host₁, hx', ha', hd', hs₁, hl₁⟩ := exchange_split host keSplit hke hreq hcode hs hl
  obtain ⟨host₂, hy', -⟩ :=
    exchange_split host₁ finishSplit hfinish hreq' (expectCode_append hcode' extra) hs₁ hl₁
  have hsame₁ : host₁.thPrefix certChainHash =
      linked.messageA ++ linked.messageD ++ certChainHash := by
    rw [thPrefix, ha', hd', hsame.messageA, hsame.messageD]
  have hlen := of_require hlen
  have hfront (n : Nat) (hn : n ≤ finishRsp.length) : (finishRsp ++ extra).take n =
      finishRsp.take n :=
    List.take_append_of_le_length hn
  have hdata : slice (finishRsp ++ extra) 4 36 = slice finishRsp 4 36 := by
    rw [slice, slice, List.drop_append_of_le_length (by omega), List.take_append_of_le_length]
    rw [List.length_drop]
    omega
  refine ⟨host₂, ?_⟩
  rw [← hsame₁] at hverify hmac hy' ⊢
  apply runKeyExchange_of hx' hoff hverify hshared hy'
  · rw [List.length_append]
    omega
  · rw [hdata, hfront 4 (by omega)]
    exact of_require hmac

end SpdmHost

end LinkedsemiZephyr.Spdm
