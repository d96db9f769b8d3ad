import LinkedsemiZephyr.Lib.PartialRun
import LinkedsemiZephyr.Spdm.Responder

/-! The requester half of the host testers, with the responder at the other end of its
USB link: what `send_data` hands over is served at once and the reply is what the next
receive returns. A responder that raises leaves the requester to its timeout. -/
namespace LinkedsemiZephyr.Spdm
open Octets

def expectCode (spdm : Bytes) (code : UInt8) : Except PyErr Unit :=
  if spdm.length < 2 then .error .responseTooShort
  else if spdm.getD 1 0 = spdmErrorCode then
    if spdm.length < 4 then .error .indexError
    else .error (.spdmError (spdm.getD 2 0) (spdm.getD 3 0))
  else if spdm.getD 1 0 ≠ code then .error (.unexpectedCode code (spdm.getD 1 0))
  else .ok ()

/-- A requester whose transport ends at a responder. -/
abbrev Linked := SpdmHost SpdmPythonResponder

namespace Linked

/-- `send_data` of a message, the tag of the next one, and `recv_mctp_payload`. -/
def transact (E : Device) (d : Draw) (host : Linked) (msgBody : Bytes) :
    Except PyErr (Bytes × Linked) :=
  match buildFrame (buildMctp msgBody host.tag true) with
  | .error e => .error e
  | .ok frame =>
    match host.usb.serve E d (frame.drop 8) (frame.getD 7 0 &&& 0x07) with
    | .error _ => .error (.usbTimeout .header)
    | .ok (served, usb) =>
      .ok (served.frame.drop 8,
        SpdmHost.notePacket { host with usb, tag := (host.tag + 1) &&& 0x07 } served.frame)

/-- The transcript and `message_a` after an exchange. -/
def record (host : Linked) (request rsp : Bytes) (recordA : Bool) : Linked :=
  { host with transcript := host.transcript ++ request ++ rsp
              messageA := if recordA then host.messageA ++ request ++ rsp else host.messageA }

def exchange (E : Device) (d : Draw) (host : Linked) (request : Bytes) (expectedCode : UInt8)
    (recordA : Bool) : Except PyErr (Bytes × Linked) := do
  let (msg, host) ← transact E d host (mctpTypeSpdm :: request)
  require (msg.getD 0 0 &&& 0x7F = mctpTypeSpdm) (.unexpectedMctpType (msg.take 8))
  let rsp := msg.drop 1
  expectCode rsp expectedCode
  .ok (rsp, record host request rsp recordA)

/-- `exchange_secured`; the session object is the caller's, so it comes back too. -/
def exchangeSecured (E : Device) (d : Draw) (host : Linked) (keys : SecuredSession)
    (request : Bytes) (expectedCode : UInt8) : Except PyErr (Bytes × SecuredSession × Linked) :=
  match keys.encode E.crypto request with
  | .error e _ => .error e
  | .ok inner keys => do
    let (msg, host) ← transact E d host (mctpTypeSecured :: inner)
    require (msg.getD 0 0 &&& 0x7F = mctpTypeSecured) (.unexpectedMctpType (msg.take 8))
    match keys.decode E.crypto (msg.drop 1) with
    | .error e _ => .error e
    | .ok rsp keys => do
      expectCode rsp expectedCode
      .ok (rsp, keys, host)

def getVersionReq : Bytes := [0x10, spdmGetVersion, 0x00, 0x00]

/-- The request flags of `run_spdm_handshake`. -/
def reqFlags : UInt32 :=
  spdmReqFlagsEncrypt ||| spdmReqFlagsMac ||| spdmReqFlagsKeyEx ||| spdmReqFlagsHandshakeInTheClear

def getCapabilitiesReq : Bytes :=
  [spdmVer, spdmGetCapabilities, 0, 0, 0, 0] ++ leBytes 2 0 ++ pack32 reqFlags ++ leBytes 4 2048 ++
    leBytes 4 2048

/-- `build_negotiate_algorithms`. -/
def negotiateAlgorithmsReq : Bytes :=
  let length := 32 + algorithmTables.length
  let header := [spdmVer, spdmNegotiateAlgorithms, 3, 0]
  let body := leBytes 2 length ++ [0, spdmOpaqueDataFormat1 ||| spdmMultiKeyConn] ++
    leBytes 4 spdmBaseAsymEcdsaP256 ++ leBytes 4 spdmBaseHashSha256
  header ++ (body ++ zeros 12 ++ [0, 0, 0, 0]) ++ algorithmTables

/-- The VERSION check of `run_spdm_handshake`. -/
def checkVersion (ver : Bytes) : Except PyErr Unit :=
  if ver.length < 6 then .ok ()
  else do
    let count := (ver.getD 5 0).toNat
    require (6 + 2 * count ≤ ver.length) .structError
    require ((List.range count).any fun i => field16 ver (6 + i * 2) >>> 8 == 0x13)
      .versionMissing13

/-- The CAPABILITIES checks of `run_spdm_handshake`. -/
def checkCapabilities (caps : Bytes) : Except PyErr Unit := do
  require (12 ≤ caps.length) .structError
  let flags := field32 caps 8
  require (flags &&& spdmRspFlagsCert ≠ 0 ∧ flags &&& spdmRspFlagsChal ≠ 0)
    (.missingCapability .certChal)
  require (flags &&& spdmRspFlagsKeyEx ≠ 0) (.missingCapability .keyEx)
  require (flags &&& spdmRspFlagsEvent ≠ 0) (.missingCapability .event)
  require (flags &&& (spdmRspFlagsMultiKeyNeg ||| spdmRspFlagsMultiKeyOnly) ≠ 0)
    (.missingCapability .multiKey)
  require (flags &&& spdmRspFlagsGetKeyPair ≠ 0 ∧ flags &&& spdmRspFlagsSetKeyPair ≠ 0)
    (.missingCapability .keyPairInfo)

/-- GET_VERSION, GET_CAPABILITIES and NEGOTIATE_ALGORITHMS of `run_spdm_handshake`. -/
def negotiate (E : Device) (d : Draw) (host : Linked) : Except PyErr Linked := do
  let (ver, host) ← exchange E d host getVersionReq spdmVersion true
  checkVersion ver
  let (caps, host) ← exchange E d host getCapabilitiesReq spdmCapabilities true
  checkCapabilities caps
  let (algs, host) ← exchange E d host negotiateAlgorithmsReq spdmAlgorithms true
  require (20 ≤ algs.length) .structError
  .ok host

def getDigestsReq : Bytes := [spdmVer, spdmGetDigests, 0, 0]

def getSlot0Digest (E : Device) (d : Draw) (host : Linked) : Except PyErr (Bytes × Linked) := do
  let (digests, host) ← exchange E d host getDigestsReq spdmDigests false
  require (4 ≤ digests.length) .indexError
  let digest := slice digests 4 36
  let extra := digests.drop 36
  require (extra ≠ []) .digestsMissingFields
  require (2 ≤ extra.length) .indexError
  require (4 ≤ extra.length) .structError
  require (extra.getD 0 0 = 1) (.keyPairIdNotOne (extra.getD 0 0))
  require (extra.getD 1 0 &&& 0x7 = spdmCertModelDevice) (.certModelNotDevice (extra.getD 1 0))
  require (field16 extra 2 &&& spdmKeyUsageKeyEx ≠ 0) .keyUsageMissingKeyEx
  .ok (digest, if host.messageD.isEmpty then { host with messageD := digests } else host)

/-- One request of `get_slot0_certificate`. -/
def getCertificateReq (offset length : UInt16) : Bytes :=
  [spdmVer, spdmGetCertificate, 0, 0] ++ pack16 offset ++ pack16 length

def getCertificate (E : Device) (d : Draw) (host : Linked) (offset length : UInt16) :
    Except PyErr (Bytes × Linked) :=
  exchange E d host (getCertificateReq offset length) spdmCertificate false

/-- CHALLENGE of `run_spdm_handshake`. -/
def challenge (E : Device) (d : Draw) (host : Linked) (nonce : Sized 32) (reqCtx : Sized 8) :
    Except PyErr Linked := do
  let (chal, host) ← exchange E d host ([spdmVer, spdmChallenge, 0x00, 0x00] ++ nonce.1 ++ reqCtx.1)
    spdmChallengeAuth false
  let sig := chal.drop (chal.length - 64)
  let unsigned := chal.take (chal.length - 64)
  require (unsigned.drop (unsigned.length - 8) = reqCtx.1) .requesterContextMismatch
  let m1m2 := E.crypto.sha256 (host.transcript.take (host.transcript.length - 64))
  E.crypto.verifySpdmHash challengeContext m1m2 sig
  .ok host

/-- The dictionary `get_key_pair_info` returns, less what nothing reads. -/
structure KeyPairInfo where
  id : UInt8
  usage : UInt16
  asym : UInt32
  assoc : UInt8
  deriving DecidableEq, Repr

/-- `get_key_pair_info` outside a session. -/
def getKeyPairInfo (E : Device) (d : Draw) (host : Linked) (keyPairId : UInt8) :
    Except PyErr (KeyPairInfo × Linked) := do
  let (rsp, host) ←
    exchange E d host [spdmVer, spdmGetKeyPairInfo, 0, 0, keyPairId] spdmKeyPairInfo false
  require (21 ≤ rsp.length) (.keyPairInfoTooShort rsp.length)
  require (23 ≤ rsp.length) .structError
  let kid := rsp.getD 5 0
  let assoc := rsp.getD 22 0
  require (kid = keyPairId) (.keyPairIdMismatch kid keyPairId)
  require (assoc = 0x01) (.keyPairNotBound assoc)
  .ok (⟨kid, field16 rsp 10, field32 rsp 16, assoc⟩, host)

def setKeyPairInfoChange (E : Device) (d : Draw) (host : Linked) (info : KeyPairInfo) :
    Except PyErr Linked := do
  let (_, host) ← exchange E d host
    ([spdmVer, spdmSetKeyPairInfo, spdmSetKeyPairChange, 0, info.id] ++
      ([0] ++ pack16 info.usage ++ pack32 info.asym ++ [info.assoc])) spdmSetKeyPairInfoAck false
  .ok host

/-- The KEY_EXCHANGE request of `run_key_exchange`. -/
def keyExchangeReq (C : Crypto) (own : Draw) (reqSessionId : UInt16) : Bytes :=
  [spdmVer, spdmKeyExchange, 0, 0] ++ pack16 reqSessionId ++ [spdmEventAllPolicy, 0] ++
    own.nonce.1 ++
    (C.pubXy own.ephemeral).1 ++ leBytes 2 0

/-- The layout checks of `run_key_exchange`: where the signature of a KEY_EXCHANGE_RSP
starts. -/
def signatureOffset (keRsp : Bytes) : Except PyErr Nat := do
  require (40 + 64 + 2 + 64 ≤ keRsp.length) (.keyExchangeRspTooShort keRsp.length)
  require (keRsp.getD 6 0 = 0) (.mutAuthRequested (keRsp.getD 6 0))
  let opaqueLen := leNat (slice keRsp 104 106)
  let sigOff := 106 + opaqueLen
  require (sigOff + 64 ≤ keRsp.length) (.keyExchangeRspTruncated opaqueLen keRsp.length)
  require (keRsp.length = sigOff + 64) (.keyExchangeRspExtra (keRsp.length - sigOff - 64))
  .ok sigOff

/-- `run_key_exchange`. `own` are the requester's draws, `dk` and `df` the responder's
for the two requests. -/
def runKeyExchange (E : Device) (own dk df : Draw) (host : Linked) (certChainHash : Bytes)
    (reqSessionId : UInt16) : Except PyErr (SecuredSession × Linked) := do
  let keReq := keyExchangeReq E.crypto own reqSessionId
  let (keRsp, host) ← exchange E dk host keReq spdmKeyExchangeRsp false
  let sigOff ← signatureOffset keRsp
  let signature := slice keRsp sigOff (sigOff + 64)
  let thPrefix := host.messageA ++ host.messageD ++ certChainHash
  let thForSig := E.crypto.sha256 (thPrefix ++ keReq ++ keRsp.take sigOff)
  E.crypto.verifySpdmHash keyExchangeContext thForSig signature
  let th1 := E.crypto.sha256 (thPrefix ++ keReq ++ keRsp)
  let shared ← E.crypto.dheP256Shared own.ephemeral (slice keRsp 40 104)
  let hk := E.crypto.deriveHandshakeKeys shared th1
  let rspSessionId := leNat (slice keRsp 4 6)
  let sessionId := UInt32.ofNat (rspSessionId <<< 16 ||| reqSessionId.toNat)
  let finishHdr := [spdmVer, spdmFinish, 0x00, 0x00]
  let thFinish := E.crypto.sha256 (thPrefix ++ keReq ++ keRsp ++ finishHdr)
  let finishReq := finishHdr ++ E.crypto.hmacSha256 hk.reqFinished thFinish
  let (finishRsp, host) ← exchange E df host finishReq spdmFinishRsp false
  require (4 + 32 ≤ finishRsp.length) (.finishRspTooShort finishRsp.length)
  let thFinishRsp := E.crypto.sha256 (thPrefix ++ keReq ++ keRsp ++ finishReq ++ finishRsp.take 4)
  require (slice finishRsp 4 36 = E.crypto.hmacSha256 hk.rspFinished thFinishRsp)
    .finishHmacMismatch
  let th2 := E.crypto.sha256 (thPrefix ++ keReq ++ keRsp ++ finishReq ++ finishRsp)
  let ak := E.crypto.deriveApplicationKeys hk.handshakeSecret th2
  .ok ({ sessionId, reqKey := ak.reqKey, reqSalt := ak.reqSalt, rspKey := ak.rspKey,
         rspSalt := ak.rspSalt },
    host)

def endSession (E : Device) (d : Draw) (host : Linked) (keys : SecuredSession) :
    Except PyErr (SecuredSession × Linked) := do
  let (_, keys, host) ←
    exchangeSecured E d host keys [spdmVer, spdmEndSession, 0x00, 0x00] spdmEndSessionAck
  .ok (keys, host)

end Linked

end LinkedsemiZephyr.Spdm
