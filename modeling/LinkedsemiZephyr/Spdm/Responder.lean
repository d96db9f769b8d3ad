import LinkedsemiZephyr.Spdm.MctpPacket
import LinkedsemiZephyr.Spdm.Messages
import LinkedsemiZephyr.Spdm.SecuredSession

/-! `SpdmPythonResponder`: the request handlers, their dispatch and the `run` loop, over
the messages its host reassembles. An exception ends the run, so a step that raises has
no state. -/
namespace LinkedsemiZephyr.Spdm
open Octets

/-- What the responder loads and never changes. -/
structure Device where
  crypto : Crypto
  chain : Bytes

def Device.digest (E : Device) : Bytes := E.crypto.sha256 E.chain

/-- The random draws one request may use. -/
structure Draw where
  ephemeral : Nat
  nonce : Sized 32
  ecdsa : Nat

/-- `self.ke_state`. -/
structure KeState where
  req : Bytes
  rsp : Bytes
  handshakeSecret : Bytes
  reqFinished : Bytes
  rspFinished : Bytes
  sessionId : UInt32
  deriving DecidableEq, Repr

/-- The attributes the methods write; `lastTag` is its host's. -/
structure SpdmPythonResponder where
  lastTag : UInt8 := 0
  messageA : Bytes := []
  messageD : Bytes := []
  transcript : Bytes := []
  keys : Option SecuredSession := none
  keState : Option KeState := none
  assoc : UInt8 := 0x01
  usage : UInt16 := spdmKeyUsageKeyEx ||| spdmKeyUsageChallenge
  asym : UInt32 := spdmKeyPairAsymEcc256
  multiKey : Bool := false
  reqFlags : UInt32 := 0
  deriving DecidableEq, Repr

namespace SpdmPythonResponder

def rspFlags : UInt32 :=
  spdmRspFlagsCert ||| spdmRspFlagsChal ||| spdmRspFlagsKeyEx ||| spdmReqFlagsEncrypt |||
    spdmReqFlagsMac ||| spdmReqFlagsHandshakeInTheClear ||| spdmRspFlagsEvent |||
    spdmRspFlagsMultiKeyNeg ||| spdmRspFlagsGetKeyPair ||| spdmRspFlagsSetKeyPair

/-- `self.event_group`. -/
def eventGroup : Bytes :=
  [0, 0] ++ leBytes 2 2 ++ leBytes 2 1 ++ leBytes 4 0 ++ leBytes 2 1 ++ leBytes 2 0 ++
    leBytes 2 4 ++ leBytes 2 0

/-- `self.transcript.extend(req); self.transcript.extend(rsp)`. -/
def record (st : SpdmPythonResponder) (req rsp : Bytes) : SpdmPythonResponder :=
  { st with transcript := st.transcript ++ req ++ rsp }

def recordA (st : SpdmPythonResponder) (req rsp : Bytes) : SpdmPythonResponder :=
  { st with messageA := st.messageA ++ req ++ rsp }

abbrev Handled := Except PyErr (Bytes × SpdmPythonResponder)

def versionRsp : Bytes := [0x10, spdmVersion, 0, 0, 0, 1] ++ leBytes 2 0x1300

def handleVersion (st : SpdmPythonResponder) (req : Bytes) : Handled :=
  .ok (versionRsp, (st.recordA req versionRsp).record req versionRsp)

def capsRsp : Bytes :=
  [spdmVer, spdmCapabilities, 0, 0, 0, 0] ++ leBytes 2 0 ++ pack32 rspFlags ++ leBytes 4 2048 ++
    leBytes 4 2048

def handleCaps (st : SpdmPythonResponder) (req : Bytes) : Handled :=
  let st := if 12 ≤ req.length then { st with reqFlags := field32 req 8 } else st
  .ok (capsRsp, (st.recordA req capsRsp).record req capsRsp)

def algsRsp (other : UInt8) : Bytes :=
  let length := 36 + algorithmTables.length
  let header := [spdmVer, spdmAlgorithms, 3, 0]
  let body := leBytes 2 length ++ [0, other] ++ leBytes 4 0 ++ leBytes 4 spdmBaseAsymEcdsaP256 ++
    leBytes 4 spdmBaseHashSha256
  header ++ (body ++ zeros 11 ++ [0, 0, 0] ++ leBytes 2 0) ++ algorithmTables

def handleAlgs (st : SpdmPythonResponder) (req : Bytes) : Handled :=
  let multiKey := if 7 < req.length && req.getD 7 0 &&& spdmMultiKeyConn != 0 then
    true else st.multiKey
  let st := { st with multiKey }
  let other := if st.reqFlags &&& spdmReqFlagsMultiKeyNeg != 0 then
    spdmOpaqueDataFormat1 ||| spdmMultiKeyConn else spdmOpaqueDataFormat1
  .ok (algsRsp other, (st.recordA req (algsRsp other)).record req (algsRsp other))

/-- The DIGESTS response; the last four bytes only in a multi-key connection. -/
def digestsRsp (digest : Bytes) (multiKey : Bool) (usage : UInt16) : Bytes :=
  [spdmVer, spdmDigests, 0x01, 0x01] ++ digest ++
    if multiKey then [1, spdmCertModelDevice] ++ pack16 usage else []

def handleDigests (E : Device) (st : SpdmPythonResponder) (req : Bytes) : Handled :=
  let rsp := digestsRsp E.digest st.multiKey st.usage
  let st := if st.messageD.isEmpty then { st with messageD := rsp } else st
  .ok (rsp, st.record req rsp)

def handleCertificate (E : Device) (st : SpdmPythonResponder) (req : Bytes) : Handled :=
  if req.length < 8 then .error .structError
  else
    let offset := leNat (slice req 4 6)
    let length := min (leNat (slice req 6 8)) certPortion
    let portion := slice E.chain offset (offset + length)
    let remain := E.chain.length - offset - portion.length
    let certInfo := if st.multiKey then spdmCertModelDevice else 0
    if 65536 ≤ remain then .error .structError
    else
      let rsp := [spdmVer, spdmCertificate, 0, certInfo] ++ leBytes 2 portion.length ++
        leBytes 2 remain ++ portion
      .ok (rsp, st.record req rsp)

def challengeUnsigned (digest : Bytes) (nonce : Sized 32) (req : Bytes) : Bytes :=
  let reqCtx := if 44 ≤ req.length then slice req 36 44 else zeros 8
  [spdmVer, spdmChallengeAuth, 0x00, 0x01] ++ digest ++ nonce.1 ++ leBytes 2 0 ++ reqCtx

def handleChallenge (E : Device) (d : Draw) (st : SpdmPythonResponder) (req : Bytes) : Handled :=
  let unsigned := challengeUnsigned E.digest d.nonce req
  let th := E.crypto.sha256 (st.transcript ++ req ++ unsigned)
  let rsp := unsigned ++ (E.crypto.signSpdmHash d.ecdsa challengeContext th).1
  .ok (rsp, st.record req rsp)

/-- The DER algorithm identifier of a P-256 public key. -/
def publicKeyInfo : Bytes :=
  [0x30, 0x13, 0x06, 0x07, 0x2A, 0x86, 0x48, 0xCE, 0x3D, 0x02, 0x01,
    0x06, 0x08, 0x2A, 0x86, 0x48, 0xCE, 0x3D, 0x03, 0x01, 0x07]

def handleKeyPairInfo (st : SpdmPythonResponder) (req : Bytes) : Handled :=
  let kid := if 4 < req.length then req.getD 4 0 else 1
  let hdr := [spdmVer, spdmKeyPairInfo, 0, 0] ++ ([1, kid] ++ leBytes 2 0x000C ++ pack16 st.usage ++
    pack16 st.usage ++ pack32 spdmKeyPairAsymEcc256 ++ pack32 st.asym ++
    leBytes 2 publicKeyInfo.length ++ [st.assoc])
  .ok (hdr ++ publicKeyInfo, st)

def setKeyPairAck : Bytes := [spdmVer, spdmSetKeyPairInfoAck, 0, 0]

def handleSetKeyPair (st : SpdmPythonResponder) (req : Bytes) : Handled :=
  if 14 ≤ req.length && req.getD 2 0 == spdmSetKeyPairChange then
    let usage := field16 req 6
    let asym := field32 req 8
    .ok (setKeyPairAck, { st with usage := if usage != 0 then usage else st.usage
                                  asym := if asym != 0 then asym else st.asym
                                  assoc := req.getD 12 0 })
  else .ok (setKeyPairAck, st)

/-- `th_prefix`, built afresh by every handler that uses it. -/
def thPrefix (E : Device) (st : SpdmPythonResponder) : Bytes :=
  st.messageA ++ st.messageD ++ E.digest

def rspSessionId : Nat := 0xFF00

/-- The KEY_EXCHANGE_RSP up to its signature. -/
def keyExchangeUnsigned (C : Crypto) (d : Draw) : Bytes :=
  let header := [spdmVer, spdmKeyExchangeRsp, 0, 0] ++ leBytes 2 rspSessionId ++ [0, 0]
  header ++ d.nonce.1 ++ (C.pubXy d.ephemeral).1 ++ leBytes 2 0

def sessionIdOf (reqSessionId : Nat) : UInt32 := UInt32.ofNat (rspSessionId <<< 16 ||| reqSessionId)

def keyExchangeRsp (E : Device) (d : Draw) (st : SpdmPythonResponder) (req : Bytes) : Bytes :=
  let unsigned := keyExchangeUnsigned E.crypto d
  let thSig := E.crypto.sha256 (st.thPrefix E ++ req ++ unsigned)
  unsigned ++ (E.crypto.signSpdmHash d.ecdsa keyExchangeContext thSig).1

/-- The `ke_state` a KEY_EXCHANGE leaves, from the ECDHE secret. -/
def keyExchangeState (E : Device) (d : Draw) (st : SpdmPythonResponder) (req shared : Bytes) :
    KeState :=
  let rsp := st.keyExchangeRsp E d req
  let th1 := E.crypto.sha256 (st.thPrefix E ++ req ++ rsp)
  let hk := E.crypto.deriveHandshakeKeys shared th1
  { req, rsp
    handshakeSecret := hk.handshakeSecret
    reqFinished := hk.reqFinished
    rspFinished := hk.rspFinished
    sessionId := sessionIdOf (leNat (slice req 4 6)) }

def handleKeyExchange (E : Device) (d : Draw) (st : SpdmPythonResponder) (req : Bytes) : Handled :=
  if req.length < 6 then .error .structError
  else
    match E.crypto.dheP256Shared d.ephemeral (slice req 40 104) with
    | .error e => .error e
    | .ok shared =>
      .ok (st.keyExchangeRsp E d req,
        { st with keState := some (st.keyExchangeState E d req shared) })

/-- The `verify_data` a FINISH must carry. -/
def finishExpect (E : Device) (st : SpdmPythonResponder) (ke : KeState) (req : Bytes) : Bytes :=
  E.crypto.hmacSha256 ke.reqFinished
    (E.crypto.sha256 (st.thPrefix E ++ ke.req ++ ke.rsp ++ req.take 4))

def finishRspHdr : Bytes := [spdmVer, spdmFinishRsp, 0, 0]

def finishRsp (E : Device) (st : SpdmPythonResponder) (ke : KeState) (req : Bytes) : Bytes :=
  let thRsp := E.crypto.sha256 (st.thPrefix E ++ ke.req ++ ke.rsp ++ req ++ finishRspHdr)
  finishRspHdr ++ E.crypto.hmacSha256 ke.rspFinished thRsp

/-- The session a FINISH establishes. -/
def finishSession (E : Device) (st : SpdmPythonResponder) (ke : KeState) (req : Bytes) :
    SecuredSession :=
  let th2 := E.crypto.sha256 (st.thPrefix E ++ ke.req ++ ke.rsp ++ req ++ st.finishRsp E ke req)
  let ak := E.crypto.deriveApplicationKeys ke.handshakeSecret th2
  { sessionId := ke.sessionId, reqKey := ak.reqKey, reqSalt := ak.reqSalt
    rspKey := ak.rspKey, rspSalt := ak.rspSalt, role := .responder }

def handleFinish (E : Device) (st : SpdmPythonResponder) (req : Bytes) : Handled :=
  match st.keState with
  | none => .ok (spdmError 0x01 0, st)
  | some ke =>
    if slice req 4 36 ≠ st.finishExpect E ke req then .ok (spdmError 0x01 0, st)
    else .ok (st.finishRsp E ke req, { st with keys := some (st.finishSession E ke req) })

def handleVendor (st : SpdmPythonResponder) (req : Bytes) : Handled :=
  match parseVendorPayload req with
  | .error e => .error e
  | .ok payload =>
    let pong := if payload = ascii "1111" then ascii "2222" else []
    .ok (vendorDefined spdmVendorDefinedResponse pong, st)

def handleEvents (st : SpdmPythonResponder) (req : Bytes) : Handled :=
  let code := req.getD 1 0
  if code = spdmGetSupportedEventTypes then
    .ok ([spdmVer, spdmSupportedEventTypes, 1, 0] ++ leBytes 4 eventGroup.length ++ eventGroup, st)
  else if code = spdmSubscribeEventTypes then
    if req.length < 3 then .error .indexError
    else .ok ([spdmVer, spdmSubscribeEventTypesAck, 0, 0], st)
  else .ok (spdmError 0x05 code, st)

def endSessionAck : Bytes := [spdmVer, spdmEndSessionAck, 0, 0]

/-- The values of the `handlers` table. -/
inductive Handler where
  | version | caps | algs | digests | certificate | challenge | keyPairInfo | setKeyPair
  | keyExchange | finish | vendor | events | endSession
  deriving DecidableEq, Repr

def Handler.call (E : Device) (d : Draw) (st : SpdmPythonResponder) (req : Bytes) :
  Handler → Handled
  | .version => st.handleVersion req
  | .caps => st.handleCaps req
  | .algs => st.handleAlgs req
  | .digests => st.handleDigests E req
  | .certificate => st.handleCertificate E req
  | .challenge => st.handleChallenge E d req
  | .keyPairInfo => st.handleKeyPairInfo req
  | .setKeyPair => st.handleSetKeyPair req
  | .keyExchange => st.handleKeyExchange E d req
  | .finish => st.handleFinish E req
  | .vendor => st.handleVendor req
  | .events => st.handleEvents req
  | .endSession => .ok (endSessionAck, st)

def handlers : List (UInt8 × Handler) :=
  [(spdmGetVersion, .version), (spdmGetCapabilities, .caps), (spdmNegotiateAlgorithms, .algs),
    (spdmGetDigests, .digests), (spdmGetCertificate, .certificate), (spdmChallenge, .challenge),
    (spdmGetKeyPairInfo, .keyPairInfo), (spdmSetKeyPairInfo, .setKeyPair),
    (spdmKeyExchange, .keyExchange), (spdmFinish, .finish), (spdmVendorDefinedRequest, .vendor),
    (spdmGetSupportedEventTypes, .events), (spdmSubscribeEventTypes, .events),
    (spdmEndSession, .endSession)]

/-- `handlers.get(req[1])`. -/
def handlerOf (req : Bytes) : Option Handler := handlers.lookup (req.getD 1 0)

def dispatch (E : Device) (d : Draw) (st : SpdmPythonResponder) (req : Bytes) : Handled :=
  if req.length < 2 then .ok (spdmError 0x01 0, st)
  else match handlerOf req with
    | none => .ok (spdmError 0x05 (req.getD 1 0), st)
    | some fn => fn.call E d st req

/-- `self.host.usb.send_data(build_frame(body))`. -/
def sendFrame (st : SpdmPythonResponder) (body : Bytes) : Handled :=
  match buildFrame body with
  | .error e => .error e
  | .ok f => .ok (f, st)

/-- `reply`: the frame that goes to USB. -/
def reply (E : Device) (st : SpdmPythonResponder) (spdm : Bytes) (secured : Bool) : Handled :=
  if secured then
    match st.keys with
    | none => .error .securedReplyWithoutSession
    | some keys =>
      match keys.encode E.crypto spdm with
      | .error e _ => .error e
      | .ok inner keys =>
        sendFrame { st with keys := some keys }
          (buildMctp (mctpTypeSecured :: inner) st.lastTag false)
  else st.sendFrame (buildMctp (mctpTypeSpdm :: spdm) st.lastTag false)

/-- `recv_request` on a reassembled message. -/
def recvRequest (E : Device) (st : SpdmPythonResponder) (msg : Bytes) :
    Except PyErr ((Bytes × Bool) × SpdmPythonResponder) :=
  match msg with
  | [] => .error .indexError
  | b :: body =>
    let mtype := b &&& 0x7F
    if mtype = mctpTypeSecured then
      match st.keys with
      | none => .error .securedRequestBeforeSession
      | some keys =>
        match keys.decode E.crypto body with
        | .error e _ => .error e
        | .ok req keys => .ok ((req, true), { st with keys := some keys })
    else if mtype ≠ mctpTypeSpdm then .error (.unexpectedRequestType mtype)
    else .ok ((body, false), st)

/-- What one pass of the loop received and answered. -/
structure Served where
  request : Bytes
  secured : Bool
  response : Bytes
  frame : Bytes
  deriving DecidableEq, Repr

/-- The loop body of `run` for a message with a tag: END_SESSION's effect is applied to
whatever request has its code, once the reply is out. -/
def serve (E : Device) (d : Draw) (st : SpdmPythonResponder) (msg : Bytes) (tag : UInt8) :
    Except PyErr (Served × SpdmPythonResponder) :=
  match recvRequest E { st with lastTag := tag } msg with
  | .error e => .error e
  | .ok ((request, secured), st) =>
    match dispatch E d st request with
    | .error e => .error e
    | .ok (response, st) =>
      match reply E st response secured with
      | .error e => .error e
      | .ok (frame, st) =>
        if request.length < 2 then .error .indexError
        else
          .ok (⟨request, secured, response, frame⟩,
            if request.getD 1 0 = spdmEndSession then { st with keys := none, keState := none }
            else st)

/-- What `recv_mctp_payload` brings: a message with its tag, or a timeout that finds the
first-request deadline passed or not. -/
inductive Incoming where
  | message (msg : Bytes) (tag : UInt8)
  | timeout (expired : Bool)
  deriving DecidableEq, Repr

/-- `run` between two receives. -/
structure Loop where
  responder : SpdmPythonResponder
  first : Bool := true
  deriving DecidableEq, Repr

/-- One receive of `run` and what follows it. -/
def Loop.step (E : Device) (s : Loop) (x : Draw × Incoming) : Except PyErr Loop :=
  match x.2 with
  | .timeout expired => if s.first && !expired then .ok s else .error (.requestTimeout s.first)
  | .message msg tag =>
    match s.responder.serve E x.1 msg tag with
    | .error e => .error e
    | .ok (served, st) => .ok ⟨st, served.request.getD 1 0 == spdmEndSession⟩

def Loop.run (E : Device) (s : Loop) (xs : List (Draw × Incoming)) : Except PyErr Loop :=
  xs.foldlM (Loop.step E) s

end SpdmPythonResponder

end LinkedsemiZephyr.Spdm
