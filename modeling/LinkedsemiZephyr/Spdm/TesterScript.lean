import LinkedsemiZephyr.Spdm.CertificateChain
import LinkedsemiZephyr.Spdm.KeyPairInfo
import LinkedsemiZephyr.Spdm.Reconnect
import LinkedsemiZephyr.Spdm.Survival

/-! `run_spdm_handshake` from its first message to its last, against the responder of the same
file: every exchange has an answer that passes the script's checks. -/
namespace LinkedsemiZephyr.Spdm
open Octets PartialRun SpdmPythonResponder

/-- What ends the script: an exception from below, or a check of its own. -/
inductive ScriptErr where
  | raised (e : PyErr)
  | caRejected
  | slotBindingLost
  | supportedEventTypesTooShort (length : Nat)
  | emptyEventList
  | pongMismatch (payload : Bytes)
  | cachedDigestChanged
  deriving DecidableEq, Repr

/-- The draws of both sides in one `run_key_exchange`. -/
structure HandshakeDraws where
  own : Draw
  keyExchange : Draw
  finish : Draw

/-- The draws of a script; most requests use none. -/
structure ScriptDraws where
  idle : Draw
  nonce : Sized 32
  reqCtx : Sized 8
  challenge : Draw
  first : HandshakeDraws
  second : HandshakeDraws

namespace Linked

def raised {α : Type} : Except PyErr α → Except ScriptErr α := Except.mapError .raised

def check (p : Prop) [Decidable p] (e : ScriptErr) : Except ScriptErr Unit :=
  if p then .ok () else .error e

/-- A session in use: its object and the host. -/
abbrev InUse := SecuredSession × Linked

def getSupportedEventTypesReq : Bytes := [spdmVer, spdmGetSupportedEventTypes, 0, 0]

def subscribeReq (groupCount : UInt8) (listLen : Nat) (eventList : Bytes) : Bytes :=
  [spdmVer, spdmSubscribeEventTypes, groupCount, 0] ++ leBytes 4 listLen ++ eventList

def runEventSubscribe (E : Device) (d : Draw) (s : InUse) : Except ScriptErr InUse := do
  let (rsp, keys, host) ←
    raised (exchangeSecured E d s.2 s.1 getSupportedEventTypesReq spdmSupportedEventTypes)
  check (8 ≤ rsp.length) (.supportedEventTypesTooShort rsp.length)
  let groupCount := rsp.getD 2 0
  let listLen := leNat (slice rsp 4 8)
  let eventList := slice rsp 8 (8 + listLen)
  check (groupCount ≠ 0 ∧ listLen ≠ 0) .emptyEventList
  let (_, keys, host) ←
    raised (exchangeSecured E d host keys (subscribeReq groupCount listLen eventList)
      spdmSubscribeEventTypesAck)
  .ok (keys, host)

def unsubscribeReq : Bytes := [spdmVer, spdmSubscribeEventTypes, 0, 0]

def unsubscribeEvents (E : Device) (d : Draw) (s : InUse) : Except ScriptErr InUse := do
  let (_, keys, host) ←
    raised (exchangeSecured E d s.2 s.1 unsubscribeReq spdmSubscribeEventTypesAck)
  .ok (keys, host)

/-- One round of `run_session_ping`. -/
def sessionPing (E : Device) (d : Draw) (s : InUse) : Except ScriptErr InUse := do
  let (rsp, keys, host) ← raised (exchangeSecured E d s.2 s.1
    (vendorDefined spdmVendorDefinedRequest (ascii "1111")) spdmVendorDefinedResponse)
  let payload ← raised (parseVendorPayload rsp)
  check (payload = ascii "2222") (.pongMismatch payload)
  .ok (keys, host)

def runSessionPing (E : Device) (d : Draw) : Nat → InUse → Except ScriptErr InUse
  | 0, s => .ok s
  | rounds + 1, s => do
    let s ← sessionPing E d s
    runSessionPing E d rounds s

/-- CHALLENGE and the key-pair requests of `run_spdm_handshake`. -/
def challengeAndKeyPair (E : Device) (x : ScriptDraws) (host : Linked) :
    Except ScriptErr Linked := do
  let host ← raised (challenge E x.challenge host x.nonce x.reqCtx)
  let (info, host) ← raised (getKeyPairInfo E x.idle host 1)
  let host ← raised (setKeyPairInfoChange E x.idle host info)
  let (info2, host) ← raised (getKeyPairInfo E x.idle host 1)
  check (info2.assoc = info.assoc) .slotBindingLost
  .ok host

/-- The first session of `run_spdm_handshake`. -/
def firstSession (E : Device) (x : ScriptDraws) (digest : Bytes) (host : Linked) :
    Except ScriptErr Linked := do
  let s ← raised
    (runKeyExchange E x.first.own x.first.keyExchange x.first.finish host digest 0x00FF)
  let s ← runEventSubscribe E x.idle s
  let s ← runSessionPing E x.idle 10 s
  let (keys, host) ← unsubscribeEvents E x.idle s
  let (_, host) ← raised (endSession E x.idle host keys)
  .ok host

/-- The second one, over the certificate chain of the first. -/
def cachedSession (E : Device) (x : ScriptDraws) (digest : Bytes) (host : Linked) :
    Except ScriptErr Linked := do
  let (digest2, host) ← raised (getSlot0Digest E x.idle host)
  check (digest2 = digest) .cachedDigestChanged
  let s ← raised
    (runKeyExchange E x.second.own x.second.keyExchange x.second.finish host digest2 0x11FF)
  let (keys, host) ← runSessionPing E x.idle 1 s
  let (_, host) ← raised (endSession E x.idle host keys)
  .ok host

/-- `run_spdm_handshake`; `ca` tells which leaf certificates load and verify under the CA's
key. Only the certificate loop can run out of fuel. -/
def runSpdmHandshake (E : Device) (ca : Bytes → Bool) (x : ScriptDraws) (fuel : Nat)
    (host : Linked) :
    Option (Except ScriptErr Linked) :=
  match setup E x.idle host with
  | .error e => some (.error (.raised e))
  | .ok t =>
    (getSlot0Certificate E x.idle fuel t.host t.digest).map fun collected => do
      let ((_, certs), host) ← raised collected
      check (ca (certs.getLastD []) = true) .caRejected
      let host ← challengeAndKeyPair E x host
      let host ← firstSession E x t.digest host
      cachedSession E x t.digest host

end Linked

namespace SpdmPythonResponder

variable {E : Device} {d : Draw} {st st' : SpdmPythonResponder} {req rsp : Bytes}

/-- The key pair is as it was, and a multi-key connection stays one. -/
structure KeepsKeyPair (st st' : SpdmPythonResponder) : Prop where
  usage : st'.usage = st.usage
  assoc : st'.assoc = st.assoc
  multiKey : st.multiKey = true → st'.multiKey = true

theorem KeepsKeyPair.refl (st : SpdmPythonResponder) : KeepsKeyPair st st := ⟨rfl, rfl, id⟩

theorem KeepsKeyPair.trans {st'' : SpdmPythonResponder} (h : KeepsKeyPair st st')
    (h' : KeepsKeyPair st' st'') :
    KeepsKeyPair st st'' :=
  ⟨h'.usage.trans h.usage, h'.assoc.trans h.assoc, h'.multiKey ∘ h.multiKey⟩

theorem closeSession_keepsKeyPair (st : SpdmPythonResponder) (req : Bytes) :
    KeepsKeyPair st (st.closeSession req) := by
  unfold closeSession
  split <;> exact ⟨rfl, rfl, id⟩

theorem call_keepsKeyPair {fn : Handler} (hset : fn ≠ .setKeyPair)
    (h : fn.call E d st req = .ok (rsp, st')) :
    KeepsKeyPair st st' := by
  cases fn with
  | setKeyPair => exact absurd rfl hset
  | version => cases h; exact ⟨rfl, rfl, id⟩
  | caps =>
      cases h
      simp only [record, recordA]
      split <;> exact ⟨rfl, rfl, id⟩
  | algs =>
      cases h
      refine ⟨rfl, rfl, fun hm => ?_⟩
      simp only [record, recordA, hm, ite_self]
  | digests =>
      cases h
      simp only [record]
      split <;> exact ⟨rfl, rfl, id⟩
  | certificate =>
      simp only [Handler.call, handleCertificate] at h
      split at h
      · cases h
      · split at h
        · cases h
        · cases h; exact ⟨rfl, rfl, id⟩
  | challenge => cases h; exact ⟨rfl, rfl, id⟩
  | keyPairInfo => cases h; exact .refl st
  | keyExchange =>
      obtain ⟨shared, -, -, rfl⟩ := handleKeyExchange_ok h
      exact ⟨rfl, rfl, id⟩
  | finish =>
      by_cases ha : st.FinishAccepted E req
      · obtain ⟨ke, hk, he⟩ := ha
        rw [Handler.call, handleFinish_accepted hk he] at h
        cases h
        exact ⟨rfl, rfl, id⟩
      · rw [Handler.call, handleFinish_rejected ha] at h
        cases h
        exact .refl st
  | vendor =>
      simp only [Handler.call, handleVendor] at h
      split at h
      · cases h
      · cases h; exact .refl st
  | events =>
      simp only [Handler.call, handleEvents] at h
      split at h
      · cases h; exact .refl st
      · split at h
        · split at h
          · cases h
          · cases h; exact .refl st
        · cases h; exact .refl st
  | endSession => cases h; exact .refl st

theorem dispatch_keepsKeyPair (hset : handlerOf req ≠ some .setKeyPair)
    (h : st.dispatch E d req = .ok (rsp, st')) :
    KeepsKeyPair st st' := by
  rcases dispatch_cases h with ⟨rfl, -⟩ | ⟨fn, hfn, h⟩
  · exact .refl st'
  · refine call_keepsKeyPair (fun heq => hset ?_) h
    rw [hfn, heq]

/-- A multi-key connection to a key pair that is bound and may exchange keys. -/
structure Bound (st : SpdmPythonResponder) : Prop where
  multiKey : st.multiKey = true
  usage : st.usage &&& spdmKeyUsageKeyEx ≠ 0
  assoc : st.assoc = 0x01

theorem KeepsKeyPair.bound (h : KeepsKeyPair st st') (hb : Bound st) : Bound st' :=
  ⟨h.multiKey hb.multiKey, h.usage ▸ hb.usage, h.assoc.trans hb.assoc⟩

end SpdmPythonResponder

namespace Linked

variable {E : Device} {d : Draw} {host host' : Linked} {request rsp : Bytes} {code : UInt8}
  {recordA : Bool}

theorem exchange_keepsKeyPair (hset : handlerOf request ≠ some .setKeyPair)
    (h : exchange E d host request code recordA = .ok (rsp, host')) :
    KeepsKeyPair host.usb host'.usb := by
  obtain ⟨tag, st, hd, -, husb, -⟩ := exchange_ok h
  have hst : KeepsKeyPair { host.usb with lastTag := tag } st := dispatch_keepsKeyPair hset hd
  rw [husb]
  exact KeepsKeyPair.trans ⟨hst.usage, hst.assoc, hst.multiKey⟩
    (closeSession_keepsKeyPair st request)

theorem negotiate_keepsKeyPair (h : negotiate E d host = .ok host') :
    KeepsKeyPair host.usb host'.usb := by
  unfold negotiate at h
  obtain ⟨⟨ver, host₁⟩, h₁, h⟩ := of_bind_ok h
  obtain ⟨-, -, h⟩ := of_bind_ok h
  obtain ⟨⟨caps, host₂⟩, h₂, h⟩ := of_bind_ok h
  obtain ⟨-, -, h⟩ := of_bind_ok h
  obtain ⟨⟨algs, host₃⟩, h₃, h⟩ := of_bind_ok h
  obtain ⟨-, -, h⟩ := of_bind_ok h
  cases h
  exact (exchange_keepsKeyPair (by decide) h₁).trans
    ((exchange_keepsKeyPair (by decide) h₂).trans (exchange_keepsKeyPair (by decide) h₃))

theorem getSlot0Digest_keepsKeyPair {digest : Bytes}
    (h : getSlot0Digest E d host = .ok (digest, host')) :
    KeepsKeyPair host.usb host'.usb := by
  unfold getSlot0Digest at h
  obtain ⟨⟨rsp, host₁⟩, hx, h⟩ := of_bind_ok h
  obtain ⟨-, -, h⟩ := of_bind_ok h
  obtain ⟨-, -, h⟩ := of_bind_ok h
  obtain ⟨-, -, h⟩ := of_bind_ok h
  obtain ⟨-, -, h⟩ := of_bind_ok h
  obtain ⟨-, -, h⟩ := of_bind_ok h
  obtain ⟨-, -, h⟩ := of_bind_ok h
  obtain ⟨-, -, h⟩ := of_bind_ok h
  cases h
  have hkeeps := exchange_keepsKeyPair (by decide) hx
  split <;> exact hkeeps

/-- Between two messages of the script. -/
structure Ready (host : Linked) : Prop where
  inStep : InStep host
  bound : Bound host.usb

theorem Ready.exchange (hr : Ready host) (fn : Handler) (hfn : handlerOf request = some fn)
    (hmem : fn ∉ [Handler.version, .caps, .algs]) (hset : fn ≠ .setKeyPair)
    (h : Linked.exchange E d host request code false = .ok (rsp, host')) : Ready host' := by
  have hkeeps := exchange_keepsKeyPair (fun heq => hset (Option.some.inj (hfn.symm.trans heq))) h
  exact ⟨hr.inStep.exchange (not_negotiating fn hfn hmem) h, hkeeps.bound hr.bound⟩

/-! ### Up to the key exchange -/

/-- GET_VERSION to GET_DIGESTS against a responder nobody has negotiated with. -/
theorem setup_ready (hl : E.crypto.FixedLengths) (d : Draw) {st : SpdmPythonResponder}
    (hblank : st.Blank) (hu : st.Untouched) (ha : st.assoc = 0x01) :
    ∃ t, setup E d { usb := st } = .ok t ∧ Ready t.host ∧ t.digest = E.digest ∧
      t.host.transcript = t.host.usb.transcript := by
  obtain ⟨hA, hD, -, -⟩ := hblank hu.1
  obtain ⟨host₁, h₁, hn⟩ := negotiate_ok E d { usb := st }
  have husage : host₁.usb.usage &&& spdmKeyUsageKeyEx ≠ 0 := by
    rw [hn.usage]
    change st.usage &&& spdmKeyUsageKeyEx ≠ 0
    rw [hu.2]
    decide
  have hb : Bound host₁.usb := ⟨hn.multiKey, husage, (negotiate_keepsKeyPair h₁).assoc.trans ha⟩
  obtain ⟨host₂, h₂, hs, htr, hutr⟩ := getSlot0Digest_ok (d := d) hl hn.multiKey husage hn.messageD
    (hn.usbMessageD.trans hD)
    (by rw [hn.messageA, hn.usbMessageA]; exact congrArg (· ++ negotiated) hA.symm)
  refine ⟨⟨host₂, E.digest⟩, ?_, ⟨hs, (getSlot0Digest_keepsKeyPair h₂).bound hb⟩, rfl, ?_⟩
  · rw [setup, h₁, ok_bind, h₂, ok_bind]
  · rw [htr, hutr, hn.transcript, hn.usbTranscript]
    exact congrArg (· ++ negotiated ++ getDigestsReq ++ _) hu.1.symm

/-- The certificate loop leaves the testers ready, with level transcripts. -/
theorem certificateLoop_ready {fuel offset : Nat} {chain chain' : Bytes} (hr : Ready host)
    (htr : host.transcript = host.usb.transcript)
    (h : certificateLoop E d fuel host chain offset = some (.ok (chain', host'))) :
    Ready host' ∧ host'.transcript = host'.usb.transcript := by
  induction fuel generalizing host chain offset with
  | zero => cases h
  | succ fuel ih =>
      unfold certificateLoop at h
      split at h
      · cases h
      · split at h
        · cases h
        · next rsp host₁ hx =>
            have hr₁ : Ready host₁ := hr.exchange .certificate rfl (by decide) (by decide) hx
            have htr₁ := certificate_transcript htr hx
            split at h
            · cases h
            · extract_lets portion remain chain₁ at h
              split at h
              · obtain ⟨-, rfl⟩ := Prod.mk.inj (Except.ok.inj (Option.some.inj h))
                exact ⟨hr₁, htr₁⟩
              · exact ih hr₁ htr₁ h

theorem getSlot0Certificate_ready {fuel : Nat} {digest : Bytes} {found : Bytes × List Bytes}
    (hr : Ready host) (htr : host.transcript = host.usb.transcript)
    (h : getSlot0Certificate E d fuel host digest = some (.ok (found, host'))) :
    Ready host' ∧ host'.transcript = host'.usb.transcript := by
  unfold getSlot0Certificate at h
  obtain ⟨collected, hloop, h⟩ := Option.map_eq_some_iff.mp h
  obtain ⟨⟨chain, host₁⟩, rfl, h⟩ := of_bind_ok h
  obtain ⟨certs, -, h⟩ := of_bind_ok (x := checkChain E.crypto digest chain) h
  cases h
  exact certificateLoop_ready hr htr hloop

theorem Ready.challenge {nonce : Sized 32} {reqCtx : Sized 8} (hr : Ready host)
    (h : Linked.challenge E d host nonce reqCtx = .ok host') : Ready host' := by
  unfold Linked.challenge at h
  obtain ⟨⟨chal, host₁⟩, hx, h⟩ := of_bind_ok h
  have hr₁ := hr.exchange .challenge rfl (by decide) (by decide) hx
  obtain ⟨-, -, h⟩ := of_bind_ok h
  obtain ⟨-, -, h⟩ := of_bind_ok h
  cases h
  exact hr₁

theorem getKeyPairInfo_completes (d : Draw) (hr : Ready host) :
    ∃ host', getKeyPairInfo E d host 1 = .ok (⟨1, host.usb.usage, host.usb.asym, 0x01⟩, host') ∧
      Ready host' := by
  have hreport := unpackKeyPairInfo_rsp host.usb
  unfold unpackKeyPairInfo at hreport
  split at hreport
  · cases hreport
  · next hlong =>
      obtain ⟨husage, hasym, hassoc⟩ := KeyPairState.mk.inj (Except.ok.inj hreport)
      have hsize : host.usb.keyPairInfoRsp.length ≤ 246 := by
        simp only [keyPairInfoRsp, List.length_append, length_leBytes, length_pack16, length_pack32,
          List.length_cons, List.length_nil, publicKeyInfo]
        decide
      obtain ⟨tag, host', hx, -⟩ :=
        exchange_answered E d host (getKeyPairInfoReq 1) host.usb.keyPairInfoRsp
          spdmKeyPairInfo false (by decide) (by decide) (by decide)
          (fun tag => dispatch_get E d { host.usb with lastTag := tag }) hsize
          (by rw [expectCode, if_neg (by omega)]; rfl)
      refine ⟨host', ?_, hr.exchange .keyPairInfo rfl (by decide) (by decide) hx⟩
      have hkid : host.usb.keyPairInfoRsp.getD 5 0 = 1 := rfl
      rw [getKeyPairInfo, ← getKeyPairInfoReq, hx, ok_bind]
      simp only [hkid, hassoc, hr.bound.assoc, husage, hasym]
      rw [require_ok (by omega), ok_bind, require_ok (by omega), ok_bind,
        require_ok trivial, ok_bind, require_ok trivial, ok_bind]

theorem setKeyPairInfoChange_completes (d : Draw) (hr : Ready host) (usage : UInt16) (asym : UInt32)
    (assoc : UInt8) :
    ∃ host', setKeyPairInfoChange E d host ⟨1, usage, asym, assoc⟩ = .ok host' ∧ Ready host' := by
  have hlen : (setKeyPairInfoChangeReq ⟨1, usage, asym, assoc⟩).length = 13 := by
    simp only [setKeyPairInfoChangeReq, List.length_append, length_pack16, length_pack32,
      List.length_cons, List.length_nil]
  obtain ⟨tag, host', hx, husb, -⟩ :=
    exchange_answered E d host (setKeyPairInfoChangeReq ⟨1, usage, asym, assoc⟩)
      setKeyPairAck spdmSetKeyPairInfoAck false (by omega) (by omega)
      (show spdmSetKeyPairInfo ≠ spdmEndSession by decide)
      (fun tag => dispatch_change E d { host.usb with lastTag := tag } ⟨usage, asym, assoc⟩)
      (by decide) rfl
  have hset : setKeyPairInfoChange E d host ⟨1, usage, asym, assoc⟩ = .ok host' := by
    rw [setKeyPairInfoChange_request, hx, ok_bind]
  refine ⟨host', hset, hr.inStep.setKeyPairInfoChange hset, ?_⟩
  rw [husb]
  exact ⟨hr.bound.multiKey, hr.bound.usage, hr.bound.assoc⟩

theorem raised_ok {α : Type} (a : α) : raised (.ok a) = .ok a := rfl

theorem check_ok {p : Prop} [Decidable p] (h : p) (e : ScriptErr) : check p e = .ok () := if_pos h

theorem challengeAndKeyPair_completes (hl : E.crypto.FixedLengths) (hv : E.crypto.VerifiesOwn)
    (x : ScriptDraws) (hr : Ready host) (htr : host.transcript = host.usb.transcript) :
    ∃ host', challengeAndKeyPair E x host = .ok host' ∧ Ready host' := by
  obtain ⟨host₁, h₁⟩ := challenge_ok hl hv htr x.challenge x.nonce x.reqCtx
  have hr₁ := hr.challenge h₁
  obtain ⟨host₂, h₂, hr₂⟩ := getKeyPairInfo_completes (E := E) x.idle hr₁
  obtain ⟨host₃, h₃, hr₃⟩ :=
    setKeyPairInfoChange_completes (E := E) x.idle hr₂ host₁.usb.usage host₁.usb.asym 0x01
  obtain ⟨host₄, h₄, hr₄⟩ := getKeyPairInfo_completes (E := E) x.idle hr₃
  refine ⟨host₄, ?_, hr₄⟩
  rw [challengeAndKeyPair, h₁, raised_ok, ok_bind, h₂, raised_ok, ok_bind]
  simp only
  rw [h₃, raised_ok, ok_bind, h₄, raised_ok, ok_bind]
  simp only
  rw [check_ok trivial, ok_bind]

/-! ### In a session -/

/-- A session of which each side has sent `n` records and opened all of the other's. -/
structure Open (n : Nat) (keys : SecuredSession) (host : Linked) : Prop where
  ready : Ready host
  responder : host.usb.keys = some { keys with role := .responder }
  role : keys.role = .requester
  reqSeq : keys.reqSeq = n
  rspSeq : keys.rspSeq = n
  reqSalt : 8 ≤ keys.reqSalt.length
  rspSalt : 8 ≤ keys.rspSalt.length

theorem Open.lockstep {n : Nat} {keys : SecuredSession} (ho : Open n keys host) :
    Lockstep keys host.usb := by
  refine ⟨ho.role, fun own hown => ?_⟩
  rw [ho.responder] at hown
  cases hown
  rfl

/-- Both counters one further. -/
def advanced (keys : SecuredSession) : SecuredSession := (keys.bump .requester).bump .responder

/-- The responder once a request of the session is answered. -/
def answeredIn (st : SpdmPythonResponder) (tag : UInt8) (keys : SecuredSession) :
    SpdmPythonResponder :=
  { st with lastTag := tag, keys := some { advanced keys with role := .responder } }

theorem Open.encodes {n : Nat} {keys : SecuredSession} (ho : Open n keys host) (hn : n < 2 ^ 64)
    (hshort : request.length < 220) :
    ∃ iv, keys.encode E.crypto request =
      .ok (keys.sealRecord E.crypto .requester n iv request) (keys.bump .requester) := by
  obtain ⟨-, -, hrole, hreq, -, hsalt, -⟩ := ho
  obtain ⟨iv, hiv⟩ := Channel.aeadIv_total hsalt hn
  rcases keys.encode_cases E.crypto request with ⟨-, hlong⟩ | ⟨e, -, hlong | hno⟩ | ⟨iv', -, -, he⟩
  · omega
  · omega
  · rw [hrole] at hno
    change aeadIv keys.reqSalt keys.reqSeq = _ at hno
    rw [hreq, hiv] at hno
    cases hno
  · rw [hrole] at he
    change keys.encode E.crypto request =
      .ok (keys.sealRecord E.crypto .requester keys.reqSeq iv' request) _ at he
    rw [hreq] at he
    exact ⟨iv', he⟩

/-- The responder opens a record, answers it, and seals the answer for the requester's counter. -/
theorem Open.served (hC : E.crypto.AeadCorrect) {n : Nat} {keys : SecuredSession}
    (ho : Open n keys host) (hn : n < 2 ^ 64) (hlen : 2 ≤ request.length)
    (hshort : rsp.length < 220) (hd : ∀ st, dispatch E d st request = .ok (rsp, st)) {inner : Bytes}
    (he : keys.encode E.crypto request = .ok inner (keys.bump .requester)) (tag : UInt8) :
    ∃ frame record, host.usb.serve E d (mctpTypeSecured :: inner) tag =
        .ok (⟨request, true, rsp, frame⟩, (answeredIn host.usb tag keys).closeSession request) ∧
      frame.drop 8 = mctpTypeSecured :: record ∧
      (keys.bump .requester).decode E.crypto record = .ok rsp (advanced keys) := by
  obtain ⟨-, hown, hrole, -, hrsp, -, hsalt⟩ := ho
  obtain ⟨iv, hiv⟩ := Channel.aeadIv_total hsalt hn
  let own : SecuredSession := { keys with role := .responder }.bump .requester
  have hivOwn : aeadIv (own.saltOf own.role) (own.seqOf own.role) = .ok iv := by
    change aeadIv keys.rspSalt keys.rspSeq = _
    rw [hrsp, hiv]
  have hdecode := decode_mirror hC hrole he
  have htype : mctpTypeSecured &&& 0x7F = mctpTypeSecured := by decide
  have hkeys : ({ host.usb with lastTag := tag, keys := some own } : SpdmPythonResponder).keys =
    some own := rfl
  have hreply := SecuredSender.reply_eq (E := E) hkeys rsp
  rw [SecuredSender.reply,
    SecuredSender.send_fits false id (a := ⟨own, tag⟩) hC hshort hivOwn] at hreply
  refine ⟨usbFrame (buildMctp (mctpTypeSecured ::
    own.sealRecord E.crypto own.role (own.seqOf own.role) iv rsp) tag false), _, ?_,
    drop_usbFrame _ _ _, ?_⟩
  · simp only [serve_eq_answer, recvRequest, htype, if_true, hown, hdecode, answer, hd]
    rw [hreply]
    simp only [if_neg (Nat.not_lt.mpr hlen)]
    rfl
  · have hown' : (keys.bump .requester).keyOf (keys.bump .requester).role.peer =
        own.keyOf (keys.bump .requester).role.peer := by
      rw [SecuredSession.bump_role, hrole]
      rfl
    have hseal (hiv : aeadIv ((keys.bump .requester).saltOf (keys.bump .requester).role.peer)
        ((keys.bump .requester).seqOf (keys.bump .requester).role.peer) = .ok iv) :=
      SecuredSession.decode_sealRecord hC (a := own) (b := keys.bump .requester) (m := rsp) rfl
        hown' hiv (by omega)
    rw [SecuredSession.bump_role, hrole] at hseal
    exact hseal hivOwn

/-- A request the responder answers in any state and without changing it. -/
structure Answers (E : Device) (d : Draw) (request rsp : Bytes) (code : UInt8) : Prop where
  long : 2 ≤ request.length
  fits : request.length < 220
  inSession : InSession request
  answered : ∀ st, dispatch E d st request = .ok (rsp, st)
  short : rsp.length < 220
  expected : expectCode rsp code = .ok ()

theorem Open.exchanged (hC : E.crypto.AeadCorrect) {n : Nat} {keys : SecuredSession}
    (ho : Open n keys host) (hn : n < 2 ^ 64) (ha : Answers E d request rsp code) :
    ∃ host' tag, exchangeSecured E d host keys request code = .ok (rsp, advanced keys, host') ∧
      host'.usb = (answeredIn host.usb tag keys).closeSession request := by
  obtain ⟨iv, he⟩ := ho.encodes (E := E) hn ha.fits
  generalize hinner : keys.sealRecord E.crypto .requester n iv request = inner at he
  have hbody : (mctpTypeSecured :: inner).length ≤ 247 := by
    have hfits := ha.fits
    rw [← hinner, List.length_cons, SecuredSender.length_sealRecord hC]
    omega
  have hserved (tag : UInt8) := ho.served hC hn ha.long ha.short ha.answered he tag
  have hserves (tag : UInt8) : ∃ served usb, host.usb.serve E d (mctpTypeSecured :: inner) tag =
      .ok (served, usb) := by
    obtain ⟨frame, record, hserve, -, -⟩ := hserved tag
    exact ⟨_, _, hserve⟩
  obtain ⟨msg, host', ht⟩ := transact_of_serve hbody hserves
  obtain ⟨tag, served, hserve, rfl, -⟩ := transact_ok ht
  obtain ⟨frame, record, hserve', hframe, hdecode⟩ := hserved tag
  obtain ⟨rfl, husb⟩ := Prod.mk.inj (Except.ok.inj (hserve.symm.trans hserve'))
  refine ⟨host', tag, ?_, husb⟩
  simp only [Linked.exchangeSecured, he]
  rw [ht, ok_bind]
  simp only [hframe, List.getD_cons_zero]
  rw [require_ok (by decide), ok_bind, List.drop_one, List.tail_cons, hdecode]
  simp only
  rw [ha.expected, ok_bind]

/-- A secured exchange goes through and leaves the session open, one record further. -/
theorem Open.exchange (hC : E.crypto.AeadCorrect) {n : Nat} {keys : SecuredSession}
    (ho : Open n keys host) (hn : n < 2 ^ 64) (ha : Answers E d request rsp code)
    (hcode : request.getD 1 0 ≠ spdmEndSession) :
    ∃ host', exchangeSecured E d host keys request code = .ok (rsp, advanced keys, host') ∧
      Open (n + 1) (advanced keys) host' := by
  obtain ⟨host', tag, hx, husb⟩ := ho.exchanged hC hn ha
  obtain ⟨hs, -⟩ := ho.ready.inStep.exchangeSecured hC ho.lockstep ha.inSession hx
  rw [closeSession, if_neg hcode] at husb
  have hb : Bound host'.usb := by
    rw [husb]
    exact ⟨ho.ready.bound.multiKey, ho.ready.bound.usage, ho.ready.bound.assoc⟩
  exact ⟨host', hx, ⟨hs, hb⟩, by rw [husb]; rfl, ho.role, congrArg (· + 1) ho.reqSeq,
    congrArg (· + 1) ho.rspSeq, ho.reqSalt, ho.rspSalt⟩

/-- END_SESSION leaves the responder without the session. -/
theorem Open.close (hC : E.crypto.AeadCorrect) {n : Nat} {keys : SecuredSession}
    (ho : Open n keys host) (hn : n < 2 ^ 64) (d : Draw) :
    ∃ host', endSession E d host keys = .ok (advanced keys, host') ∧ Ready host' ∧
      host'.usb.keys = none ∧
      host'.usb.keState = none := by
  have ha : Answers E d [spdmVer, spdmEndSession, 0x00, 0x00] endSessionAck spdmEndSessionAck :=
    ⟨by decide, by decide, by decide, fun _ => rfl, by decide, rfl⟩
  obtain ⟨host', tag, hx, husb⟩ := ho.exchanged hC hn ha
  obtain ⟨hs, -⟩ := ho.ready.inStep.exchangeSecured hC ho.lockstep ha.inSession hx
  have hend : [spdmVer, spdmEndSession, 0x00, 0x00].getD 1 0 = spdmEndSession := rfl
  rw [closeSession, if_pos hend] at husb
  have hb : Bound host'.usb := by
    rw [husb]
    exact ⟨ho.ready.bound.multiKey, ho.ready.bound.usage, ho.ready.bound.assoc⟩
  refine ⟨host', ?_, ⟨hs, hb⟩, by rw [husb], by rw [husb]⟩
  rw [endSession, hx, ok_bind]

/-- The SUPPORTED_EVENT_TYPES of `handle_events`. -/
def supportedEventTypesRsp : Bytes :=
  [spdmVer, spdmSupportedEventTypes, 1, 0] ++ leBytes 4 eventGroup.length ++ eventGroup

theorem runEventSubscribe_completes (hC : E.crypto.AeadCorrect) (d : Draw) {n : Nat}
    {keys : SecuredSession} (ho : Open n keys host) (hn : n + 1 < 2 ^ 64) :
    ∃ keys' host', runEventSubscribe E d (keys, host) = .ok (keys', host') ∧
      Open (n + 2) keys' host' := by
  have hlist : slice supportedEventTypesRsp 8 (8 + leNat (slice supportedEventTypesRsp 4 8)) =
      eventGroup := by
    decide +kernel
  have hget : Answers E d getSupportedEventTypesReq supportedEventTypesRsp
      spdmSupportedEventTypes :=
    ⟨by decide, by decide, by decide, fun _ => rfl, by decide +kernel, rfl⟩
  have hsub : Answers E d (subscribeReq 1 eventGroup.length eventGroup)
      [spdmVer, spdmSubscribeEventTypesAck, 0, 0]
      spdmSubscribeEventTypesAck :=
    ⟨by decide +kernel, by decide +kernel, by decide +kernel, fun _ => rfl, by decide, rfl⟩
  obtain ⟨host₁, h₁, ho₁⟩ := ho.exchange hC (Nat.lt_of_succ_lt hn) hget (by decide)
  obtain ⟨host₂, h₂, ho₂⟩ := ho₁.exchange hC hn hsub (by decide +kernel)
  refine ⟨_, host₂, ?_, ho₂⟩
  have hcount : supportedEventTypesRsp.getD 2 0 = 1 := rfl
  have hlen : leNat (slice supportedEventTypesRsp 4 8) = eventGroup.length := by decide +kernel
  rw [runEventSubscribe, h₁, raised_ok, ok_bind]
  simp only [hlist, hcount]
  rw [hlen, check_ok (by decide +kernel), ok_bind, check_ok (by decide +kernel), ok_bind, h₂,
    raised_ok, ok_bind]

theorem unsubscribeEvents_completes (hC : E.crypto.AeadCorrect) (d : Draw) {n : Nat}
    {keys : SecuredSession} (ho : Open n keys host) (hn : n < 2 ^ 64) :
    ∃ keys' host', unsubscribeEvents E d (keys, host) = .ok (keys', host') ∧
      Open (n + 1) keys' host' := by
  have ha : Answers E d unsubscribeReq [spdmVer, spdmSubscribeEventTypesAck, 0, 0]
      spdmSubscribeEventTypesAck :=
    ⟨by decide, by decide, by decide, fun _ => rfl, by decide, rfl⟩
  obtain ⟨host₁, h₁, ho₁⟩ := ho.exchange hC hn ha (by decide)
  refine ⟨_, host₁, ?_, ho₁⟩
  rw [unsubscribeEvents, h₁, raised_ok, ok_bind]

theorem sessionPing_completes (hC : E.crypto.AeadCorrect) (d : Draw) {n : Nat}
    {keys : SecuredSession} (ho : Open n keys host) (hn : n < 2 ^ 64) :
    ∃ keys' host', sessionPing E d (keys, host) = .ok (keys', host') ∧
      Open (n + 1) keys' host' := by
  have hping : parseVendorPayload (vendorDefined spdmVendorDefinedRequest (ascii "1111")) =
      .ok (ascii "1111") := by
    decide +kernel
  have hpong : parseVendorPayload (vendorDefined spdmVendorDefinedResponse (ascii "2222")) =
      .ok (ascii "2222") := by
    decide +kernel
  have hanswered (st : SpdmPythonResponder) :
      dispatch E d st (vendorDefined spdmVendorDefinedRequest (ascii "1111")) =
      .ok (vendorDefined spdmVendorDefinedResponse (ascii "2222"), st) := by
    rw [dispatch_handler .vendor (by decide) rfl, Handler.call, handleVendor, hping]
    rfl
  have ha : Answers E d (vendorDefined spdmVendorDefinedRequest (ascii "1111"))
      (vendorDefined spdmVendorDefinedResponse (ascii "2222")) spdmVendorDefinedResponse :=
    ⟨by decide, by decide, vendorDefined_inSession, hanswered, by decide, rfl⟩
  obtain ⟨host₁, h₁, ho₁⟩ := ho.exchange hC hn ha (by decide)
  refine ⟨_, host₁, ?_, ho₁⟩
  rw [sessionPing, h₁, raised_ok, ok_bind]
  simp only
  rw [hpong, raised_ok, ok_bind, check_ok rfl, ok_bind]

/-- Any number of pings that the counters can number. -/
theorem runSessionPing_completes (hC : E.crypto.AeadCorrect) (d : Draw) (rounds : Nat) {n : Nat}
    {keys : SecuredSession} (ho : Open n keys host) (hn : n + rounds ≤ 2 ^ 64) :
    ∃ keys' host', runSessionPing E d rounds (keys, host) = .ok (keys', host') ∧
      Open (n + rounds) keys' host' := by
  induction rounds generalizing n keys host with
  | zero => exact ⟨keys, host, rfl, ho⟩
  | succ rounds ih =>
      obtain ⟨keys₁, host₁, h₁, ho₁⟩ := sessionPing_completes hC d ho (by omega)
      obtain ⟨keys₂, host₂, h₂, ho₂⟩ := ih ho₁ (by omega)
      refine ⟨keys₂, host₂, ?_, ?_⟩
      · rw [runSessionPing, h₁, ok_bind, h₂]
      · rw [Nat.add_comm rounds, ← Nat.add_assoc]
        exact ho₂

/-! ### The sessions and the script -/

theorem not_setKeyPair (fn : Handler) (hfn : handlerOf request = some fn) (hne : fn ≠ .setKeyPair) :
    handlerOf request ≠ some .setKeyPair :=
  fun h => hne (Option.some.inj (hfn.symm.trans h))

/-- A key exchange leaves the key pair alone and derives salts of twelve octets. -/
theorem runKeyExchange_keeps (hl : E.crypto.FixedLengths) {own dk df : Draw} {certChainHash : Bytes}
    {reqSessionId : UInt16} {keys : SecuredSession}
    (h : runKeyExchange E own dk df host certChainHash reqSessionId = .ok (keys, host')) :
    KeepsKeyPair host.usb host'.usb ∧ keys.reqSalt.length = 12 ∧ keys.rspSalt.length = 12 := by
  unfold runKeyExchange at h
  obtain ⟨⟨keRsp, host₁⟩, h₁, h⟩ := of_bind_ok h
  obtain ⟨sigOff, -, h⟩ := of_bind_ok h
  obtain ⟨-, -, h⟩ := of_bind_ok h
  obtain ⟨shared, -, h⟩ := of_bind_ok h
  obtain ⟨⟨finishRsp, host₂⟩, h₂, h⟩ := of_bind_ok h
  obtain ⟨-, -, h⟩ := of_bind_ok h
  obtain ⟨-, -, h⟩ := of_bind_ok h
  cases h
  refine ⟨?_, hl.hkdf _ _ _, hl.hkdf _ _ _⟩
  exact (exchange_keepsKeyPair (not_setKeyPair .keyExchange rfl (by decide)) h₁).trans
    (exchange_keepsKeyPair (not_setKeyPair .finish rfl (by decide)) h₂)

theorem Ready.opens (hl : E.crypto.FixedLengths) (hc : E.crypto.Commutes)
    (hv : E.crypto.VerifiesOwn) (hr : Ready host) (x : HandshakeDraws) (reqSessionId : UInt16) :
    ∃ keys host', runKeyExchange E x.own x.keyExchange x.finish host E.digest reqSessionId =
      .ok (keys, host') ∧
      Open 0 keys host' := by
  obtain ⟨keys, host', h, hagree, hs⟩ :=
    runKeyExchange_ok hl hc hv hr.inStep x.own x.keyExchange x.finish reqSessionId
  obtain ⟨hkeeps, hreqSalt, hrspSalt⟩ := runKeyExchange_keeps hl h
  exact ⟨keys, host', h, ⟨hs, hkeeps.bound hr.bound⟩, hagree.responder, hagree.role, hagree.reqSeq,
    hagree.rspSeq,
    by omega, by omega⟩

theorem firstSession_completes (hl : E.crypto.FixedLengths) (hc : E.crypto.Commutes)
    (hv : E.crypto.VerifiesOwn) (hC : E.crypto.AeadCorrect) (x : ScriptDraws) (hr : Ready host) :
    ∃ host', firstSession E x E.digest host = .ok host' ∧ Ready host' := by
  obtain ⟨keys, host₁, h₁, ho₁⟩ := hr.opens hl hc hv x.first 0x00FF
  obtain ⟨keys₂, host₂, h₂, ho₂⟩ := runEventSubscribe_completes hC x.idle ho₁ (by decide)
  obtain ⟨keys₃, host₃, h₃, ho₃⟩ := runSessionPing_completes hC x.idle 10 ho₂ (by decide)
  obtain ⟨keys₄, host₄, h₄, ho₄⟩ := unsubscribeEvents_completes hC x.idle ho₃ (by decide)
  obtain ⟨host₅, h₅, hr₅, -⟩ := ho₄.close hC (by decide) x.idle
  refine ⟨host₅, ?_, hr₅⟩
  rw [firstSession, h₁, raised_ok, ok_bind, h₂, ok_bind, h₃, ok_bind, h₄, ok_bind]
  simp only
  rw [h₅, raised_ok, ok_bind]

/-- A later GET_DIGESTS of a multi-key connection. -/
theorem getSlot0Digest_again (hl : E.crypto.FixedLengths) (d : Draw) (hr : Ready host) :
    ∃ host', getSlot0Digest E d host = .ok (E.digest, host') ∧ Ready host' := by
  have hlen := length_digestsRsp hl (E := E) host.usb.usage
  have hne : host.usb.messageD.isEmpty = false := by
    rw [← hr.inStep.messageD]
    exact List.isEmpty_eq_false_iff.mpr hr.inStep.digested
  have hdisp (tag : UInt8) : dispatch E d { host.usb with lastTag := tag } getDigestsReq =
      .ok (digestsRsp E.digest true host.usb.usage,
        SpdmPythonResponder.record { host.usb with lastTag := tag }
        getDigestsReq (digestsRsp E.digest true host.usb.usage)) := by
    rw [dispatch_handler .digests (by decide) (by decide)]
    simp only [Handler.call, handleDigests, hr.bound.multiKey, hne, Bool.false_eq_true, if_false]
  obtain ⟨tag, host', hx, -⟩ :=
    exchange_answered E d host _ _ spdmDigests false (by decide) (by decide) (by decide)
      hdisp (by omega) (by simp only [expectCode, hlen]; rfl)
  have hr' : Ready host' := hr.exchange .digests rfl (by decide) (by decide) hx
  have hfield : field16 ([1, spdmCertModelDevice] ++ pack16 host.usb.usage) 2 = host.usb.usage := by
    simpa using field16_pack16 (a := [1, spdmCertModelDevice]) host.usb.usage [] rfl
  have hkid : ([1, spdmCertModelDevice] ++ pack16 host.usb.usage).getD 0 0 = 1 := rfl
  have hmodel : ([1, spdmCertModelDevice] ++ pack16 host.usb.usage).getD 1 0 &&& 0x7 =
      spdmCertModelDevice := by
    change spdmCertModelDevice &&& 0x7 = spdmCertModelDevice
    decide
  refine ⟨host', ?_, hr'⟩
  rw [getSlot0Digest, hx, ok_bind]
  simp only [hlen, drop_digestsRsp hl, hfield, slice_digestsRsp hl,
    List.isEmpty_eq_false_iff.mpr hr'.inStep.digested, Bool.false_eq_true, if_false]
  rw [require_ok (by decide), ok_bind, require_ok (by simp), ok_bind, require_ok (by simp), ok_bind,
    require_ok (by simp), ok_bind, require_ok hkid, ok_bind, require_ok hmodel, ok_bind,
    require_ok hr.bound.usage, ok_bind]

theorem cachedSession_completes (hl : E.crypto.FixedLengths) (hc : E.crypto.Commutes)
    (hv : E.crypto.VerifiesOwn) (hC : E.crypto.AeadCorrect) (x : ScriptDraws) (hr : Ready host) :
    ∃ host', cachedSession E x E.digest host = .ok host' ∧ Ready host' ∧ host'.usb.keys = none ∧
      host'.usb.keState = none := by
  obtain ⟨host₀, h₀, hr₀⟩ := getSlot0Digest_again hl x.idle hr
  obtain ⟨keys, host₁, h₁, ho₁⟩ := hr₀.opens hl hc hv x.second 0x11FF
  obtain ⟨keys₂, host₂, h₂, ho₂⟩ := runSessionPing_completes hC x.idle 1 ho₁ (by decide)
  obtain ⟨host₃, h₃, hclosed⟩ := ho₂.close hC (by decide) x.idle
  refine ⟨host₃, ?_, hclosed⟩
  rw [cachedSession, h₀, raised_ok, ok_bind]
  simp only
  rw [check_ok trivial, ok_bind, h₁, raised_ok, ok_bind, h₂, ok_bind]
  simp only
  rw [h₃, raised_ok, ok_bind]

/-- What follows the first GET_DIGESTS, once the certificates are there. -/
theorem script_completes (hl : E.crypto.FixedLengths) (hc : E.crypto.Commutes)
    (hv : E.crypto.VerifiesOwn) (hC : E.crypto.AeadCorrect) {x : ScriptDraws} {t : Tester}
    {ca : Bytes → Bool} {fuel : Nat} {chain : Bytes} {found : List Bytes} {host₁ : Linked}
    (hsetup : setup E x.idle host = .ok t) (hdigest : t.digest = E.digest) (hr : Ready t.host)
    (htr : t.host.transcript = t.host.usb.transcript)
    (hfound : getSlot0Certificate E x.idle fuel t.host E.digest =
      some (.ok ((chain, found), host₁)))
    (hca : ca (found.getLastD []) = true) :
    ∃ host', runSpdmHandshake E ca x fuel host = some (.ok host') ∧ Ready host' ∧
      host'.usb.keys = none ∧
      host'.usb.keState = none := by
  obtain ⟨hr₁, htr₁⟩ := getSlot0Certificate_ready hr htr hfound
  obtain ⟨host₂, h₂, hr₂⟩ := challengeAndKeyPair_completes hl hv x hr₁ htr₁
  obtain ⟨host₃, h₃, hr₃⟩ := firstSession_completes hl hc hv hC x hr₂
  obtain ⟨host₄, h₄, hclosed⟩ := cachedSession_completes hl hc hv hC x hr₃
  refine ⟨host₄, ?_, hclosed⟩
  simp only [runSpdmHandshake, hsetup, hdigest, hfound, Option.map_some, raised_ok, ok_bind]
  rw [check_ok hca, ok_bind, h₂, ok_bind, h₃, ok_bind, h₄]

/-- Against a responder on which nothing is recorded, whatever it has served so far, the whole
script runs to its end within 328 certificate requests, and no session is left open. -/
theorem runSpdmHandshake_completes {C : Crypto} (hl : C.FixedLengths) (hc : C.Commutes)
    (hv : C.VerifiesOwn) (hC : C.AeadCorrect) {certs : List DerCert} (hne : certs ≠ [])
    (htotal : (certChain C (certs.map DerCert.bytes)).length ≤ 65535) {ca : Bytes → Bool}
    (hca : ca ((certs.map DerCert.bytes).getLastD []) = true) (x : ScriptDraws)
    {history : List (Draw × Incoming)} {s : Loop}
    (hrun : Loop.run ⟨C, certChain C (certs.map DerCert.bytes)⟩ { responder := {} } history = .ok s)
    (hu : s.responder.Untouched) (ha : s.responder.assoc = 0x01) {fuel : Nat} (hfuel : 328 ≤ fuel) :
    ∃ host', runSpdmHandshake ⟨C, certChain C (certs.map DerCert.bytes)⟩ ca x fuel
      { usb := s.responder } =
        some (.ok host') ∧ Ready host' ∧ host'.usb.keys = none ∧ host'.usb.keState = none := by
  obtain ⟨t, hsetup, hr, hdigest, htr⟩ :=
    setup_ready (E := ⟨C, certChain C (certs.map DerCert.bytes)⟩) hl x.idle
      (Loop.run_blank hrun) hu ha
  obtain ⟨host₁, h₁⟩ := getSlot0Certificate_certChain hl.sha256 hne htotal x.idle t.host hfuel
  exact script_completes hl hc hv hC hsetup hdigest hr htr h₁ hca

theorem noHistory (E : Device) : Loop.run E { responder := {} } [] = .ok { responder := {} } := rfl

theorem length_sampleContext : (zeros 8).length = 8 := List.length_replicate

def sampleScript : ScriptDraws :=
  ⟨sampleDraw 0, (sampleDraw 1).nonce, ⟨zeros 8, length_sampleContext⟩, sampleDraw 2,
    ⟨sampleDraw 3, sampleDraw 4, sampleDraw 5⟩, ⟨sampleDraw 6, sampleDraw 7, sampleDraw 8⟩⟩

theorem runSpdmHandshake_sampleCerts : ∃ host',
    runSpdmHandshake ⟨constantCrypto, certChain constantCrypto (sampleCerts.map DerCert.bytes)⟩
      (fun _ => true)
        sampleScript 328 { usb := {} } = some (.ok host') ∧
      Ready host' ∧ host'.usb.keys = none ∧ host'.usb.keState = none :=
  runSpdmHandshake_completes constantCrypto_fixedLengths constantCrypto_commutes
    constantCrypto_verifiesOwn
    constantCrypto_aeadCorrect (List.cons_ne_nil _ _)
    (by simp [certChain, DerCert.bytes, DerForm.lengthOctets, constantCrypto]) rfl sampleScript
    (noHistory ⟨constantCrypto, certChain constantCrypto (sampleCerts.map DerCert.bytes)⟩)
    ⟨rfl, rfl⟩ rfl
    (Nat.le_refl 328)

end Linked

end LinkedsemiZephyr.Spdm
