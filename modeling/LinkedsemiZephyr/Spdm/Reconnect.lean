import LinkedsemiZephyr.Spdm.Agreement

/-! A device that comes back to a responder that has already served others: whether its
GET_VERSION starts a negotiation of its own. -/
namespace LinkedsemiZephyr.Spdm
open Octets PartialRun

namespace SpdmPythonResponder

variable {E : Device} {d : Draw} {st st' : SpdmPythonResponder} {req rsp : Bytes}

/-- One request of `run`, received and answered. -/
def handleRequest (E : Device) (st : SpdmPythonResponder) (x : Draw × Bytes) :
    Except PyErr SpdmPythonResponder :=
  match st.dispatch E x.1 x.2 with
  | .error e => .error e
  | .ok (_, st') => .ok (st'.closeSession x.2)

/-- What KEY_EXCHANGE signs over before its own messages, and what CHALLENGE signs over. -/
def signedOver (E : Device) (st : SpdmPythonResponder) : Bytes × Bytes × Bytes × Bytes :=
  (st.messageA, st.messageD, E.digest, st.transcript)

/-- A connection: a GET_VERSION and requests up to the next one. -/
structure Connection where
  version : Draw × Bytes
  rest : List (Draw × Bytes)
  starts : handlerOf version.2 = some .version
  single : ∀ x ∈ rest, handlerOf x.2 ≠ some .version

def Connection.requests (c : Connection) : List (Draw × Bytes) := c.version :: c.rest

/-- Whatever connection follows, what is signed over is what a new responder would have. -/
def NegotiatesAfresh (E : Device) (st : SpdmPythonResponder) : Prop :=
  ∀ c : Connection, (c.requests.foldlM (handleRequest E) st).map (signedOver E) =
    (c.requests.foldlM (handleRequest E) {}).map (signedOver E)

/-- The fields that enter neither negotiation nor challenge, set back. -/
def forgetSession (st : SpdmPythonResponder) : SpdmPythonResponder :=
  { messageA := st.messageA, messageD := st.messageD, transcript := st.transcript, usage := st.usage
    multiKey := st.multiKey, reqFlags := st.reqFlags }

theorem call_forgetSession (E : Device) (d : Draw) (st : SpdmPythonResponder) (req : Bytes)
    (fn : Handler) :
    (fn.call E d st req).map (fun r => r.2.forgetSession) =
      (fn.call E d st.forgetSession req).map (fun r => r.2.forgetSession) := by
  cases fn with
  | caps =>
      simp only [Handler.call, handleCaps]
      split <;> rfl
  | digests =>
      have hmd : st.forgetSession.messageD = st.messageD := rfl
      by_cases hd : st.messageD.isEmpty = true
      · simp only [Handler.call, handleDigests, hmd, if_pos hd]
        rfl
      · simp only [Handler.call, handleDigests, hmd, if_neg hd]
        rfl
  | certificate =>
      simp only [Handler.call, handleCertificate]
      split
      · rfl
      · split <;> rfl
  | setKeyPair =>
      simp only [Handler.call, handleSetKeyPair]
      split <;> rfl
  | keyExchange =>
      simp only [Handler.call, handleKeyExchange]
      split
      · rfl
      · split <;> rfl
  | finish =>
      by_cases ha : st.FinishAccepted E req
      · obtain ⟨ke, hk, he⟩ := ha
        simp only [Handler.call, handleFinish_accepted hk he]
        rfl
      · simp only [Handler.call, handleFinish_rejected ha]
        rfl
  | vendor =>
      simp only [Handler.call, handleVendor]
      split <;> rfl
  | events =>
      simp only [Handler.call, handleEvents]
      split
      · rfl
      · split
        · split <;> rfl
        · rfl
  | _ => rfl

@[simp] theorem forgetSession_closeSession (st : SpdmPythonResponder) (req : Bytes) :
    (st.closeSession req).forgetSession = st.forgetSession := by
  unfold closeSession
  split <;> rfl

theorem dispatch_forgetSession (E : Device) (d : Draw) (st : SpdmPythonResponder) (req : Bytes) :
    (st.dispatch E d req).map (fun r => r.2.forgetSession) =
      (st.forgetSession.dispatch E d req).map (fun r => r.2.forgetSession) := by
  simp only [dispatch]
  split
  · rfl
  · cases handlerOf req with
    | none => rfl
    | some fn => exact call_forgetSession E d st req fn

theorem map_handleRequest (E : Device) (st : SpdmPythonResponder) (x : Draw × Bytes) :
    (st.handleRequest E x).map forgetSession =
      (st.dispatch E x.1 x.2).map (fun r => r.2.forgetSession) := by
  unfold handleRequest
  cases st.dispatch E x.1 x.2 with
  | error e => rfl
  | ok r => exact congrArg Except.ok (forgetSession_closeSession r.2 x.2)

/-- Sessions and key-pair state do not reach what is signed over. -/
theorem handleRequest_congr (s t : SpdmPythonResponder) (x : Draw × Bytes)
    (h : s.forgetSession = t.forgetSession) :
    (s.handleRequest E x).map forgetSession = (t.handleRequest E x).map forgetSession := by
  rw [map_handleRequest, map_handleRequest, dispatch_forgetSession, h, ← dispatch_forgetSession]

theorem recvRequest_forgetSession {msg : Bytes} {secured : Bool}
    (h : st.recvRequest E msg = .ok ((req, secured), st')) :
    st'.forgetSession = st.forgetSession := by
  rcases recvRequest_cases h with ⟨-, rfl⟩ | ⟨keys, keys', b, body, -, -, -, -, rfl⟩ <;> rfl

theorem reply_forgetSession {frame : Bytes} {secured : Bool}
    (h : st.reply E rsp secured = .ok (frame, st')) : st'.forgetSession = st.forgetSession := by
  rcases reply_state h with ⟨-, rfl⟩ | ⟨keys, keys', inner, -, -, -, rfl⟩ <;> rfl

/-- A pass of `run` is the handling of its request; how it was wrapped adds nothing. -/
theorem serve_handleRequest {msg : Bytes} {tag : UInt8} {served : Served}
    (h : st.serve E d msg tag = .ok (served, st')) :
    (st.handleRequest E (d, served.request)).map forgetSession = .ok st'.forgetSession := by
  obtain ⟨st₁, st₂, st₃, hr, hd, hf, -, rfl⟩ := serve_ok h
  have h₁ : st.forgetSession = st₁.forgetSession := (recvRequest_forgetSession hr).symm
  have h₃ : st₃.forgetSession = st₂.forgetSession := reply_forgetSession hf
  rw [handleRequest_congr st st₁ _ h₁, map_handleRequest, hd, forgetSession_closeSession, h₃]
  rfl

theorem run_congr {xs : List (Draw × Bytes)} {s t : SpdmPythonResponder}
    (h : s.forgetSession = t.forgetSession) :
    (xs.foldlM (handleRequest E) s).map (signedOver E) =
      (xs.foldlM (handleRequest E) t).map (signedOver E) := by
  have hrun : (xs.foldlM (handleRequest E) s).map forgetSession =
      (xs.foldlM (handleRequest E) t).map forgetSession :=
        PartialRun.map_congr handleRequest_congr h
  have hsig : ∀ r : Except PyErr SpdmPythonResponder,
      r.map (signedOver E) = (r.map forgetSession).map (signedOver E) := by
    intro r
    cases r <;> rfl
  rw [hsig, hrun, ← hsig]

/-- As long as nothing is recorded nothing is negotiated. -/
def Blank (st : SpdmPythonResponder) : Prop :=
  st.transcript = [] → st.messageA = [] ∧ st.messageD = [] ∧ st.multiKey = false ∧ st.reqFlags = 0

theorem blank_congr (h : st'.forgetSession = st.forgetSession) (hb : Blank st) : Blank st' := by
  simp only [forgetSession, SpdmPythonResponder.mk.injEq] at h
  obtain ⟨-, ha, hd, htr, -, -, -, -, -, hm, hf⟩ := h
  rw [Blank, ha, hd, htr, hm, hf]
  exact hb

theorem dispatch_blank (hb : Blank st) (h : st.dispatch E d req = .ok (rsp, st')) : Blank st' := by
  rcases dispatch_cases h with ⟨rfl, -⟩ | ⟨fn, hfn, h⟩
  · exact hb
  · by_cases hrec : fn ∈ recorders
    · intro htr
      rw [call_recorded hrec h, List.append_eq_nil_iff, List.append_eq_nil_iff] at htr
      rw [htr.1.2, handlerOf_short (by decide)] at hfn
      cases hfn
    · have hsame := call_unrecorded hrec h
      intro htr
      rw [hsame.messageA, hsame.messageD, hsame.multiKey, hsame.reqFlags]
      exact hb (hsame.transcript ▸ htr)

theorem serve_blank {msg : Bytes} {tag : UInt8} {served : Served} (hb : Blank st)
    (h : st.serve E d msg tag = .ok (served, st')) : Blank st' := by
  obtain ⟨st₁, st₂, st₃, hr, hd, hf, -, rfl⟩ := serve_ok h
  have h₁ := recvRequest_forgetSession hr
  have h₂ := dispatch_blank (blank_congr h₁ hb) hd
  exact blank_congr ((forgetSession_closeSession st₃ _).trans (reply_forgetSession hf)) h₂

theorem Loop.step_blank {s s' : Loop} {x : Draw × Incoming} (hb : Blank s.responder)
    (h : Loop.step E s x = .ok s') : Blank s'.responder := by
  unfold Loop.step at h
  split at h
  · split at h <;> cases h
    exact hb
  · split at h
    · cases h
    · next served st' hserve =>
        cases h
        exact serve_blank hb hserve

theorem Loop.run_blank {s : Loop} {history : List (Draw × Incoming)}
    (h : Loop.run E { responder := {} } history = .ok s) : Blank s.responder :=
  PartialRun.invariant (P := fun s : Loop => Blank s.responder) Loop.step_blank
    (fun _ => ⟨rfl, rfl, rfl, rfl⟩) h

/-- Nothing recorded and the key usage as it was at the start. -/
def Untouched (st : SpdmPythonResponder) : Prop :=
  st.transcript = [] ∧ st.usage = ({} : SpdmPythonResponder).usage

instance (st : SpdmPythonResponder) : Decidable st.Untouched := inferInstanceAs (Decidable (_ ∧ _))

theorem forgetSession_blank (hb : Blank st) (htr : st.transcript = []) :
    st.forgetSession = { usage := st.usage } := by
  obtain ⟨ha, hd, hm, hf⟩ := hb htr
  simp only [forgetSession, htr, ha, hd, hm, hf]

theorem negotiatesAfresh_of_untouched (hb : Blank st) (hu : st.Untouched) :
    NegotiatesAfresh E st := by
  intro c
  refine run_congr ?_
  rw [forgetSession_blank hb hu.1, hu.2]
  rfl

/-- GET_VERSION alone shows what the transcript held before. -/
def versionOnly : Connection where
  version := (sampleDraw 0, Linked.getVersionReq)
  rest := []
  starts := rfl
  single := fun _ h => absurd h List.not_mem_nil

/-- In a multi-key connection DIGESTS shows the key usage. -/
def upToDigests : Connection where
  version := (sampleDraw 0, Linked.getVersionReq)
  rest := [(sampleDraw 0, Linked.negotiateAlgorithmsReq), (sampleDraw 0, Linked.getDigestsReq)]
  starts := rfl
  single := by
    intro x hx
    rcases List.mem_cons.mp hx with rfl | hx
    · decide
    · rw [List.mem_singleton.mp hx]
      decide

theorem digestsRsp_usage (digest : Bytes) {u v : UInt16}
    (h : digestsRsp digest true u = digestsRsp digest true v) : u = v := by
  have hpack : pack16 u = pack16 v := by simpa [digestsRsp] using h
  have hu := leBytes_injective (by simpa using u.toNat_lt) (by simpa using v.toNat_lt) hpack
  exact UInt16.toNat_inj.mp hu

theorem untouched_of_negotiatesAfresh (hb : Blank st) (hn : NegotiatesAfresh E st) :
    st.Untouched := by
  have htr : st.transcript = [] := by
    have h := congrArg (Except.map fun x => x.2.2.2) (hn versionOnly)
    change Except.ok (st.transcript ++ Linked.getVersionReq ++ versionRsp) =
      Except.ok ([] ++ Linked.getVersionReq ++ versionRsp) at h
    have hlen := congrArg List.length (Except.ok.inj h)
    simp only [List.length_append, List.length_nil] at hlen
    exact List.length_eq_zero_iff.mp (by omega)
  refine ⟨htr, digestsRsp_usage E.digest ?_⟩
  have h := hn upToDigests
  have husage : st.forgetSession = forgetSession { usage := st.usage } := forgetSession_blank hb htr
  rw [run_congr husage] at h
  have hd := congrArg (Except.map fun x : Bytes × Bytes × Bytes × Bytes => x.2.1) h
  exact Except.ok.inj hd

end SpdmPythonResponder

namespace Linked

open SpdmPythonResponder

variable {E : Device} {d : Draw} {host host' : Linked}

/-- The certificate requests of `get_slot0_certificate`, at any offsets and lengths. -/
def certificates (portions : List (Draw × UInt16 × UInt16)) : List TesterAction :=
  portions.map fun x => .certificate x.1 x.2.1 x.2.2

/-- The normal flow of a new requester: setup, the certificate chain, CHALLENGE, and then
key exchanges among the other requests. -/
def PassesChecks (E : Device) (st : SpdmPythonResponder) : Prop :=
  ∀ d : Draw, ∃ t, setup E d { usb := st } = .ok t ∧
    ∀ (portions : List (Draw × UInt16 × UInt16)) (t₁ : Tester),
    (certificates portions).foldlM (act E) t = .ok t₁ →
      ∀ dc nonce reqCtx, ∃ t₂, act E t₁ (.challenge dc nonce reqCtx) = .ok t₂ ∧
        ∀ (actions : List TesterAction) (t₃ : Tester), actions.foldlM (act E) t₂ = .ok t₃ →
          ∀ own dk df reqSessionId, ∃ keys host,
            runKeyExchange E own dk df t₃.host t₃.digest reqSessionId = .ok (keys, host) ∧
            Agreed keys host.usb

/-- CERTIFICATE goes into both transcripts. -/
theorem certificate_transcript {rsp : Bytes} {offset length : UInt16}
    (htr : host.transcript = host.usb.transcript)
    (h : getCertificate E d host offset length = .ok (rsp, host')) :
    host'.transcript = host'.usb.transcript := by
  obtain ⟨tag, st, hd, -, husb, htr', -, -⟩ := exchange_ok h
  rw [dispatch_handler .certificate (by simp [getCertificateReq]) rfl] at hd
  rw [husb, closeSession_transcript, call_recorded (by decide) hd, htr', htr]

theorem certificates_inStep {portions : List (Draw × UInt16 × UInt16)} {t t' : Tester}
    (hs : InStep t.host) (hdig : t.digest = E.digest)
    (htr : t.host.transcript = t.host.usb.transcript)
    (h : (certificates portions).foldlM (act E) t = .ok t') :
    InStep t'.host ∧ t'.digest = E.digest ∧ t'.host.transcript = t'.host.usb.transcript := by
  induction portions generalizing t with
  | nil => rw [PartialRun.foldlM_nil h]; exact ⟨hs, hdig, htr⟩
  | cons x portions ih =>
      obtain ⟨t₁, h₁, h⟩ := PartialRun.foldlM_cons h
      obtain ⟨⟨rsp, host⟩, hx, h₁⟩ := of_bind_ok h₁
      cases h₁
      exact ih (t := { t with host })
        (hs.exchange (not_negotiating .certificate rfl (by decide)) hx)
        hdig (certificate_transcript htr hx) h

theorem length_challengeUnsigned (hl : E.crypto.FixedLengths) (nonce : Sized 32) {req : Bytes}
    (hreq : req.length = 44) : (challengeUnsigned E.digest nonce req).length = 78 := by
  simp only [challengeUnsigned, hreq, Nat.le_refl, if_true, List.length_append,
    length_digest hl, nonce.2, length_leBytes, length_slice, List.length_cons, List.length_nil]
  rfl

/-- The context of a CHALLENGE comes back where the requester looks for it. -/
theorem challengeUnsigned_context (hl : E.crypto.FixedLengths) (nonce : Sized 32) {reqCtx : Bytes}
    {req : Bytes} (hreq : req.length = 44) (hctx : slice req 36 44 = reqCtx) :
    (challengeUnsigned E.digest nonce req).drop (78 - 8) = reqCtx := by
  simp only [challengeUnsigned, hreq, Nat.le_refl, if_true, hctx]
  refine List.drop_left' ?_
  simp only [List.length_append, length_digest hl, nonce.2, length_leBytes, List.length_cons,
    List.length_nil]

/-- The responder's half of CHALLENGE: it signs its transcript up to the signature. -/
theorem exchange_challenge (hl : E.crypto.FixedLengths) (d : Draw) {req : Bytes}
    (hlen : req.length = 44) (hcode : req.getD 1 0 = spdmChallenge) {unsigned : Bytes}
    (hu : challengeUnsigned E.digest d.nonce req = unsigned) {sig : Sized 64}
    (hsig : E.crypto.signSpdmHash d.ecdsa challengeContext
      (E.crypto.sha256 (host.usb.transcript ++ req ++ unsigned)) = sig) :
    ∃ host', exchange E d host req spdmChallengeAuth false = .ok (unsigned ++ sig.1, host') ∧
      host'.transcript = host.transcript ++ req ++ (unsigned ++ sig.1) := by
  have hulen : unsigned.length = 78 := hu ▸ length_challengeUnsigned hl d.nonce hlen
  have hrlen : (unsigned ++ sig.1).length = 142 := by rw [List.length_append, hulen, sig.2]
  have hdisp : ∀ tag, dispatch E d { host.usb with lastTag := tag } req =
      .ok (unsigned ++ sig.1,
        SpdmPythonResponder.record { host.usb with lastTag := tag } req (unsigned ++ sig.1)) := by
    intro tag
    rw [dispatch_handler .challenge (by omega) (by rw [handlerOf, hcode]; rfl)]
    simp only [Handler.call, handleChallenge, hu, hsig]
  have hexpected : expectCode (unsigned ++ sig.1) spdmChallengeAuth = .ok () := by
    simp only [expectCode, hrlen]
    rw [← hu]
    rfl
  obtain ⟨tag, host', h, -, htr, -, -⟩ := exchange_answered E d host _ _ spdmChallengeAuth false
    (by omega) (by omega) (by rw [hcode]; decide) hdisp (by omega) hexpected
  exact ⟨host', h, htr⟩

/-- With level transcripts CHALLENGE passes. -/
theorem challenge_ok (hl : E.crypto.FixedLengths) (hv : E.crypto.VerifiesOwn)
    (htr : host.transcript = host.usb.transcript) (d : Draw) (nonce : Sized 32) (reqCtx : Sized 8) :
    ∃ host', challenge E d host nonce reqCtx = .ok host' := by
  generalize hreq : [spdmVer, spdmChallenge, 0x00, 0x00] ++ nonce.1 ++ reqCtx.1 = req
  have hlen : req.length = 44 := by
    rw [← hreq]
    simp only [List.length_append, nonce.2, reqCtx.2, List.length_cons, List.length_nil]
  have hcode : req.getD 1 0 = spdmChallenge := by rw [← hreq]; rfl
  have hctx : slice req 36 44 = reqCtx.1 := by
    rw [← hreq]
    refine slice_suffix ?_ (by rw [reqCtx.2])
    simp only [List.length_append, nonce.2, List.length_cons, List.length_nil]
  have hulen := length_challengeUnsigned hl d.nonce hlen
  have hreqCtx := challengeUnsigned_context hl d.nonce hlen hctx
  generalize hu : challengeUnsigned E.digest d.nonce req = unsigned at hulen hreqCtx
  generalize hsig : E.crypto.signSpdmHash d.ecdsa challengeContext
    (E.crypto.sha256 (host.usb.transcript ++ req ++ unsigned)) = sig
  obtain ⟨host', h, htr'⟩ := exchange_challenge hl d hlen hcode hu hsig
  have hrlen : (unsigned ++ sig.1).length = 142 := by rw [List.length_append, hulen, sig.2]
  have hdrop : (unsigned ++ sig.1).drop (142 - 64) = sig.1 := List.drop_left' hulen
  have htake : (unsigned ++ sig.1).take (142 - 64) = unsigned := List.take_left' hulen
  have hm1m2 : host'.transcript.take (host'.transcript.length - 64) =
      host.usb.transcript ++ req ++ unsigned := by
    rw [htr', htr, ← List.append_assoc]
    refine List.take_left' ?_
    simp only [List.length_append, sig.2, Nat.add_sub_cancel]
  have hverify : E.crypto.verifySpdmHash challengeContext
      (E.crypto.sha256 (host.usb.transcript ++ req ++ unsigned)) sig.1 = .ok () := by
    rw [← hsig]
    exact if_pos (hv _ _)
  refine ⟨host', ?_⟩
  simp only [challenge, hreq]
  rw [h, ok_bind]
  simp only [hrlen, hdrop, htake, hulen, hreqCtx, hm1m2]
  rw [require_ok trivial, ok_bind, hverify, ok_bind]

/-- A responder on which nothing is recorded serves a new requester to the end. -/
theorem passesChecks_of_untouched (hl : E.crypto.FixedLengths) (hc : E.crypto.Commutes)
    (hv : E.crypto.VerifiesOwn) (hC : E.crypto.AeadCorrect) {st : SpdmPythonResponder}
    (hb : st.Blank) (hu : st.Untouched) : PassesChecks E st := by
  intro d
  obtain ⟨ha, hd, -, -⟩ := hb hu.1
  obtain ⟨t, ht, hs, hdig, htr⟩ := setup_ok hl d { usb := st } ha.symm rfl hd
    (by rw [hu.2]; decide)
  refine ⟨t, ht, fun portions t₁ h₁ dc nonce reqCtx => ?_⟩
  obtain ⟨hs₁, hdig₁, htr₁⟩ := certificates_inStep hs hdig (htr hu.1.symm) h₁
  obtain ⟨host₂, h₂⟩ := challenge_ok hl hv htr₁ dc nonce reqCtx
  have hact : act E t₁ (.challenge dc nonce reqCtx) = .ok { t₁ with host := host₂ } := by
    rw [act, h₂, ok_bind]
  refine ⟨{ t₁ with host := host₂ }, hact, fun actions t₃ h₃ own dk df reqSessionId => ?_⟩
  have hstart : InStep host₂ ∧ t₁.digest = E.digest := ⟨hs₁.challenge h₂, hdig₁⟩
  obtain ⟨hs₃, hdig₃⟩ :=
    PartialRun.invariant (P := fun t : Tester => InStep t.host ∧ t.digest = E.digest)
      (act_inStep hl hc hv hC) hstart h₃
  obtain ⟨keys, host, hke, hagree, -⟩ := runKeyExchange_ok hl hc hv hs₃ own dk df reqSessionId
  exact ⟨keys, host, by rw [hdig₃, hke], hagree⟩

/-- A device that reconnects gets a negotiation of its own exactly when nothing was
recorded before it and no SET_KEY_PAIR_INFO left another key usage. -/
theorem reconnect_fresh_iff (hl : E.crypto.FixedLengths) (hc : E.crypto.Commutes)
    (hv : E.crypto.VerifiesOwn) (hC : E.crypto.AeadCorrect) {history : List (Draw × Incoming)}
    {s : Loop} (hrun : Loop.run E { responder := {} } history = .ok s) :
    NegotiatesAfresh E s.responder ∧ PassesChecks E s.responder ↔ s.responder.Untouched := by
  have hb := Loop.run_blank hrun
  constructor
  · rintro ⟨hn, -⟩
    exact untouched_of_negotiatesAfresh hb hn
  · intro hu
    exact ⟨negotiatesAfresh_of_untouched hb hu, passesChecks_of_untouched hl hc hv hC hb hu⟩

/-- A KEY_EXCHANGE with no FINISH. -/
def abandonedHandshake : List (Draw × Incoming) :=
  [(sampleDraw 0, .message (mctpTypeSpdm :: sampleKeyExchange) 0)]

set_option maxRecDepth 8000 in
theorem abandonedHandshake_untouched :
    ∃ s, Loop.run sampleDevice { responder := {} } abandonedHandshake = .ok s ∧
      s.responder.Untouched :=
  ⟨_, rfl, rfl, rfl⟩

theorem reconnect_fresh_abandoned :
    ∃ s, Loop.run sampleDevice { responder := {} } abandonedHandshake = .ok s ∧
      NegotiatesAfresh sampleDevice s.responder ∧ PassesChecks sampleDevice s.responder := by
  obtain ⟨s, hrun, hu⟩ := abandonedHandshake_untouched
  exact ⟨s, hrun, (reconnect_fresh_iff constantCrypto_fixedLengths constantCrypto_commutes
    constantCrypto_verifiesOwn constantCrypto_aeadCorrect hrun).mpr hu⟩

/-- The first GET_VERSION stays in what a second one starts. -/
theorem reconnect_stale :
    ¬ ∀ (E : Device) (history : List (Draw × Incoming)) (s : Loop), E.crypto.FixedLengths →
      E.crypto.Commutes → E.crypto.VerifiesOwn → E.crypto.AeadCorrect →
      Loop.run E { responder := {} } history = .ok s →
      NegotiatesAfresh E s.responder ∧ PassesChecks E s.responder := by
  intro h
  have hrun : Loop.run sampleDevice { responder := {} }
      [(sampleDraw 0, .message (mctpTypeSpdm :: getVersionReq) 0)] = .ok
        ⟨{ transcript := getVersionReq ++ versionRsp, messageA := getVersionReq ++ versionRsp },
          false⟩ := rfl
  have hn := (h sampleDevice _ _ constantCrypto_fixedLengths constantCrypto_commutes
    constantCrypto_verifiesOwn
    constantCrypto_aeadCorrect hrun).1
  have hu := untouched_of_negotiatesAfresh (Loop.run_blank hrun) hn
  exact absurd hu (by decide)

end Linked

end LinkedsemiZephyr.Spdm
