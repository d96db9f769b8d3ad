import LinkedsemiZephyr.Spdm.Exchange

/-! What CHALLENGE signs and what the requester verifies: one transcript kept twice. The
requester adds every exchange to its own, the responder those whose handler records. -/
namespace LinkedsemiZephyr.Spdm
open Octets PartialRun SpdmPythonResponder

/-- The arguments of one `exchange`, and the responder's draws for it. -/
structure ExchangeCall where
  draw : Draw
  request : Bytes
  expectedCode : UInt8
  recordA : Bool

/-- The handlers of the plaintext requests both roles support. -/
def plaintextHandlers : List Handler :=
  [.version, .caps, .algs, .digests, .certificate, .keyPairInfo, .setKeyPair, .keyExchange,
    .finish, .challenge]

/-- A request for one of those handlers. -/
def Supported (req : Bytes) : Prop := ∃ fn ∈ plaintextHandlers, handlerOf req = some fn

instance (req : Bytes) : Decidable (Supported req) :=
  inferInstanceAs (Decidable (∃ fn ∈ plaintextHandlers, _))

/-- A request whose handler extends the responder's transcript. -/
def Recorded (req : Bytes) : Prop := ∃ fn ∈ recorders, handlerOf req = some fn

instance (req : Bytes) : Decidable (Recorded req) :=
  inferInstanceAs (Decidable (∃ fn ∈ recorders, _))

/-- SHA-256 tells two inputs apart. -/
def Crypto.NoCollision (C : Crypto) (m m' : Bytes) : Prop := C.sha256 m = C.sha256 m' → m = m'

namespace SpdmPythonResponder

/-- The hash `handle_challenge` signs. -/
def challengeTh (E : Device) (d : Draw) (st : SpdmPythonResponder) (req : Bytes) : Bytes :=
  E.crypto.sha256 (st.transcript ++ req ++ challengeUnsigned E.digest d.nonce req)

theorem handleChallenge_signs (E : Device) (d : Draw) (st : SpdmPythonResponder) (req : Bytes) :
    st.handleChallenge E d req =
      .ok (challengeUnsigned E.digest d.nonce req ++
          (E.crypto.signSpdmHash d.ecdsa challengeContext (st.challengeTh E d req)).1,
        st.record req (challengeUnsigned E.digest d.nonce req ++
          (E.crypto.signSpdmHash d.ecdsa challengeContext (st.challengeTh E d req)).1)) := rfl

end SpdmPythonResponder

namespace Linked

/-- A sequence of exchanges from one host; a failed one ends it. -/
def exchanges (E : Device) (host : Linked) (calls : List ExchangeCall) : Except PyErr Linked :=
  calls.foldlM (fun host x => (·.2) <$> exchange E x.draw host x.request x.expectedCode x.recordA)
    host

variable {E : Device} {d : Draw} {host host' : Linked} {calls : List ExchangeCall}
  {request rsp : Bytes}
  {code : UInt8} {recordA : Bool}

/-- An exchange adds its bytes to the requester's transcript, and to the responder's if
the handler records. -/
theorem exchange_transcripts (hsupported : Supported request)
    (h : exchange E d host request code recordA = .ok (rsp, host')) :
    host'.transcript = host.transcript ++ request ++ rsp ∧
      (Recorded request → host'.usb.transcript = host.usb.transcript ++ request ++ rsp) ∧
      (¬ Recorded request → host'.usb.transcript = host.usb.transcript) := by
  obtain ⟨tag, st, hdispatch, -, husb, htranscript, -⟩ := exchange_ok h
  obtain ⟨fn, -, hfn⟩ := hsupported
  rw [husb, closeSession_transcript]
  refine ⟨htranscript, ?_⟩
  rcases dispatch_cases hdispatch with ⟨-, hcode⟩ | ⟨fn', hfn', hcall⟩
  · have hnone : handlerOf request = none := hcode.elim handlerOf_short id
    rw [hfn] at hnone
    cases hnone
  · constructor
    · rintro ⟨fn'', hrecords, hfn''⟩
      obtain rfl := Option.some.inj (hfn'.symm.trans hfn'')
      exact (call_recorded hrecords hcall).trans rfl
    · intro hunrecorded
      have hsame := call_unrecorded (fun hrecords => hunrecorded ⟨fn', hrecords, hfn'⟩) hcall
      exact hsame.transcript.trans rfl

theorem exchanges_cons {x : ExchangeCall} (h : exchanges E host (x :: calls) = .ok host') :
    ∃ rsp host₁, exchange E x.draw host x.request x.expectedCode x.recordA = .ok (rsp, host₁) ∧
      exchanges E host₁ calls = .ok host' := by
  obtain ⟨host₁, hx, hrest⟩ := foldlM_cons h
  cases hexchange : exchange E x.draw host x.request x.expectedCode x.recordA with
  | error e =>
      rw [hexchange] at hx
      cases hx
  | ok result =>
      rw [hexchange] at hx
      cases hx
      exact ⟨result.1, result.2, rfl, hrest⟩

/-- While every handler records, the two transcripts stay the same. -/
theorem exchanges_recorded (hsupported : ∀ x ∈ calls, Supported x.request)
    (hrecorded : ∀ x ∈ calls, Recorded x.request) (hsame : host.usb.transcript = host.transcript)
    (h : exchanges E host calls = .ok host') :
    host'.usb.transcript = host'.transcript := by
  induction calls generalizing host with
  | nil =>
      rw [foldlM_nil h]
      exact hsame
  | cons x calls ih =>
      obtain ⟨rsp, host₁, hx, hrest⟩ := exchanges_cons h
      obtain ⟨hhost, husb, -⟩ := exchange_transcripts (hsupported x List.mem_cons_self) hx
      refine ih (fun y hy => hsupported y (List.mem_cons_of_mem x hy))
        (fun y hy => hrecorded y (List.mem_cons_of_mem x hy)) ?_ hrest
      rw [hhost, husb (hrecorded x List.mem_cons_self), hsame]

/-- Every exchange the responder does not record leaves its transcript shorter. -/
theorem exchanges_missed (hsupported : ∀ x ∈ calls, Supported x.request) {n : Nat}
    (hstart : host.usb.transcript.length + n ≤ host.transcript.length)
    (h : exchanges E host calls = .ok host') :
    host'.usb.transcript.length + n + (calls.filter fun x => ¬ Recorded x.request).length ≤
      host'.transcript.length := by
  induction calls generalizing host n with
  | nil =>
      rw [foldlM_nil h]
      exact hstart
  | cons x calls ih =>
      obtain ⟨rsp, host₁, hx, hrest⟩ := exchanges_cons h
      obtain ⟨hhost, husb, hkept⟩ := exchange_transcripts (hsupported x List.mem_cons_self) hx
      have hlonger : host₁.transcript.length =
          host.transcript.length + x.request.length + rsp.length := by
        rw [hhost, List.length_append, List.length_append]
      have hrest' : ∀ y ∈ calls,
        Supported y.request := fun y hy => hsupported y (List.mem_cons_of_mem x hy)
      by_cases hrecords : Recorded x.request
      · have hboth : host₁.usb.transcript.length + n ≤ host₁.transcript.length := by
          rw [hlonger, husb hrecords, List.length_append, List.length_append]
          omega
        simpa [hrecords] using ih hrest' hboth hrest
      · have hlong : 2 ≤ x.request.length := by
          obtain ⟨fn, -, hfn⟩ := hsupported x List.mem_cons_self
          by_contra hshort
          rw [handlerOf_short (Nat.lt_of_not_le hshort)] at hfn
          cases hfn
        have hone : host₁.usb.transcript.length + (n + 1) ≤ host₁.transcript.length := by
          rw [hlonger, hkept hrecords]
          omega
        have htotal := ih hrest' hone hrest
        simp only [List.filter_cons, hrecords, not_false_eq_true, decide_true, if_true,
          List.length_cons]
        omega

theorem exchanges_same_iff (hsupported : ∀ x ∈ calls, Supported x.request)
    (h : exchanges E { usb := {} } calls = .ok host) :
    host.transcript = host.usb.transcript ↔ ∀ x ∈ calls, Recorded x.request := by
  constructor
  · intro hsame x hx
    by_contra hmissed
    have hlength : host.usb.transcript.length + 0 +
        (calls.filter fun x => ¬ Recorded x.request).length ≤
        host.transcript.length := exchanges_missed hsupported (Nat.zero_le _) h
    have hsome : 0 < (calls.filter fun x => ¬ Recorded x.request).length :=
      List.length_pos_of_mem (List.mem_filter.mpr ⟨hx, decide_eq_true hmissed⟩)
    rw [hsame] at hlength
    omega
  · intro hrecorded
    exact (exchanges_recorded hsupported hrecorded rfl h).symm

/-- The transcript the requester verifies over, without the response's signature. -/
theorem challenge_verified (hreq : handlerOf request = some .challenge)
    (h : exchange E d host request code recordA = .ok (rsp, host')) :
    host'.transcript.take (host'.transcript.length - 64) =
      host.transcript ++ request ++ challengeUnsigned E.digest d.nonce request := by
  obtain ⟨tag, st, hdispatch, -, -, htranscript, -⟩ := exchange_ok h
  have hlong : 2 ≤ request.length := by
    by_contra hshort
    rw [handlerOf_short (Nat.lt_of_not_le hshort)] at hreq
    cases hreq
  rw [dispatch_handler .challenge hlong hreq, Handler.call, handleChallenge_signs] at hdispatch
  cases hdispatch
  rw [htranscript, ← List.append_assoc, List.length_append, length_signSpdmHash, Nat.add_sub_cancel,
    List.take_left]

/-- The CHALLENGE hashes agree just when every exchange before was recorded by its
handler, where SHA-256 does not collide on what the two sides hash. -/
theorem challenge_hash_agrees (hsupported : ∀ x ∈ calls, Supported x.request)
    (hrun : exchanges E { usb := {} } calls = .ok host) (hreq : handlerOf request = some .challenge)
    (hchallenge : exchange E d host request spdmChallengeAuth recordA = .ok (rsp, host'))
    (hsha : E.crypto.NoCollision (host.transcript ++ request ++ challengeUnsigned E.digest d.nonce
      request) (host.usb.transcript ++ request ++ challengeUnsigned E.digest d.nonce request)) :
    E.crypto.sha256 (host'.transcript.take (host'.transcript.length - 64)) =
      host.usb.challengeTh E d request ↔
      ∀ x ∈ calls, Recorded x.request := by
  rw [challenge_verified hreq hchallenge, challengeTh, ← exchanges_same_iff hsupported hrun]
  constructor
  · intro hhash
    exact List.append_cancel_right (List.append_cancel_right (hsha hhash))
  · intro hsame
    rw [hsame]

/-- SHA-256 replaced by the identity, to tell inputs apart. -/
def plainDevice : Device := ⟨{ constantCrypto with sha256 := id }, zeros 8⟩

def sampleChallengeReq : Bytes := [spdmVer, spdmChallenge, 0, 0] ++ zeros 40

def digestsFirst : List ExchangeCall :=
  [⟨sampleDraw 0, getVersionReq, spdmVersion, true⟩,
    ⟨sampleDraw 1, getDigestsReq, spdmDigests, false⟩]

theorem digestsFirst_answered :
    ∃ host rsp host', exchanges plainDevice { usb := {} } digestsFirst = .ok host ∧
    exchange plainDevice (sampleDraw 2) host sampleChallengeReq spdmChallengeAuth false =
      .ok (rsp, host') :=
  ⟨_, _, _, rfl, rfl⟩

theorem challenge_hash_agrees_digests : ∃ host rsp host',
    exchanges plainDevice { usb := {} } digestsFirst = .ok host ∧
    exchange plainDevice (sampleDraw 2) host sampleChallengeReq spdmChallengeAuth false =
      .ok (rsp, host') ∧
    plainDevice.crypto.sha256 (host'.transcript.take (host'.transcript.length - 64)) =
      host.usb.challengeTh plainDevice (sampleDraw 2) sampleChallengeReq := by
  obtain ⟨host, rsp, host', hrun, hchallenge⟩ := digestsFirst_answered
  have hagrees := challenge_hash_agrees (by decide) hrun rfl hchallenge fun h => h
  exact ⟨host, rsp, host', hrun, hchallenge, hagrees.mpr (by decide)⟩

/-- A KEY_PAIR_INFO before the CHALLENGE is in the requester's transcript only. -/
theorem challenge_hash_agrees_keyPairInfo : ∃ host rsp host',
    exchanges plainDevice { usb := {} } [⟨sampleDraw 0, getVersionReq, spdmVersion, true⟩,
      ⟨sampleDraw 1, [spdmVer, spdmGetKeyPairInfo, 0, 0, 1], spdmKeyPairInfo, false⟩] = .ok host ∧
    exchange plainDevice (sampleDraw 2) host sampleChallengeReq spdmChallengeAuth false =
      .ok (rsp, host') ∧
    plainDevice.crypto.sha256 (host'.transcript.take (host'.transcript.length - 64)) ≠
      host.usb.challengeTh plainDevice (sampleDraw 2) sampleChallengeReq := by
  refine ⟨_, _, _, rfl, rfl, ?_⟩
  decide +kernel

end Linked

end LinkedsemiZephyr.Spdm
