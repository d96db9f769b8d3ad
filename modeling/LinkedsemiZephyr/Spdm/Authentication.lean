import LinkedsemiZephyr.Spdm.OpenLink

/-! What a verified signature proves to the requester: some run of the responder has answered a
request whose transcript is the requester's own, octet for octet. -/
namespace LinkedsemiZephyr.Spdm
open Octets PartialRun SpdmPythonResponder

/-- A request the responder has answered: the state it met and the draws of the answer. -/
structure Answer where
  st : SpdmPythonResponder
  draw : Draw
  req : Bytes

/-- The answers of one run, each when it is its turn. -/
def AnsweredIn (E : Device) (run : List (Draw × Incoming)) (a : Answer) : Prop :=
  ∃ before after msg tag s secured rsp st', run = before ++ (a.draw, .message msg tag) :: after ∧
    Loop.run E { responder := {} } before = .ok s ∧
    recvRequest E { s.responder with lastTag := tag } msg = .ok ((a.req, secured), a.st) ∧
    dispatch E a.draw a.st a.req = .ok (rsp, st')

/-- The answers of all runs with one device key. -/
def Answered (E : Device) (runs : List (List (Draw × Incoming))) (a : Answer) : Prop :=
  ∃ run ∈ runs, AnsweredIn E run a

/-- The digests the device key has signed in these runs. -/
inductive Signed (E : Device) (runs : List (List (Draw × Incoming))) : Bytes → Prop
  | keyExchange (a : Answer) (h : Answered E runs a) (hfn : handlerOf a.req = some .keyExchange) :
      Signed E runs (E.crypto.sha256 (spdm13SigningContext keyExchangeContext ++
        E.crypto.sha256 (a.st.thPrefix E ++ a.req ++ keyExchangeUnsigned E.crypto a.draw)))
  | challenge (a : Answer) (h : Answered E runs a) (hfn : handlerOf a.req = some .challenge) :
      Signed E runs
        (E.crypto.sha256 (spdm13SigningContext challengeContext ++ a.st.challengeTh E a.draw a.req))

/-- Nobody else can make what verifies with the device certificate. -/
def Unforgeable (E : Device) (runs : List (List (Draw × Incoming))) : Prop :=
  ∀ digest sig, E.crypto.verify digest sig = true → Signed E runs digest

variable {E : Device} {runs : List (List (Draw × Incoming))} {digest m : Bytes}

/-- Every signature a handler sends is over a digest that counts as signed. -/
theorem signature_counted {a : Answer} {rsp : Bytes} {st' : SpdmPythonResponder}
    (h : Answered E runs a) (hdispatch : dispatch E a.draw a.st a.req = .ok (rsp, st'))
    (hfn : handlerOf a.req = some .keyExchange ∨ handlerOf a.req = some .challenge) :
    ∃ digest unsigned, Signed E runs digest ∧
      rsp = unsigned ++ (E.crypto.sign a.draw.ecdsa digest).1 := by
  rcases dispatch_cases hdispatch with ⟨-, hnone⟩ | ⟨fn, hfn', hcall⟩
  · have hnone : handlerOf a.req = none := hnone.elim handlerOf_short id
    rw [hnone] at hfn
    rcases hfn with hfn | hfn
    · cases hfn
    · cases hfn
  · rcases hfn with hfn | hfn
    · obtain rfl := Option.some.inj (hfn'.symm.trans hfn)
      obtain ⟨shared, -, rfl, -⟩ := handleKeyExchange_ok hcall
      exact ⟨_, keyExchangeUnsigned E.crypto a.draw, .keyExchange a h hfn, rfl⟩
    · obtain rfl := Option.some.inj (hfn'.symm.trans hfn)
      rw [Handler.call, handleChallenge_signs] at hcall
      cases hcall
      exact ⟨_, challengeUnsigned E.digest a.draw.nonce a.req, .challenge a h hfn, rfl⟩

theorem length_signingContexts :
    (spdm13SigningContext keyExchangeContext).length =
      (spdm13SigningContext challengeContext).length := by
  decide +kernel

theorem signingContexts_apart :
    spdm13SigningContext keyExchangeContext ≠ spdm13SigningContext challengeContext := by
  decide +kernel

/-- The context tells the two signatures apart: this one is a KEY_EXCHANGE_RSP's. -/
theorem Signed.of_keyExchange (hsha : Function.Injective E.crypto.sha256)
    (h : Signed E runs
      (E.crypto.sha256 (spdm13SigningContext keyExchangeContext ++ E.crypto.sha256 m))) :
    ∃ a, Answered E runs a ∧ handlerOf a.req = some .keyExchange ∧
      a.st.thPrefix E ++ a.req ++ keyExchangeUnsigned E.crypto a.draw = m := by
  generalize hdigest : E.crypto.sha256
    (spdm13SigningContext keyExchangeContext ++ E.crypto.sha256 m) = digest at h
  cases h with
  | keyExchange a h hfn => exact ⟨a, h, hfn, (hsha (List.append_cancel_left (hsha hdigest))).symm⟩
  | challenge a h hfn =>
      exact absurd (List.append_inj (hsha hdigest) length_signingContexts).1 signingContexts_apart

theorem Signed.of_challenge (hsha : Function.Injective E.crypto.sha256)
    (h : Signed E runs
      (E.crypto.sha256 (spdm13SigningContext challengeContext ++ E.crypto.sha256 m))) :
    ∃ a, Answered E runs a ∧ handlerOf a.req = some .challenge ∧
      a.st.transcript ++ a.req ++ challengeUnsigned E.digest a.draw.nonce a.req = m := by
  generalize hdigest : E.crypto.sha256
    (spdm13SigningContext challengeContext ++ E.crypto.sha256 m) = digest at h
  cases h with
  | keyExchange a h hfn =>
      exact absurd (List.append_inj (hsha hdigest) length_signingContexts.symm).1
        signingContexts_apart.symm
  | challenge a h hfn => exact ⟨a, h, hfn, (hsha (List.append_cancel_left (hsha hdigest))).symm⟩

namespace SpdmHost

variable {σ : Type} {S : FrameSource σ} {own : Draw} {host host' : SpdmHost σ}
  {keys : SecuredSession}
  {certChainHash : Bytes} {reqSessionId : UInt16} {nonce : Sized 32} {reqCtx : Sized 8}

theorem keyExchangeUnsigned_xy (C : Crypto) (d : Draw) :
    slice (keyExchangeUnsigned C d) 40 104 = (C.pubXy d.ephemeral).1 := by
  rw [keyExchangeUnsigned, List.append_assoc]
  apply slice_middle
  · simp only [List.length_append, List.length_cons, List.length_nil, length_leBytes, d.nonce.2]
  · rw [(C.pubXy d.ephemeral).2]

/-- A key exchange that returns, over whatever link, has a signature the responder made for a
KEY_EXCHANGE with the same transcript. Without opaque data the responder's share, nonce and
session id are in it as received, and then the secret is the one of the two own shares. -/
theorem keyExchange_authentic (hsha : Function.Injective E.crypto.sha256)
    (hforge : Unforgeable E runs)
    (h : host.runKeyExchange S E.crypto own certChainHash reqSessionId = .ok (keys, host')) :
    ∃ keRsp shared finishRsp a,
      KeyExchanged E.crypto own reqSessionId certChainHash host host' keys keRsp shared finishRsp ∧
      Answered E runs a ∧ handlerOf a.req = some .keyExchange ∧
      a.st.thPrefix E ++ a.req ++ keyExchangeUnsigned E.crypto a.draw =
        host.thPrefix certChainHash ++ Linked.keyExchangeReq E.crypto own reqSessionId ++
          keRsp.take (keRsp.length - 64) ∧
      (keRsp.length = 170 →
        keRsp.take 106 = keyExchangeUnsigned E.crypto a.draw ∧
        E.crypto.dheP256Shared own.ephemeral (E.crypto.pubXy a.draw.ephemeral).1 = .ok shared ∧
        (a.req.length = 106 → a.req = Linked.keyExchangeReq E.crypto own reqSessionId ∧
          a.st.thPrefix E = host.thPrefix certChainHash)) := by
  obtain ⟨keRsp, shared, finishRsp, hex⟩ := runKeyExchange_ok h
  obtain ⟨a, hanswered, hfn, heq⟩ := (hforge _ _ hex.verified).of_keyExchange hsha
  refine ⟨keRsp, shared, finishRsp, a, hex, hanswered, hfn, heq, fun hlen => ?_⟩
  rw [hlen] at heq
  have htake : (keRsp.take (170 - 64)).length = 106 := by
    rw [List.length_take, hlen]
    rfl
  obtain ⟨hreq, hrsp⟩ := List.append_inj' heq (by rw [length_keyExchangeUnsigned, htake])
  refine ⟨hrsp.symm, ?_, fun hlen' => ?_⟩
  · have hxy : slice keRsp 40 104 = slice (keRsp.take 106) 40 104 := by
      rw [slice, slice, List.drop_take, List.take_take]
      rfl
    rw [← keyExchangeUnsigned_xy, hrsp, ← hxy]
    exact hex.secret
  · obtain ⟨hpre, hreq⟩ := List.append_inj' hreq (by rw [hlen', Linked.length_keyExchangeReq])
    exact ⟨hreq, hpre⟩

/-- SHA-256 replaced by the identity; just `digest` verifies. -/
def pinnedDevice (digest : Bytes) : Device :=
  ⟨{ constantCrypto with sha256 := id, verify := fun d _ => d == digest }, zeros 8⟩

/-- A link that brings each message in one packet. -/
def pinnedHost (messages : List Bytes) : SpdmHost (List Delivery) where
  usb := messages.map fun msg => .frame (usbFrame (buildMctp (mctpTypeSpdm :: msg) 0 false))

def pinnedReq : Bytes := Linked.keyExchangeReq constantCrypto (sampleDraw 0) 0x00FF

/-- What a responder just started signs for `pinnedReq`. -/
def pinnedDigest : Bytes :=
  spdm13SigningContext keyExchangeContext ++
    (zeros 8 ++ pinnedReq ++ keyExchangeUnsigned constantCrypto (sampleDraw 1))

def pinnedRun : List (Draw × Incoming) := [(sampleDraw 1, .message (mctpTypeSpdm :: pinnedReq) 0)]

theorem pinnedRun_unforgeable : Unforgeable (pinnedDevice pinnedDigest) [pinnedRun] := by
  intro digest sig h
  rw [eq_of_beq (show (digest == pinnedDigest) = true from h)]
  exact .keyExchange ⟨{}, sampleDraw 1, pinnedReq⟩
    ⟨pinnedRun, List.mem_singleton_self _, [], [], _, _, _, _, _, _, rfl, rfl, rfl, rfl⟩ rfl

/-- The responder's KEY_EXCHANGE_RSP and FINISH_RSP. -/
def pinnedRsps : List Bytes :=
  [SpdmPythonResponder.keyExchangeRsp (pinnedDevice []) (sampleDraw 1) {} pinnedReq,
    finishRspHdr ++ zeros 32]

theorem keyExchange_authentic_pinned : ∃ keys host' keRsp shared finishRsp a,
    KeyExchanged (pinnedDevice pinnedDigest).crypto (sampleDraw 0) 0x00FF (zeros 8)
      (pinnedHost pinnedRsps) host' keys
      keRsp shared finishRsp ∧ Answered (pinnedDevice pinnedDigest) [pinnedRun] a := by
  have hreturns : ((pinnedHost pinnedRsps).runKeyExchange queueSource
      (pinnedDevice pinnedDigest).crypto (sampleDraw 0)
      (zeros 8) 0x00FF).isOk = true := by decide +kernel
  cases hrun : (pinnedHost pinnedRsps).runKeyExchange queueSource (pinnedDevice pinnedDigest).crypto
    (sampleDraw 0)
      (zeros 8) 0x00FF with
  | error e =>
      rw [hrun] at hreturns
      cases hreturns
  | ok result =>
      obtain ⟨keRsp, shared, finishRsp, a, hex, hanswered, -⟩ :=
        keyExchange_authentic Function.injective_id pinnedRun_unforgeable hrun
      exact ⟨result.1, result.2, keRsp, shared, finishRsp, a, hex, hanswered⟩

/-- A CHALLENGE that passes, over whatever link, was answered by the responder with the requester's
own transcript; an answer of its size is the responder's, to a request that ends in this one. -/
theorem challenge_authentic (hsha : Function.Injective E.crypto.sha256)
    (hforge : Unforgeable E runs) (h : host.challenge S E.crypto nonce reqCtx = .ok host') :
    ∃ chal a, host'.transcript = host.transcript ++ challengeReq nonce reqCtx ++ chal ∧
      Answered E runs a ∧ handlerOf a.req = some .challenge ∧
      a.st.transcript ++ a.req ++ challengeUnsigned E.digest a.draw.nonce a.req =
        host'.transcript.take (host'.transcript.length - 64) ∧
      (chal.length = (challengeUnsigned E.digest a.draw.nonce a.req).length + 64 →
        chal.take (chal.length - 64) = challengeUnsigned E.digest a.draw.nonce a.req ∧
        (44 ≤ a.req.length → challengeReq nonce reqCtx <:+ a.req)) := by
  obtain ⟨chal, ht, hverified⟩ := challenge_ok h
  obtain ⟨a, hanswered, hfn, heq⟩ := (hforge _ _ hverified).of_challenge hsha
  refine ⟨chal, a, ht, hanswered, hfn, heq, fun hlen => ?_⟩
  have htake : host'.transcript.take (host'.transcript.length - 64) =
      host.transcript ++ challengeReq nonce reqCtx ++ chal.take (chal.length - 64) := by
    rw [ht, List.length_append, Nat.add_sub_assoc (by omega), List.take_append]
    congr 1
    · exact List.take_of_length_le (Nat.le_add_right _ _)
    · rw [Nat.add_sub_cancel_left]
  rw [htake] at heq
  obtain ⟨hreq, hrsp⟩ := List.append_inj' heq (by rw [List.length_take]; omega)
  refine ⟨hrsp.symm, fun hlong => ?_⟩
  have hlength : (challengeReq nonce reqCtx).length = 44 := by
    rw [challengeReq, List.length_append, List.length_append, nonce.2, reqCtx.2]
    rfl
  apply List.suffix_of_suffix_length_le (List.suffix_append host.transcript _)
  · rw [← hreq]
    exact List.suffix_append _ _
  · rw [hlength]
    exact hlong

def pinnedContext : Sized 8 := ⟨zeros 8, List.length_replicate⟩

def pinnedChallenge : Bytes := challengeReq (sampleDraw 1).nonce pinnedContext

def pinnedAuth : Bytes := challengeUnsigned (zeros 8) (sampleDraw 1).nonce pinnedChallenge

def pinnedChallengeDigest : Bytes :=
  spdm13SigningContext challengeContext ++ (pinnedChallenge ++ pinnedAuth)

def pinnedChallengeRun : List (Draw × Incoming) :=
  [(sampleDraw 1, .message (mctpTypeSpdm :: pinnedChallenge) 0)]

theorem pinnedChallengeRun_unforgeable :
    Unforgeable (pinnedDevice pinnedChallengeDigest) [pinnedChallengeRun] := by
  intro digest sig h
  rw [eq_of_beq (show (digest == pinnedChallengeDigest) = true from h)]
  exact .challenge ⟨{}, sampleDraw 1, pinnedChallenge⟩
    ⟨pinnedChallengeRun, List.mem_singleton_self _, [], [], _, _, _, _, _, _, rfl, rfl, rfl, rfl⟩
    rfl

theorem challenge_authentic_pinned :
    ∃ (host' : SpdmHost (List Delivery)) (chal : Bytes) (a : Answer),
    host'.transcript = challengeReq (sampleDraw 1).nonce pinnedContext ++ chal ∧
      Answered (pinnedDevice pinnedChallengeDigest) [pinnedChallengeRun] a ∧
      a.st.transcript ++ a.req ++ challengeUnsigned (pinnedDevice pinnedChallengeDigest).digest
        a.draw.nonce a.req =
        host'.transcript.take (host'.transcript.length - 64) := by
  have hreturns : ((pinnedHost [pinnedAuth ++ zeros 64]).challenge queueSource
      (pinnedDevice pinnedChallengeDigest).crypto (sampleDraw 1).nonce pinnedContext).isOk =
        true := by
    decide +kernel
  cases hrun : (pinnedHost [pinnedAuth ++ zeros 64]).challenge queueSource
      (pinnedDevice pinnedChallengeDigest).crypto (sampleDraw 1).nonce pinnedContext with
  | error e =>
      rw [hrun] at hreturns
      cases hreturns
  | ok host' =>
      obtain ⟨chal, a, ht, hanswered, -, heq, -⟩ :=
        challenge_authentic Function.injective_id pinnedChallengeRun_unforgeable hrun
      exact ⟨host', chal, a, ht, hanswered, heq⟩

end SpdmHost

end LinkedsemiZephyr.Spdm
