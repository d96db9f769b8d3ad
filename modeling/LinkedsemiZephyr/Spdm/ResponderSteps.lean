import LinkedsemiZephyr.Spdm.Responder

/-! What one request can do to the responder: only a FINISH that passes its check
installs a session, only KEY_EXCHANGE opens a handshake, and only END_SESSION closes. -/
namespace LinkedsemiZephyr.Spdm.SpdmPythonResponder
open Octets

variable {E : Device} {d : Draw} {st st' : SpdmPythonResponder} {req rsp : Bytes}

/-- The check of `handle_finish`. -/
def FinishAccepted (E : Device) (st : SpdmPythonResponder) (req : Bytes) : Prop :=
  ∃ ke ∈ st.keState, slice req 4 36 = st.finishExpect E ke req

instance (E : Device) (st : SpdmPythonResponder) (req : Bytes) :
    Decidable (st.FinishAccepted E req) :=
  inferInstanceAs (Decidable (∃ ke ∈ st.keState, slice req 4 36 = st.finishExpect E ke req))

theorem handleFinish_rejected (h : ¬ st.FinishAccepted E req) :
    st.handleFinish E req = .ok (spdmError 0x01 0, st) := by
  unfold handleFinish
  cases hk : st.keState with
  | none => rfl
  | some ke =>
      have hne : slice req 4 36 ≠ st.finishExpect E ke req := fun he => h ⟨ke, hk, he⟩
      simp only [if_pos hne]

theorem handleFinish_accepted {ke : KeState} (hk : st.keState = some ke)
    (he : slice req 4 36 = st.finishExpect E ke req) :
    st.handleFinish E req =
      .ok (st.finishRsp E ke req, { st with keys := some (st.finishSession E ke req) }) := by
  simp only [handleFinish, hk, he, ne_eq, not_true_eq_false, if_false]

theorem handleKeyExchange_ok (h : st.handleKeyExchange E d req = .ok (rsp, st')) :
    ∃ shared, E.crypto.dheP256Shared d.ephemeral (slice req 40 104) = .ok shared ∧
      rsp = st.keyExchangeRsp E d req ∧
      st' = { st with keState := some (st.keyExchangeState E d req shared) } := by
  unfold handleKeyExchange at h
  split at h
  · cases h
  · cases hs : E.crypto.dheP256Shared d.ephemeral (slice req 40 104) with
    | error e => rw [hs] at h; cases h
    | ok shared =>
        rw [hs] at h
        cases h
        exact ⟨shared, rfl, rfl, rfl⟩

theorem length_keyExchangeUnsigned (C : Crypto) (d : Draw) :
    (keyExchangeUnsigned C d).length = 106 := by
  simp only [keyExchangeUnsigned, List.length_append, List.length_cons, List.length_nil,
    length_leBytes, d.nonce.2, (C.pubXy d.ephemeral).2]

theorem length_signSpdmHash (C : Crypto) (nonce : Nat) (context th : Bytes) :
    (C.signSpdmHash nonce context th).1.length = 64 := (C.signSpdmHash nonce context th).2

theorem length_keyExchangeRsp : (st.keyExchangeRsp E d req).length = 170 := by
  simp only [keyExchangeRsp, List.length_append, length_keyExchangeUnsigned, length_signSpdmHash]

/-- Header and nonce, the ECDHE key, no opaque data, the signature. -/
theorem keyExchangeRsp_parts (E : Device) (d : Draw) (st : SpdmPythonResponder) (req : Bytes) :
    ∃ head sig : Bytes, head.length = 40 ∧
      st.keyExchangeRsp E d req =
        head ++ ((E.crypto.pubXy d.ephemeral).1 ++ (leBytes 2 0 ++ sig)) := by
  refine ⟨[spdmVer, spdmKeyExchangeRsp, 0, 0] ++ leBytes 2 rspSessionId ++ [0, 0] ++ d.nonce.1,
    (E.crypto.signSpdmHash d.ecdsa keyExchangeContext
      (E.crypto.sha256 (st.thPrefix E ++ req ++ keyExchangeUnsigned E.crypto d))).1, ?_, ?_⟩
  · simp only [List.length_append, List.length_cons, List.length_nil, length_leBytes, d.nonce.2]
  · simp only [keyExchangeRsp, keyExchangeUnsigned, List.append_assoc]

/-- The ECDHE key of a KEY_EXCHANGE_RSP stands at 40. -/
theorem keyExchangeRsp_xy :
    slice (st.keyExchangeRsp E d req) 40 104 = (E.crypto.pubXy d.ephemeral).1 := by
  obtain ⟨head, sig, hhead, hparts⟩ := st.keyExchangeRsp_parts E d req
  rw [hparts]
  exact slice_middle _ hhead (by rw [(E.crypto.pubXy d.ephemeral).2])

theorem keyExchangeRsp_sessionId :
    leNat (slice (st.keyExchangeRsp E d req) 4 6) = rspSessionId := by
  have hparts : st.keyExchangeRsp E d req =
      [spdmVer, spdmKeyExchangeRsp, 0, 0] ++
        (leBytes 2 rspSessionId ++ (st.keyExchangeRsp E d req).drop 6) := by
    simp only [keyExchangeRsp, keyExchangeUnsigned, List.append_assoc]
    rfl
  rw [hparts, slice_middle (i := 4) _ rfl (by rw [length_leBytes]), leNat_leBytes (by decide)]

theorem keyExchangeRsp_opaque : leNat (slice (st.keyExchangeRsp E d req) 104 106) = 0 := by
  obtain ⟨head, sig, hhead, hparts⟩ := st.keyExchangeRsp_parts E d req
  rw [hparts, ← List.append_assoc, slice_middle _ ?_ (by rw [length_leBytes])]
  · rfl
  · rw [List.length_append, hhead, (E.crypto.pubXy d.ephemeral).2]

/-- The other handlers touch neither the session nor the handshake. -/
theorem call_quiet {fn : Handler} (hf : fn ≠ .finish) (hk : fn ≠ .keyExchange)
    (h : fn.call E d st req = .ok (rsp, st')) : st'.keys = st.keys ∧ st'.keState = st.keState := by
  cases fn with
  | finish => exact absurd rfl hf
  | keyExchange => exact absurd rfl hk
  | version => cases h; exact ⟨rfl, rfl⟩
  | caps =>
      cases h
      simp only [record, recordA]
      split <;> exact ⟨rfl, rfl⟩
  | algs => cases h; exact ⟨rfl, rfl⟩
  | digests =>
      cases h
      simp only [record]
      split <;> exact ⟨rfl, rfl⟩
  | certificate =>
      simp only [Handler.call, handleCertificate] at h
      split at h
      · cases h
      · split at h
        · cases h
        · cases h; exact ⟨rfl, rfl⟩
  | challenge => cases h; exact ⟨rfl, rfl⟩
  | keyPairInfo => cases h; exact ⟨rfl, rfl⟩
  | setKeyPair =>
      simp only [Handler.call, handleSetKeyPair] at h
      split at h <;> cases h <;> exact ⟨rfl, rfl⟩
  | vendor =>
      simp only [Handler.call, handleVendor] at h
      split at h
      · cases h
      · cases h; exact ⟨rfl, rfl⟩
  | events =>
      simp only [Handler.call, handleEvents] at h
      split at h
      · cases h; exact ⟨rfl, rfl⟩
      · split at h
        · split at h <;> cases h
          exact ⟨rfl, rfl⟩
        · cases h; exact ⟨rfl, rfl⟩
  | endSession => cases h; exact ⟨rfl, rfl⟩

/-- The handlers that write the transcript. -/
def recorders : List Handler := [.version, .caps, .algs, .digests, .certificate, .challenge]

theorem call_recorded {fn : Handler} (hfn : fn ∈ recorders)
    (h : fn.call E d st req = .ok (rsp, st')) :
    st'.transcript = st.transcript ++ req ++ rsp := by
  cases fn with
  | version => cases h; rfl
  | caps =>
      cases h
      simp only [record, recordA]
      split <;> rfl
  | algs => cases h; rfl
  | digests =>
      cases h
      simp only [record]
      split <;> rfl
  | certificate =>
      simp only [Handler.call, handleCertificate] at h
      split at h
      · cases h
      · split at h
        · cases h
        · cases h; rfl
  | challenge => cases h; rfl
  | _ => exact absurd hfn (by decide)

/-- The fields that only those handlers write. -/
structure SameNegotiation (st st' : SpdmPythonResponder) : Prop where
  messageA : st'.messageA = st.messageA
  messageD : st'.messageD = st.messageD
  transcript : st'.transcript = st.transcript
  multiKey : st'.multiKey = st.multiKey
  reqFlags : st'.reqFlags = st.reqFlags

theorem call_unrecorded {fn : Handler} (hfn : fn ∉ recorders)
    (h : fn.call E d st req = .ok (rsp, st')) :
    SameNegotiation st st' := by
  cases fn with
  | keyPairInfo => cases h; exact ⟨rfl, rfl, rfl, rfl, rfl⟩
  | setKeyPair =>
      simp only [Handler.call, handleSetKeyPair] at h
      split at h <;> cases h <;> exact ⟨rfl, rfl, rfl, rfl, rfl⟩
  | keyExchange =>
      obtain ⟨shared, -, -, rfl⟩ := handleKeyExchange_ok h
      exact ⟨rfl, rfl, rfl, rfl, rfl⟩
  | finish =>
      by_cases ha : st.FinishAccepted E req
      · obtain ⟨ke, hk, he⟩ := ha
        simp only [Handler.call, handleFinish_accepted hk he] at h
        cases h
        exact ⟨rfl, rfl, rfl, rfl, rfl⟩
      · simp only [Handler.call, handleFinish_rejected ha] at h
        cases h
        exact ⟨rfl, rfl, rfl, rfl, rfl⟩
  | vendor =>
      simp only [Handler.call, handleVendor] at h
      split at h
      · cases h
      · cases h; exact ⟨rfl, rfl, rfl, rfl, rfl⟩
  | events =>
      simp only [Handler.call, handleEvents] at h
      split at h
      · cases h; exact ⟨rfl, rfl, rfl, rfl, rfl⟩
      · split at h
        · split at h <;> cases h
          exact ⟨rfl, rfl, rfl, rfl, rfl⟩
        · cases h; exact ⟨rfl, rfl, rfl, rfl, rfl⟩
  | endSession => cases h; exact ⟨rfl, rfl, rfl, rfl, rfl⟩
  | _ => exact absurd (by decide) hfn

/-- No code reads as 0, which no handler has. -/
theorem handlerOf_short (h : req.length < 2) : handlerOf req = none := by
  have hcode : req.getD 1 0 = 0 := by
    rw [List.getD_eq_getElem?_getD, List.getElem?_eq_none (by omega), Option.getD_none]
  rw [handlerOf, hcode]
  rfl

/-- `dispatch` answers an error itself or calls the handler of the code. -/
theorem dispatch_cases (h : st.dispatch E d req = .ok (rsp, st')) :
    (st' = st ∧ (req.length < 2 ∨ handlerOf req = none)) ∨
      ∃ fn, handlerOf req = some fn ∧ fn.call E d st req = .ok (rsp, st') := by
  unfold dispatch at h
  split at h
  · next hlen => cases h; exact .inl ⟨rfl, .inl hlen⟩
  · cases hfn : handlerOf req with
    | none => rw [hfn] at h; cases h; exact .inl ⟨rfl, .inr rfl⟩
    | some fn => rw [hfn] at h; exact .inr ⟨fn, rfl, h⟩

/-- What `dispatch` can do to the session and the handshake. -/
theorem dispatch_effect (h : st.dispatch E d req = .ok (rsp, st')) :
    (st'.keys = st.keys ∧ st'.keState = st.keState ∧
      ¬ (handlerOf req = some .finish ∧ st.FinishAccepted E req)) ∨
    (∃ ke, handlerOf req = some .finish ∧ st.keState = some ke ∧
      slice req 4 36 = st.finishExpect E ke req ∧ rsp = st.finishRsp E ke req ∧
      st' = { st with keys := some (st.finishSession E ke req) }) ∨
    (∃ shared, handlerOf req = some .keyExchange ∧
      E.crypto.dheP256Shared d.ephemeral (slice req 40 104) = .ok shared ∧
      st' = { st with keState := some (st.keyExchangeState E d req shared) }) := by
  rcases dispatch_cases h with ⟨rfl, hcode⟩ | ⟨fn, hfn, h⟩
  · refine .inl ⟨rfl, rfl, ?_⟩
    rintro ⟨hfin, -⟩
    have hnone : handlerOf req = none := hcode.elim handlerOf_short id
    rw [hnone] at hfin
    cases hfin
  · by_cases hf : fn = .finish
    · subst hf
      by_cases ha : st.FinishAccepted E req
      · obtain ⟨ke, hk, he⟩ := ha
        simp only [Handler.call, handleFinish_accepted hk he] at h
        cases h
        exact .inr (.inl ⟨ke, hfn, hk, he, rfl, rfl⟩)
      · simp only [Handler.call, handleFinish_rejected ha] at h
        cases h
        exact .inl ⟨rfl, rfl, fun hfin => ha hfin.2⟩
    · by_cases hke : fn = .keyExchange
      · subst hke
        obtain ⟨shared, hs, -, rfl⟩ := handleKeyExchange_ok h
        exact .inr (.inr ⟨shared, hfn, hs, rfl⟩)
      · obtain ⟨hkeys, hstate⟩ := call_quiet hf hke h
        refine .inl ⟨hkeys, hstate, ?_⟩
        rintro ⟨hfin, -⟩
        rw [hfn] at hfin
        exact hf (Option.some.inj hfin)

theorem sendFrame_state {body frame : Bytes} (h : st.sendFrame body = .ok (frame, st')) :
    st' = st := by
  unfold sendFrame at h
  split at h
  · cases h
  · cases h; rfl

/-- A clear reply changes nothing; a secured one takes the next response counter. -/
theorem reply_state {frame : Bytes} {secured : Bool}
    (h : st.reply E rsp secured = .ok (frame, st')) :
    (secured = false ∧ st' = st) ∨
      ∃ keys keys' inner, secured = true ∧ st.keys = some keys ∧
        keys.encode E.crypto rsp = .ok inner keys' ∧ st' = { st with keys := some keys' } := by
  unfold reply at h
  cases secured with
  | false => exact .inl ⟨rfl, sendFrame_state h⟩
  | true =>
      simp only [if_true] at h
      cases hk : st.keys with
      | none => rw [hk] at h; cases h
      | some keys =>
          simp only [hk] at h
          cases he : keys.encode E.crypto rsp with
          | error e keys' => rw [he] at h; cases h
          | ok inner keys' =>
              rw [he] at h
              exact .inr ⟨keys, keys', inner, rfl, rfl, he, sendFrame_state h⟩

theorem recvRequest_clear {b : UInt8} {body : Bytes} (h : b &&& 0x7F = mctpTypeSpdm) :
    st.recvRequest E (b :: body) = .ok ((body, false), st) := by
  have hne : mctpTypeSpdm ≠ mctpTypeSecured := by decide
  simp only [recvRequest, h, if_neg hne, ne_eq, not_true_eq_false, if_false]

/-- A request is the clear body, or what the session decodes. -/
theorem recvRequest_cases {msg : Bytes} {secured : Bool}
    (h : st.recvRequest E msg = .ok ((req, secured), st')) :
    (secured = false ∧ st' = st) ∨
      ∃ keys keys' b body, secured = true ∧ msg = b :: body ∧ st.keys = some keys ∧
        keys.decode E.crypto body = .ok req keys' ∧ st' = { st with keys := some keys' } := by
  unfold recvRequest at h
  split at h
  · cases h
  · next b body =>
      simp only at h
      split at h
      · cases hk : st.keys with
        | none => rw [hk] at h; cases h
        | some keys =>
            simp only [hk] at h
            cases hd : keys.decode E.crypto body with
            | error e keys' => rw [hd] at h; cases h
            | ok r keys' =>
                rw [hd] at h
                cases h
                exact .inr ⟨keys, keys', b, body, rfl, rfl, rfl, hd, rfl⟩
      · split at h
        · cases h
        · cases h; exact .inl ⟨rfl, rfl⟩

/-- The effect of END_SESSION's code, whatever the request was. -/
def closeSession (st : SpdmPythonResponder) (req : Bytes) : SpdmPythonResponder :=
  if req.getD 1 0 = spdmEndSession then { st with keys := none, keState := none } else st

theorem serve_ok {msg : Bytes} {tag : UInt8} {served : Served}
    (h : st.serve E d msg tag = .ok (served, st')) :
    ∃ st₁ st₂ st₃, recvRequest E { st with lastTag := tag } msg =
        .ok ((served.request, served.secured), st₁) ∧
      st₁.dispatch E d served.request = .ok (served.response, st₂) ∧
      st₂.reply E served.response served.secured = .ok (served.frame, st₃) ∧
      2 ≤ served.request.length ∧ st' = st₃.closeSession served.request := by
  unfold serve at h
  split at h
  · cases h
  · next request secured st₁ hr =>
      split at h
      · cases h
      · next response st₂ hd =>
          split at h
          · cases h
          · next frame st₃ hf =>
              split at h
              · cases h
              · next hlen =>
                  cases h
                  exact ⟨st₁, st₂, st₃, hr, hd, hf, Nat.le_of_not_lt hlen, rfl⟩

/-! Sample runs. -/

def sampleDevice : Device := ⟨constantCrypto, zeros 8⟩

def sampleDraw (n : Nat) : Draw := ⟨n, ⟨zeros 32, rfl⟩, 0⟩

def sampleKeyExchange : Bytes :=
  [spdmVer, spdmKeyExchange, 0, 0, 0xFF, 0, spdmEventAllPolicy, 0] ++ zeros 32 ++ zeros 64 ++ [0, 0]

end LinkedsemiZephyr.Spdm.SpdmPythonResponder
