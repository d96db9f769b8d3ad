import LinkedsemiZephyr.Lib.PartialRun
import LinkedsemiZephyr.Spdm.ResponderSteps
import Mathlib.Data.List.Nodup

/-! The nonces of the responder's `encode` calls. A session is determined by the open
handshake and the transcript of the FINISH that installed it; a repeated pair installs
the same keys with a zero counter. -/
namespace LinkedsemiZephyr.Spdm
open Octets SpdmPythonResponder

/-- The response key and the IV of the next `encode` of a responder's session. -/
def SecuredSession.nextNonce (k : SecuredSession) : Option (Bytes × Bytes) :=
  (aeadIv k.rspSalt k.rspSeq).toOption.map fun iv => (k.rspKey, iv)

namespace SpdmPythonResponder

/-- The request a step works on, and the state it finds. -/
def stepRequest (E : Device) (s : Loop) (x : Draw × Incoming) :
    Option ((Bytes × Bool) × SpdmPythonResponder) :=
  match x.2 with
  | .timeout _ => none
  | .message msg tag => (recvRequest E { s.responder with lastTag := tag } msg).toOption

/-- The `encode` call of a step: made when a secured request was dispatched, whether or
not the step then raises. -/
def stepCalls (E : Device) (s : Loop) (x : Draw × Incoming) : List (Bytes × Bytes) :=
  match stepRequest E s x with
  | none => []
  | some ((req, secured), st) =>
    match st.dispatch E x.1 req with
    | .error _ => []
    | .ok (_, st) => if secured then (st.keys.bind SecuredSession.nextNonce).toList else []

/-- All `encode` calls of a run, that of a last step that raises included. -/
def Loop.calls (E : Device) : Loop → List (Draw × Incoming) → List (Bytes × Bytes)
  | _, [] => []
  | s, x :: xs => stepCalls E s x ++
      match s.step E x with
      | .error _ => []
      | .ok s' => Loop.calls E s' xs

/-- What an accepted FINISH makes its session from: the open handshake, and the bytes
from `message_a` to the FINISH itself. -/
structure Installed where
  ke : KeState
  transcript : Bytes
  deriving DecidableEq

def Installed.session (E : Device) (i : Installed) : SecuredSession :=
  let thRsp := E.crypto.sha256 (i.transcript ++ finishRspHdr)
  let rsp := finishRspHdr ++ E.crypto.hmacSha256 i.ke.rspFinished thRsp
  let ak :=
    E.crypto.deriveApplicationKeys i.ke.handshakeSecret (E.crypto.sha256 (i.transcript ++ rsp))
  { sessionId := i.ke.sessionId, reqKey := ak.reqKey, reqSalt := ak.reqSalt
    rspKey := ak.rspKey, rspSalt := ak.rspSalt, role := .responder }

/-- The session a request installs, if it is a FINISH that `handle_finish` accepts. -/
def finishInput (E : Device) (st : SpdmPythonResponder) (req : Bytes) : Option Installed :=
  if handlerOf req = some .finish ∧ st.FinishAccepted E req then
    st.keState.map fun ke => ⟨ke, st.thPrefix E ++ ke.req ++ ke.rsp ++ req⟩
  else none

/-- What a run has installed last, and what it has answered secured requests with. -/
structure Monitor where
  current : Option Installed := none
  used : List Installed := []

def stepFinish (E : Device) (s : Loop) (x : Draw × Incoming) : Option Installed :=
  (stepRequest E s x).bind fun r => r.2.finishInput E r.1.1

def Monitor.next (E : Device) (g : Monitor) (s : Loop) (x : Draw × Incoming) : Monitor :=
  let current := (stepFinish E s x).or g.current
  { current, used := if (stepCalls E s x).isEmpty then g.used else current.toList ++ g.used }

/-- No accepted FINISH of the run repeats one whose session has answered a request. -/
def freshFinishes (E : Device) : Monitor → Loop → List (Draw × Incoming) → Bool
  | _, _, [] => true
  | g, s, x :: xs => (stepFinish E s x).all (fun i => !g.used.contains i) &&
      match s.step E x with
      | .error _ => true
      | .ok s' => freshFinishes E (g.next E s x) s' xs

/-- Where the ECDHE key stands in a KEY_EXCHANGE_RSP. -/
def rspXy (ke : KeState) : Bytes := slice ke.rsp 40 104

/-- A handshake as `handle_key_exchange` makes it. -/
def Genuine (E : Device) (ke : KeState) : Prop :=
  ke.rsp.length = 170 ∧ ∃ shared pre,
    ke.rspFinished =
      (E.crypto.deriveHandshakeKeys shared (E.crypto.sha256 (pre ++ ke.req ++ ke.rsp))).rspFinished

theorem keyExchangeState_genuine {E : Device} {d : Draw} {st : SpdmPythonResponder}
    {req shared : Bytes} :
    Genuine E (st.keyExchangeState E d req shared) :=
  ⟨length_keyExchangeRsp, shared, st.thPrefix E, rfl⟩

/-- Equal response keys come from the same handshake and transcript. -/
theorem installed_of_rspKey {E : Device} (inj : E.crypto.Injective) {K : List KeState}
    (hK : ∀ ke ∈ K, Genuine E ke) (hxy : (K.map rspXy).Nodup) {i j : Installed} (hi : i.ke ∈ K)
    (hj : j.ke ∈ K) (h : (i.session E).rspKey = (j.session E).rspKey) : i = j := by
  obtain ⟨-, hth2⟩ := inj.rspKey h
  have hstring := inj.sha256 hth2
  rw [← List.append_assoc, ← List.append_assoc] at hstring
  obtain ⟨htr, hfin, -⟩ := inj.append_hmac hstring
  have htr' : i.transcript = j.transcript := List.append_cancel_right htr
  obtain ⟨hli, si, pi, hfi⟩ := hK _ hi
  obtain ⟨hlj, sj, pj, hfj⟩ := hK _ hj
  rw [hfi, hfj] at hfin
  have hth1 := inj.sha256 (inj.rspFinished hfin)
  have hrsp : i.ke.rsp = j.ke.rsp := (List.append_inj' hth1 (by rw [hli, hlj])).2
  have hke : i.ke = j.ke := List.inj_on_of_nodup_map hxy hi hj (by rw [rspXy, rspXy, hrsp])
  cases i
  cases j
  simp only at hke htr'
  rw [hke, htr']

/-- What the run has used so far, against the state it is in. `K` are the handshakes it
has opened, `L` the nonces it has used. -/
structure Unused (E : Device) (g : Monitor) (K : List KeState) (L : List (Bytes × Bytes))
    (st : SpdmPythonResponder) : Prop where
  session : ∀ k ∈ st.keys, k.role = .responder ∧ ∃ i ∈ g.current, k.rspKey = (i.session E).rspKey
  below : ∀ k ∈ st.keys, ∀ p ∈ L, p.1 = k.rspKey → ∃ n < k.rspSeq, aeadIv k.rspSalt n = .ok p.2
  logged : ∀ p ∈ L, ∃ i ∈ g.used, p.1 = (i.session E).rspKey
  genuine : ∀ ke ∈ K, Genuine E ke
  handshake : ∀ ke ∈ st.keState, ke ∈ K
  current : ∀ i ∈ g.current, i.ke ∈ K
  used : ∀ i ∈ g.used, i.ke ∈ K
  nodup : L.Nodup

section Steps
variable {E : Device} {g : Monitor} {K : List KeState} {L : List (Bytes × Bytes)}
  {d : Draw} {st st' : SpdmPythonResponder} {req rsp : Bytes}

theorem Unused.start : Unused E {} [] [] {} where
  session k hk := by cases hk
  below k hk := by cases hk
  logged p hp := by cases hp
  genuine ke hke := by cases hke
  handshake ke hke := by cases hke
  current i hi := by cases hi
  used i hi := by cases hi
  nodup := List.nodup_nil

/-- Only the session and the open handshake matter. -/
theorem Unused.congr (h : Unused E g K L st) (hk : st'.keys = st.keys)
    (hs : st'.keState = st.keState) :
    Unused E g K L st' :=
  ⟨hk ▸ h.session, hk ▸ h.below, h.logged, h.genuine, hs ▸ h.handshake, h.current, h.used, h.nodup⟩

/-- A decoded request takes a request counter, never a response one. -/
theorem Unused.recv (h : Unused E g K L st) {msg : Bytes} {secured : Bool}
    (hr : st.recvRequest E msg = .ok ((req, secured), st')) : Unused E g K L st' := by
  rcases recvRequest_cases hr with ⟨-, rfl⟩ | ⟨k, k', b, body, -, -, hk, hd, rfl⟩
  · exact h
  · obtain ⟨hrole, i, hi, hkey⟩ := h.session k hk
    have hbump : k' = k.bump .requester := by
      rw [SecuredSession.decode_ok hd, hrole]
      rfl
    refine { h with session := ?_, below := ?_ }
    · rintro _ ⟨⟩
      rw [hbump]
      exact ⟨hrole, i, hi, hkey⟩
    · rintro _ ⟨⟩ p hp
      rw [hbump]
      exact h.below k hk p hp

theorem finishInput_accepted {ke : KeState} (hfn : handlerOf req = some .finish)
    (hk : st.keState = some ke) (he : slice req 4 36 = st.finishExpect E ke req) :
    st.finishInput E req = some ⟨ke, st.thPrefix E ++ ke.req ++ ke.rsp ++ req⟩ := by
  have hacc : handlerOf req = some .finish ∧ st.FinishAccepted E req := ⟨hfn, ke, hk, he⟩
  rw [finishInput, if_pos hacc, hk, Option.map_some]

/-- A request that installs nothing twice: a fresh FINISH starts a key no nonce was used
with, and a KEY_EXCHANGE opens a handshake unlike the others. -/
theorem Unused.dispatch (inj : E.crypto.Injective) (h : Unused E g K L st)
    (hxy : (K.map rspXy).Nodup) (hf : ∀ i ∈ st.finishInput E req, i ∉ g.used)
    (hd : st.dispatch E d req = .ok (rsp, st')) :
    ∃ K', (K' = K ∨ ∃ ke, K' = K ++ [ke] ∧ rspXy ke = (E.crypto.pubXy d.ephemeral).1) ∧
      Unused E { g with current := (st.finishInput E req).or g.current } K' L st' := by
  rcases dispatch_effect hd with ⟨hk, hs, hno⟩ | ⟨ke, hfn, hke, he, -, rfl⟩ | ⟨shared, hfn, -, rfl⟩
  · have hnone : st.finishInput E req = none := by rw [finishInput, if_neg hno]
    rw [hnone]
    exact ⟨K, .inl rfl, h.congr hk hs⟩
  · have hin := finishInput_accepted (E := E) hfn hke he
    have hmem : ke ∈ K := h.handshake ke hke
    rw [hin]
    refine ⟨K, .inl rfl, { h with session := ?_, below := ?_, current := ?_ }⟩
    · rintro _ ⟨⟩
      exact ⟨rfl, _, rfl, rfl⟩
    · rintro _ ⟨⟩ p hp hkey
      obtain ⟨j, hj, hjkey⟩ := h.logged p hp
      have heq :=
        installed_of_rspKey inj h.genuine hxy (i := ⟨ke, st.thPrefix E ++ ke.req ++ ke.rsp ++ req⟩)
          hmem (h.used j hj) (hkey.symm.trans hjkey)
      exact absurd (heq ▸ hj) (hf _ hin)
    · rintro _ ⟨⟩
      exact hmem
  · have hno : ¬ (handlerOf req = some .finish ∧ st.FinishAccepted E req) := by
      rintro ⟨hfin, -⟩
      rw [hfn] at hfin
      cases hfin
    have hnone : st.finishInput E req = none := by rw [finishInput, if_neg hno]
    rw [hnone]
    refine ⟨K ++ [st.keyExchangeState E d req shared], .inr ⟨_, rfl, keyExchangeRsp_xy⟩,
      { h with genuine := ?_, handshake := ?_, current := ?_, used := ?_ }⟩
    · intro ke hke
      rcases List.mem_append.mp hke with hke | hke
      · exact h.genuine ke hke
      · rw [List.mem_singleton.mp hke]
        exact keyExchangeState_genuine
    · rintro _ ⟨⟩
      exact List.mem_append_right _ List.mem_cons_self
    · intro i hi
      exact List.mem_append_left _ (h.current i hi)
    · intro i hi
      exact List.mem_append_left _ (h.used i hi)

/-- The next `encode` of the session uses a nonce not used before, and then no later one
will be that. -/
theorem Unused.encode (h : Unused E g K L st) {k : SecuredSession} (hk : st.keys = some k) :
    (L ++ k.nextNonce.toList).Nodup ∧
      (k.nextNonce.toList ≠ [] → Unused E { g with used := g.current.toList ++ g.used } K
        (L ++ k.nextNonce.toList) { st with keys := some (k.bump .responder) }) := by
  obtain ⟨hrole, i, hi, hkey⟩ := h.session k hk
  unfold SecuredSession.nextNonce
  cases hiv : aeadIv k.rspSalt k.rspSeq with
  | error e =>
      refine ⟨?_, fun hne => absurd rfl hne⟩
      change (L ++ []).Nodup
      rw [List.append_nil]
      exact h.nodup
  | ok iv =>
      have hfresh : (k.rspKey, iv) ∉ L := by
        intro hmem
        obtain ⟨n, hn, hniv⟩ := h.below k hk _ hmem rfl
        exact absurd (aeadIv_injective hniv hiv) (Nat.ne_of_lt hn)
      have hnodup : (L ++ [(k.rspKey, iv)]).Nodup := by
        rw [List.nodup_append]
        refine ⟨h.nodup, List.nodup_singleton _, ?_⟩
        intro p hp q hq
        rw [List.mem_singleton.mp hq]
        rintro rfl
        exact hfresh hp
      refine ⟨hnodup, fun _ => ?_⟩
      have hmem : i ∈ g.current.toList ++ g.used :=
        List.mem_append_left _ (Option.mem_toList.mpr hi)
      refine { h with session := ?_, below := ?_, logged := ?_, used := ?_, nodup := hnodup }
      · rintro _ ⟨⟩
        exact ⟨hrole, i, hi, hkey⟩
      · rintro _ ⟨⟩ p hp hpk
        rcases List.mem_append.mp hp with hp | hp
        · obtain ⟨n, hn, hniv⟩ := h.below k hk p hp hpk
          exact ⟨n, Nat.lt_succ_of_lt hn, hniv⟩
        · rw [List.mem_singleton.mp hp]
          exact ⟨k.rspSeq, Nat.lt_succ_self _, hiv⟩
      · intro p hp
        rcases List.mem_append.mp hp with hp | hp
        · obtain ⟨j, hj, hjk⟩ := h.logged p hp
          exact ⟨j, List.mem_append_right _ hj, hjk⟩
        · rw [List.mem_singleton.mp hp]
          exact ⟨i, hmem, hkey⟩
      · intro j hj
        rcases List.mem_append.mp hj with hj | hj
        · exact h.current j (Option.mem_toList.mp hj)
        · exact h.used j hj

theorem Unused.close (h : Unused E g K L st) : Unused E g K L (st.closeSession req) := by
  unfold closeSession
  split
  · refine { h with session := ?_, below := ?_, handshake := ?_ }
    · rintro _ ⟨⟩
    · rintro _ ⟨⟩
    · rintro _ ⟨⟩
  · exact h

/-- What answering a dispatched request does. -/
theorem Unused.answer (h : Unused E g K L st) (req rsp : Bytes) {secured : Bool}
    {calls : List (Bytes × Bytes)}
    (hcalls : calls = if secured then (st.keys.bind SecuredSession.nextNonce).toList else []) :
    (L ++ calls).Nodup ∧ ∀ {frame st'}, st.reply E rsp secured = .ok (frame, st') →
      Unused E { g with used := if calls.isEmpty then g.used else g.current.toList ++ g.used } K
        (L ++ calls) (st'.closeSession req) := by
  cases secured with
  | false =>
      rw [hcalls]
      refine ⟨by simpa using h.nodup, fun hr => ?_⟩
      rcases reply_state hr with ⟨-, rfl⟩ | ⟨k, k', inner, htrue, -⟩
      · simpa using h.close
      · cases htrue
  | true =>
      cases hk : st.keys with
      | none =>
          rw [hcalls, hk]
          refine ⟨by simpa using h.nodup, fun hr => ?_⟩
          rcases reply_state hr with ⟨hfalse, -⟩ | ⟨k, k', inner, -, hk', -⟩
          · cases hfalse
          · rw [hk] at hk'; cases hk'
      | some k =>
          replace hcalls : calls = k.nextNonce.toList := by rw [hcalls, hk]; rfl
          obtain ⟨hnodup, hnext⟩ := h.encode hk
          rw [hcalls]
          refine ⟨hnodup, fun hr => ?_⟩
          rcases reply_state hr with ⟨hfalse, -⟩ | ⟨k₁, k', inner, -, hk', he, rfl⟩
          · cases hfalse
          · obtain rfl : k = k₁ := Option.some.inj (hk.symm.trans hk')
            have hrole := (h.session k hk).1
            have hbump : k' = k.bump .responder := by rw [SecuredSession.encode_ok he, hrole]
            have hne : k.nextNonce.toList ≠ [] := by
              rcases k.encode_cases E.crypto rsp with ⟨he', -⟩ | ⟨e, he', -⟩ | ⟨iv, hiv, -⟩
              · rw [he] at he'; cases he'
              · rw [he] at he'; cases he'
              · rw [hrole] at hiv
                rw [SecuredSession.nextNonce, show aeadIv k.rspSalt k.rspSeq = .ok iv from hiv]
                exact List.cons_ne_nil _ _
            rw [if_neg (by simpa using hne), hbump]
            exact (hnext hne).close

theorem Loop.step_ok {s s' : Loop} {x : Draw × Incoming} (h : s.step E x = .ok s') :
    (∃ expired, x.2 = .timeout expired ∧ s' = s) ∨
      ∃ msg tag served, x.2 = .message msg tag ∧
        s.responder.serve E x.1 msg tag = .ok (served, s'.responder) := by
  unfold Loop.step at h
  split at h
  · next expired hx =>
      split at h
      · cases h; exact .inl ⟨expired, hx, rfl⟩
      · cases h
  · next msg tag hx =>
      cases hs : s.responder.serve E x.1 msg tag with
      | error e => rw [hs] at h; cases h
      | ok r => rw [hs] at h; cases h; exact .inr ⟨msg, tag, r.1, hx, hs⟩

/-- One step of the loop: its `encode` call is new, and the state it ends in again has
everything used so far behind it. -/
theorem Unused.step (inj : E.crypto.Injective) {s : Loop} {x : Draw × Incoming}
    (h : Unused E g K L s.responder) (hxy : (K.map rspXy).Nodup)
    (hf : ∀ i ∈ stepFinish E s x, i ∉ g.used) :
    (L ++ stepCalls E s x).Nodup ∧ ∀ s', s.step E x = .ok s' →
      ∃ K', (K' = K ∨ ∃ ke, K' = K ++ [ke] ∧ rspXy ke = (E.crypto.pubXy x.1.ephemeral).1) ∧
        Unused E (g.next E s x) K' (L ++ stepCalls E s x) s'.responder := by
  cases hreq : stepRequest E s x with
  | none =>
      have hcalls : stepCalls E s x = [] := by simp only [stepCalls, hreq]
      have hnext : g.next E s x = g := by
        simp only [Monitor.next, hcalls, stepFinish, hreq, Option.bind_none, Option.none_or,
          List.isEmpty_nil, if_true]
      rw [hcalls, hnext, List.append_nil]
      refine ⟨h.nodup, fun s' hs' => ?_⟩
      rcases Loop.step_ok hs' with ⟨expired, -, rfl⟩ | ⟨msg, tag, served, hx, hserve⟩
      · exact ⟨K, .inl rfl, h⟩
      · obtain ⟨st₁, -, -, hr, -⟩ := serve_ok hserve
        simp only [stepRequest, hx, hr, Except.toOption] at hreq
        cases hreq
  | some r =>
      obtain ⟨⟨req, secured⟩, st₁⟩ := r
      have hx : ∃ msg tag, x.2 = .message msg tag ∧
          recvRequest E { s.responder with lastTag := tag } msg = .ok ((req, secured), st₁) := by
        unfold stepRequest at hreq
        split at hreq
        · cases hreq
        · next msg tag hx =>
            cases hr : recvRequest E { s.responder with lastTag := tag } msg with
            | error e => rw [hr] at hreq; cases hreq
            | ok r => rw [hr] at hreq; cases hreq; exact ⟨msg, tag, hx, hr⟩
      obtain ⟨msg, tag, hx, hr⟩ := hx
      have h₀ : Unused E g K L { s.responder with lastTag := tag } := h.congr rfl rfl
      have h₁ : Unused E g K L st₁ := h₀.recv hr
      have hfin : stepFinish E s x = st₁.finishInput E req := by
        simp only [stepFinish, hreq, Option.bind_some]
      have hserved : ∀ s', s.step E x = .ok s' →
          ∃ rsp st₂ frame st₃, st₁.dispatch E x.1 req = .ok (rsp, st₂) ∧
          st₂.reply E rsp secured = .ok (frame, st₃) ∧ s'.responder = st₃.closeSession req := by
        intro s' hs'
        rcases Loop.step_ok hs' with ⟨expired, hx', -⟩ | ⟨msg', tag', served, hx', hserve⟩
        · rw [hx] at hx'; cases hx'
        · rw [hx] at hx'
          cases hx'
          obtain ⟨st₁', st₂, st₃, hr', hd, hf, -, hst⟩ := serve_ok hserve
          rw [hr] at hr'
          cases hr'
          exact ⟨_, st₂, _, st₃, hd, hf, hst⟩
      cases hd : st₁.dispatch E x.1 req with
      | error e =>
          have hcalls : stepCalls E s x = [] := by simp only [stepCalls, hreq, hd]
          rw [hcalls, List.append_nil]
          refine ⟨h.nodup, fun s' hs' => ?_⟩
          obtain ⟨rsp, st₂, frame, st₃, hd', -⟩ := hserved s' hs'
          rw [hd] at hd'
          cases hd'
      | ok r =>
          obtain ⟨rsp, st₂⟩ := r
          obtain ⟨K', hK', h₂⟩ := h₁.dispatch inj hxy (hfin ▸ hf) hd
          have hcalls : stepCalls E s x =
              if secured then (st₂.keys.bind SecuredSession.nextNonce).toList else [] := by
            simp only [stepCalls, hreq, hd]
          obtain ⟨hnodup, hnext⟩ := h₂.answer req rsp hcalls
          refine ⟨hnodup, fun s' hs' => ⟨K', hK', ?_⟩⟩
          obtain ⟨rsp', st₂', frame, st₃, hd', hf', hst⟩ := hserved s' hs'
          rw [hd] at hd'
          cases hd'
          rw [hst]
          simpa only [Monitor.next, hfin] using hnext hf'

end Steps

/-- No two `encode` calls of a run share key and IV when no accepted FINISH repeats one
whose session has already answered a request. -/
theorem Loop.calls_nodup {E : Device} (inj : E.crypto.Injective) {xs : List (Draw × Incoming)}
    {s : Loop} {g : Monitor} {K : List KeState} {L : List (Bytes × Bytes)}
    (h : Unused E g K L s.responder)
    (hxy : (K.map rspXy ++ xs.map fun x => (E.crypto.pubXy x.1.ephemeral).1).Nodup)
    (hf : freshFinishes E g s xs = true) : (L ++ Loop.calls E s xs).Nodup := by
  induction xs generalizing s g K L with
  | nil => simpa [Loop.calls] using h.nodup
  | cons x xs ih =>
      simp only [freshFinishes, Bool.and_eq_true] at hf
      have hfresh : ∀ i ∈ stepFinish E s x, i ∉ g.used := by
        intro i hi
        have hall := hf.1
        rw [Option.mem_def.mp hi] at hall
        simpa using hall
      obtain ⟨hnodup, hnext⟩ := h.step inj (hxy.sublist (List.sublist_append_left _ _)) hfresh
      rw [Loop.calls, ← List.append_assoc]
      cases hs : s.step E x with
      | error e => simpa only [List.append_nil] using hnodup
      | ok s' =>
          obtain ⟨K', hK', h'⟩ := hnext s' hs
          rw [hs] at hf
          refine ih h' ?_ hf.2
          rcases hK' with rfl | ⟨ke, rfl, hke⟩
          · exact hxy.sublist ((List.Sublist.refl _).append (List.sublist_cons_self _ _))
          · rw [List.map_append, List.append_assoc]
            simpa only [List.map_cons, List.map_nil, hke, List.singleton_append] using hxy

/-- Nonces of a whole run of a fresh responder. The ECDHE keys drawn are all different. -/
theorem responder_nonces_unique {E : Device} (inj : E.crypto.Injective)
    (xs : List (Draw × Incoming))
    (hdraws : (xs.map fun x => (E.crypto.pubXy x.1.ephemeral).1).Nodup)
    (hfresh : freshFinishes E {} { responder := {} } xs = true) :
    (Loop.calls E { responder := {} } xs).Nodup :=
  Loop.calls_nodup (K := []) (L := []) inj Unused.start hdraws hfresh

/-! A model of the injectivity assumptions with a handshake in it. Hashing is the
identity, derivation and HMAC are self-delimiting codes; HMAC codes are reversed, which
makes them suffix-free, and two of them are replaced by 32 octets that no code has. -/

def codedCrypto : Crypto :=
  { constantCrypto with
    sha256 := fun m => m
    hmacSha256 := fun k m => (delimit k ++ delimit m).reverse
    hkdfExpand := fun k i _ => delimit k ++ i
    pubXy := fun n => ⟨zeros 63 ++ [UInt8.ofNat n], rfl⟩
    exchange := fun _ _ => some [] }

def sampleKeState : KeState :=
  keyExchangeState ⟨codedCrypto, []⟩ (sampleDraw 0) {} sampleKeyExchange []

def sampleFinish : Bytes := [spdmVer, spdmFinish, 0, 0] ++ List.replicate 32 2

/-- The two HMAC inputs of the handshake whose values travel in a frame. -/
def sampleMark (k m : Bytes) : Option UInt8 :=
  let opened := sampleKeState.req ++ sampleKeState.rsp
  if k = sampleKeState.reqFinished ∧ m = opened ++ sampleFinish.take 4 then some 2
  else if k = sampleKeState.rspFinished ∧ m = opened ++ sampleFinish ++ finishRspHdr then some 3
  else none

def markCode (k m : Bytes) : Bytes :=
  match sampleMark k m with
  | some b => List.replicate 32 b
  | none => delimit k ++ delimit m

def markedCrypto : Crypto := { codedCrypto with hmacSha256 := fun k m => (markCode k m).reverse }

theorem sampleMark_injective {k m k' m' : Bytes} {b : UInt8} (h : sampleMark k m = some b)
    (h' : sampleMark k' m' = some b) : k = k' ∧ m = m' := by
  simp only [sampleMark] at h h'
  split at h
  · next hk =>
      cases h
      split at h'
      · next hk' => exact ⟨hk.1.trans hk'.1.symm, hk.2.trans hk'.2.symm⟩
      · split at h' <;> cases h'
  · split at h
    · next hk =>
        cases h
        split at h'
        · cases h'
        · split at h'
          · next hk' => exact ⟨hk.1.trans hk'.1.symm, hk.2.trans hk'.2.symm⟩
          · cases h'
    · cases h

theorem sampleMark_large {k m : Bytes} {b : UInt8} (h : sampleMark k m = some b) :
    b = 2 ∨ b = 3 := by
  simp only [sampleMark] at h
  split at h
  · cases h; exact .inl rfl
  · split at h <;> cases h
    exact .inr rfl

theorem delimit_head (k : Bytes) : ∃ b rest, delimit k = b :: rest ∧ (b = 0 ∨ b = 1) := by
  cases k with
  | nil => exact ⟨0, [], rfl, .inl rfl⟩
  | cons x k => exact ⟨1, x :: delimit k, rfl, .inr rfl⟩

/-- No code is a prefix of another. -/
theorem markCode_prefix {k m k' m' : Bytes} (h : markCode k m <+: markCode k' m') :
    k = k' ∧ m = m' := by
  have hhead : ∀ {b c : UInt8}, (b = 2 ∨ b = 3) → (c = 0 ∨ c = 1) → b ≠ c := by
    rintro b c (rfl | rfl) (rfl | rfl) <;> decide
  unfold markCode at h
  cases hm : sampleMark k m with
  | some b =>
      cases hm' : sampleMark k' m' with
      | some b' =>
          simp only [hm, hm'] at h
          have heq : List.replicate 32 b = List.replicate 32 b' := h.eq_of_length (by simp)
          obtain rfl : b = b' := by
            rw [List.replicate_succ, List.replicate_succ] at heq
            exact (List.cons.inj heq).1
          exact sampleMark_injective hm hm'
      | none =>
          obtain ⟨c, t, hc, hsmall⟩ := delimit_head k'
          simp only [hm, hm', hc, List.cons_append, List.replicate_succ, List.cons_prefix_cons] at h
          exact absurd h.1 (hhead (sampleMark_large hm) hsmall)
  | none =>
      cases hm' : sampleMark k' m' with
      | some b' =>
          obtain ⟨c, t, hc, hsmall⟩ := delimit_head k
          simp only [hm, hm', hc, List.cons_append, List.replicate_succ, List.cons_prefix_cons] at h
          exact absurd h.1.symm (hhead (sampleMark_large hm') hsmall)
      | none =>
          simp only [hm, hm'] at h
          obtain ⟨t, ht⟩ := h
          rw [List.append_assoc] at ht
          obtain ⟨hk, hrest⟩ := delimit_append_injective ht
          rw [← List.append_nil (delimit m')] at hrest
          exact ⟨hk, (delimit_append_injective hrest).1⟩

theorem markedCrypto_injective : markedCrypto.Injective where
  sha256 h := h
  hmac {k m k' m'} h := by
    have hcode : markCode k m = markCode k' m' := List.reverse_injective h
    exact markCode_prefix (hcode ▸ List.prefix_refl _)
  hkdf h := delimit_append_injective h
  hmac_suffix {k m k' m'} h := by
    obtain ⟨rfl, rfl⟩ := markCode_prefix (List.reverse_suffix.mp h)
    rfl

def markedDevice : Device := ⟨markedCrypto, []⟩

/-- A record that decodes to a request no handler knows, under any counter. -/
def sampleRecord : Bytes :=
  leBytes 4 0xFF0000FF ++ leBytes 2 0 ++ leBytes 2 21 ++
    SecuredSession.innerPlaintext [spdmVer, 0x00] ++
    zeros 16

/-- A handshake, a secured request, the same FINISH again, a secured request. -/
def replayedFinish : List (Draw × Incoming) :=
  [(sampleDraw 0, .message (mctpTypeSpdm :: sampleKeyExchange) 0),
    (sampleDraw 1, .message (mctpTypeSpdm :: sampleFinish) 1),
    (sampleDraw 2, .message (mctpTypeSecured :: sampleRecord) 2),
    (sampleDraw 3, .message (mctpTypeSpdm :: sampleFinish) 3),
    (sampleDraw 4, .message (mctpTypeSecured :: sampleRecord) 4)]

/-- The replayed FINISH installs the old keys with a zero counter. -/
theorem responder_nonces_repeat :
    ¬ ∀ (E : Device) (xs : List (Draw × Incoming)), E.crypto.Injective →
      (xs.map fun x => (E.crypto.pubXy x.1.ephemeral).1).Nodup →
      (Loop.calls E { responder := {} } xs).Nodup := by
  intro h
  have hdraws :
      (replayedFinish.map fun x => (markedDevice.crypto.pubXy x.1.ephemeral).1).Nodup := by
    decide +kernel
  have hcalls : ¬ (Loop.calls markedDevice { responder := {} } replayedFinish).Nodup := by
    decide +kernel
  exact hcalls (h markedDevice replayedFinish markedCrypto_injective hdraws)

/-- The same run without the replay. -/
def singleFinish : List (Draw × Incoming) := replayedFinish.take 3 ++ replayedFinish.drop 4

theorem responder_nonces_unique_single :
    (Loop.calls markedDevice { responder := {} } singleFinish).Nodup :=
  responder_nonces_unique markedCrypto_injective singleFinish (by decide +kernel)
    (by decide +kernel)

end SpdmPythonResponder

end LinkedsemiZephyr.Spdm
