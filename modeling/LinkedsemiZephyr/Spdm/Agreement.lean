import LinkedsemiZephyr.Spdm.Handshake

/-! Session-key agreement over any run of the requester: its messages between two key
exchanges leave the testers in step. -/
namespace LinkedsemiZephyr.Spdm
open Octets PartialRun SpdmPythonResponder

/-- A request for inside a session: it neither negotiates nor ends a handshake. -/
def InSession (req : Bytes) : Prop :=
  handlerOf req ∉ [some .version, some .caps, some .algs, some .finish]

instance (req : Bytes) : Decidable (InSession req) := inferInstanceAs (Decidable (_ ∉ _))

/-- One `exchange_secured` of a session. -/
structure SecuredRequest where
  draw : Draw
  request : Bytes
  expectedCode : UInt8
  inSession : InSession request

/-- `run_key_exchange`, exchanges in the session, `end_session`; the draws of both sides. -/
structure Round where
  own : Draw
  keyExchange : Draw
  finish : Draw
  reqSessionId : UInt16
  secured : List SecuredRequest
  close : Draw

/-- What the requester sends once it has negotiated. -/
inductive TesterAction where
  | digests (d : Draw)
  | certificate (d : Draw) (offset length : UInt16)
  | challenge (d : Draw) (nonce : Sized 32) (reqCtx : Sized 8)
  | keyPairInfo (d : Draw) (keyPairId : UInt8)
  | setKeyPairInfo (d : Draw) (info : Linked.KeyPairInfo)
  | round (r : Round)

/-- `run_spdm_handshake` between two messages: its host and the digest in hand. -/
structure Tester where
  host : Linked
  digest : Bytes

namespace Linked

/-- GET_VERSION to the first GET_DIGESTS of `run_spdm_handshake`. -/
def setup (E : Device) (d : Draw) (host : Linked) : Except PyErr Tester := do
  let host ← negotiate E d host
  let (digest, host) ← getSlot0Digest E d host
  .ok ⟨host, digest⟩

def securedStep (E : Device) (s : SecuredSession × Linked) (x : SecuredRequest) :
    Except PyErr (SecuredSession × Linked) := do
  let (_, keys, host) ← exchangeSecured E x.draw s.2 s.1 x.request x.expectedCode
  .ok (keys, host)

def runRound (E : Device) (t : Tester) (r : Round) : Except PyErr Linked := do
  let s ← runKeyExchange E r.own r.keyExchange r.finish t.host t.digest r.reqSessionId
  let (keys, host) ← r.secured.foldlM (securedStep E) s
  let (_, host) ← endSession E r.close host keys
  .ok host

/-- An exception ends the requester, so a failed action has no state. -/
def act (E : Device) (t : Tester) : TesterAction → Except PyErr Tester
  | .digests d => do
    let (digest, host) ← getSlot0Digest E d t.host
    .ok ⟨host, digest⟩
  | .certificate d offset length => do
    let (_, host) ← getCertificate E d t.host offset length
    .ok { t with host }
  | .challenge d nonce reqCtx => do
    let host ← challenge E d t.host nonce reqCtx
    .ok { t with host }
  | .keyPairInfo d keyPairId => do
    let (_, host) ← getKeyPairInfo E d t.host keyPairId
    .ok { t with host }
  | .setKeyPairInfo d info => do
    let host ← setKeyPairInfoChange E d t.host info
    .ok { t with host }
  | .round r => do
    let host ← runRound E t r
    .ok { t with host }

variable {E : Device} {d : Draw} {host host' : Linked} {request rsp : Bytes} {code : UInt8}

theorem not_negotiating (fn : Handler) (hfn : handlerOf request = some fn)
    (hmem : fn ∉ [Handler.version, .caps, .algs]) : ¬ Negotiating request := by
  intro h
  rw [Negotiating, hfn] at h
  exact hmem (by simpa using h)

/-- A clear exchange of any other request keeps the testers in step. -/
theorem InStep.exchange (hs : InStep host) (hreq : ¬ Negotiating request)
    (h : exchange E d host request code false = .ok (rsp, host')) : InStep host' := by
  obtain ⟨tag, st, hd, -, husb, -, ha, hmd⟩ := exchange_ok h
  obtain ⟨hA, hD⟩ := dispatch_negotiation hreq hd
  have hne : host.usb.messageD ≠ [] := hs.messageD ▸ hs.digested
  refine ⟨?_, ?_, hmd ▸ hs.digested⟩
  · rw [husb, closeSession_messageA, hA]
    exact ha.trans hs.messageA
  · rw [husb, closeSession_messageD, hD hne]
    exact hmd.trans hs.messageD

theorem InStep.getSlot0Digest (hl : E.crypto.FixedLengths) {digest : Bytes} (hs : InStep host)
    (h : getSlot0Digest E d host = .ok (digest, host')) : InStep host' ∧ digest = E.digest := by
  unfold Linked.getSlot0Digest at h
  obtain ⟨⟨rsp, host₁⟩, hx, h⟩ := of_bind_ok h
  have hs₁ := hs.exchange (not_negotiating .digests rfl (by decide)) hx
  obtain ⟨tag, st, hd, -⟩ := exchange_ok hx
  rw [dispatch_handler .digests (by decide) (by decide)] at hd
  cases hd
  have hne : host₁.messageD.isEmpty = false := List.isEmpty_eq_false_iff.mpr hs₁.digested
  obtain ⟨-, -, h⟩ := of_bind_ok h
  obtain ⟨-, -, h⟩ := of_bind_ok h
  obtain ⟨-, -, h⟩ := of_bind_ok h
  obtain ⟨-, -, h⟩ := of_bind_ok h
  obtain ⟨-, -, h⟩ := of_bind_ok h
  obtain ⟨-, -, h⟩ := of_bind_ok h
  obtain ⟨-, -, h⟩ := of_bind_ok h
  simp only [hne, Bool.false_eq_true, if_false, Except.ok.injEq, Prod.mk.injEq] at h
  obtain ⟨rfl, rfl⟩ := h
  exact ⟨hs₁, slice_digestsRsp hl _ _⟩

theorem InStep.challenge {nonce : Sized 32} {reqCtx : Sized 8} (hs : InStep host)
    (h : challenge E d host nonce reqCtx = .ok host') : InStep host' := by
  unfold Linked.challenge at h
  obtain ⟨⟨chal, host₁⟩, hx, h⟩ := of_bind_ok h
  have hs₁ := hs.exchange (not_negotiating .challenge rfl (by decide)) hx
  obtain ⟨-, -, h⟩ := of_bind_ok h
  obtain ⟨-, -, h⟩ := of_bind_ok h
  cases h
  exact hs₁

theorem InStep.getKeyPairInfo {keyPairId : UInt8} {info : KeyPairInfo} (hs : InStep host)
    (h : getKeyPairInfo E d host keyPairId = .ok (info, host')) : InStep host' := by
  unfold Linked.getKeyPairInfo at h
  obtain ⟨⟨rsp, host₁⟩, hx, h⟩ := of_bind_ok h
  have hs₁ := hs.exchange (not_negotiating .keyPairInfo rfl (by decide)) hx
  obtain ⟨-, -, h⟩ := of_bind_ok h
  obtain ⟨-, -, h⟩ := of_bind_ok h
  obtain ⟨-, -, h⟩ := of_bind_ok h
  obtain ⟨-, -, h⟩ := of_bind_ok h
  cases h
  exact hs₁

theorem InStep.setKeyPairInfoChange {info : KeyPairInfo} (hs : InStep host)
    (h : setKeyPairInfoChange E d host info = .ok host') : InStep host' := by
  unfold Linked.setKeyPairInfoChange at h
  obtain ⟨⟨rsp, host₁⟩, hx, h⟩ := of_bind_ok h
  cases h
  exact hs.exchange (not_negotiating .setKeyPair rfl (by decide)) hx

/-- What the responder still holds of a session is the requester's, at the same counters. -/
def Lockstep (keys : SecuredSession) (st : SpdmPythonResponder) : Prop :=
  keys.role = .requester ∧ ∀ own ∈ st.keys, own = { keys with role := .responder }

theorem exchangeSecured_ok {keys keys' : SecuredSession}
    (h : exchangeSecured E d host keys request code = .ok (rsp, keys', host')) :
    ∃ inner keys₁ tag served, keys.encode E.crypto request = .ok inner keys₁ ∧
      host.usb.serve E d (mctpTypeSecured :: inner) tag = .ok (served, host'.usb) ∧
      keys' = keys₁.bump keys₁.role.peer ∧ host'.messageA = host.messageA ∧
      host'.messageD = host.messageD := by
  unfold exchangeSecured at h
  split at h
  · cases h
  · next inner keys₁ he =>
      obtain ⟨⟨msg, host₁⟩, ht, h⟩ := of_bind_ok h
      obtain ⟨tag, served, hserve, rfl, -, ha, hd⟩ := transact_ok ht
      obtain ⟨-, -, h⟩ := of_bind_ok h
      split at h
      · cases h
      · next r keys₂ hdec =>
          obtain ⟨-, -, h⟩ := of_bind_ok h
          cases h
          exact ⟨inner, keys₁, tag, served, he, hserve, SecuredSession.decode_ok hdec, ha, hd⟩

theorem recvRequest_secured {st st' : SpdmPythonResponder} {inner req : Bytes} {secured : Bool}
    (h : st.recvRequest E (mctpTypeSecured :: inner) = .ok ((req, secured), st')) :
    ∃ own own', secured = true ∧ st.keys = some own ∧ own.decode E.crypto inner = .ok req own' ∧
      st' = { st with keys := some own' } := by
  rcases recvRequest_cases h with ⟨rfl, -⟩ | ⟨own, own', b, body, hsec, hmsg, hk, hd, hst⟩
  · have htype : mctpTypeSecured &&& 0x7F = mctpTypeSecured := by decide
    simp only [recvRequest, htype, if_true] at h
    split at h
    · cases h
    · split at h <;> cases h
  · cases hmsg
    exact ⟨own, own', hsec, hk, hd, hst⟩

theorem decode_mirror {C : Crypto} (hC : C.AeadCorrect) {keys keys₁ : SecuredSession}
    {inner : Bytes} (hrole : keys.role = .requester)
    (he : keys.encode C request = .ok inner keys₁) :
    { keys with role := .responder }.decode C inner =
      .ok request ({ keys with role := .responder }.bump .requester) := by
  rcases keys.encode_cases C request with ⟨he', -⟩ | ⟨e, he', -⟩ | ⟨iv, hiv, hlen, he'⟩
  · rw [he'] at he; cases he
  · rw [he'] at he; cases he
  · rw [he'] at he
    cases he
    rw [hrole] at hiv ⊢
    exact SecuredSession.decode_sealRecord (b := { keys with role := .responder }) hC
      rfl rfl hiv hlen

/-- The responder opens a record of a session in lockstep, and answers in lockstep. -/
theorem Lockstep.serve (hC : E.crypto.AeadCorrect) {keys keys₁ : SecuredSession}
    {st st' : SpdmPythonResponder} {inner : Bytes} {tag : UInt8} {served : Served}
    (hlock : Lockstep keys st) (he : keys.encode E.crypto request = .ok inner keys₁)
    (hreq : InSession request)
    (h : st.serve E d (mctpTypeSecured :: inner) tag = .ok (served, st')) :
    Lockstep (keys₁.bump keys₁.role.peer) st' ∧ st'.messageA = st.messageA ∧
      (st.messageD ≠ [] → st'.messageD = st.messageD) := by
  obtain ⟨hrole, hown⟩ := hlock
  have hkeys₁ : keys₁ = keys.bump .requester := hrole ▸ SecuredSession.encode_ok he
  obtain ⟨st₁, st₂, st₃, hr, hd, hf, -, rfl⟩ := serve_ok h
  obtain ⟨own, own', hsec, hk, hdec, rfl⟩ := recvRequest_secured hr
  rw [hown own hk, decode_mirror hC hrole he] at hdec
  simp only [EStateM.Result.ok.injEq] at hdec
  obtain ⟨hreq', rfl⟩ := hdec
  rw [← hreq'] at hd ⊢
  have hneg : ¬ Negotiating request := fun hmem =>
    hreq (List.mem_append_left [some Handler.finish] hmem)
  have hkeep := dispatch_negotiation hneg hd
  have hkeys₂ : st₂.keys = some ({ keys with role := .responder }.bump .requester) := by
    rcases dispatch_effect hd with ⟨hk₂, -, -⟩ | ⟨ke, hfin, -⟩ | ⟨shared, -, -, rfl⟩
    · exact hk₂
    · exact absurd (by rw [hfin]; decide) hreq
    · rfl
  have hst₃ : st₃ = { st₂ with
      keys := some (({ keys with role := .responder }.bump .requester).bump .responder) } := by
    rcases reply_state hf with ⟨hclear, -⟩ | ⟨k, k', inner', -, hk₂, henc, rfl⟩
    · rw [hsec] at hclear
      cases hclear
    · rw [hkeys₂] at hk₂
      cases hk₂
      rw [SecuredSession.encode_ok henc]
      rfl
  subst hst₃
  rw [hkeys₁]
  refine ⟨⟨by rw [SecuredSession.bump_role, SecuredSession.bump_role, hrole], ?_⟩, ?_,
    fun hne => ?_⟩
  · intro k hk
    unfold closeSession at hk
    split at hk
    · cases hk
    · cases hk
      rw [SecuredSession.bump_role, hrole]
      rfl
  · rw [closeSession_messageA]
    exact hkeep.1
  · rw [closeSession_messageD]
    exact hkeep.2 hne

/-- A secured exchange keeps the sessions in lockstep and the testers in step. -/
theorem InStep.exchangeSecured (hC : E.crypto.AeadCorrect) {keys keys' : SecuredSession}
    (hs : InStep host) (hlock : Lockstep keys host.usb) (hreq : InSession request)
    (h : exchangeSecured E d host keys request code = .ok (rsp, keys', host')) :
    InStep host' ∧ Lockstep keys' host'.usb := by
  obtain ⟨inner, keys₁, tag, served, he, hserve, rfl, ha, hd⟩ := exchangeSecured_ok h
  obtain ⟨hlock', hA, hD⟩ := hlock.serve hC he hreq hserve
  have hne : host.usb.messageD ≠ [] := hs.messageD ▸ hs.digested
  exact ⟨⟨by rw [ha, hA, hs.messageA], by rw [hd, hD hne, hs.messageD], hd ▸ hs.digested⟩, hlock'⟩

theorem securedStep_lockstep (hC : E.crypto.AeadCorrect) {s s' : SecuredSession × Linked}
    {x : SecuredRequest} (hs : InStep s.2 ∧ Lockstep s.1 s.2.usb) (h : securedStep E s x = .ok s') :
    InStep s'.2 ∧ Lockstep s'.1 s'.2.usb := by
  unfold securedStep at h
  obtain ⟨⟨rsp, keys, host⟩, hx, h⟩ := of_bind_ok h
  cases h
  exact hs.1.exchangeSecured hC hs.2 x.inSession hx

theorem Agreed.lockstep {keys : SecuredSession} {st : SpdmPythonResponder} (h : Agreed keys st) :
    Lockstep keys st := by
  refine ⟨h.role, fun own hown => ?_⟩
  rw [h.responder] at hown
  cases hown
  rfl

theorem runRound_inStep (hl : E.crypto.FixedLengths) (hc : E.crypto.Commutes)
    (hv : E.crypto.VerifiesOwn) (hC : E.crypto.AeadCorrect) {t : Tester} {r : Round}
    (hs : InStep t.host) (hdig : t.digest = E.digest) (h : runRound E t r = .ok host') :
    InStep host' := by
  unfold runRound at h
  obtain ⟨⟨keys, host₁⟩, hke, h⟩ := of_bind_ok h
  obtain ⟨⟨keys₂, host₂⟩, hsec, h⟩ := of_bind_ok h
  obtain ⟨⟨keys₃, host₃⟩, hend, h⟩ := of_bind_ok h
  cases h
  obtain ⟨keys', host', hke', hagree, hs₁⟩ :=
    runKeyExchange_ok hl hc hv hs r.own r.keyExchange r.finish r.reqSessionId
  rw [hdig, hke'] at hke
  cases hke
  obtain ⟨hs₂, hlock₂⟩ := PartialRun.invariant
    (P := fun s : SecuredSession × Linked => InStep s.2 ∧ Lockstep s.1 s.2.usb)
    (securedStep_lockstep hC) ⟨hs₁, hagree.lockstep⟩ hsec
  unfold endSession at hend
  obtain ⟨⟨rsp, keys₄, host₄⟩, hx, hend⟩ := of_bind_ok hend
  cases hend
  exact (hs₂.exchangeSecured hC hlock₂ (by decide) hx).1

/-- Every action keeps the testers in step and the digest in hand. -/
theorem act_inStep (hl : E.crypto.FixedLengths) (hc : E.crypto.Commutes) (hv : E.crypto.VerifiesOwn)
    (hC : E.crypto.AeadCorrect) {t t' : Tester} {a : TesterAction}
    (hs : InStep t.host ∧ t.digest = E.digest) (h : act E t a = .ok t') :
    InStep t'.host ∧ t'.digest = E.digest := by
  cases a with
  | digests d =>
      obtain ⟨⟨digest, host⟩, hx, h⟩ := of_bind_ok h
      cases h
      exact hs.1.getSlot0Digest hl hx
  | certificate d offset length =>
      obtain ⟨⟨rsp, host⟩, hx, h⟩ := of_bind_ok h
      cases h
      exact ⟨hs.1.exchange (not_negotiating .certificate rfl (by decide)) hx, hs.2⟩
  | challenge d nonce reqCtx =>
      obtain ⟨host, hx, h⟩ := of_bind_ok h
      cases h
      exact ⟨hs.1.challenge hx, hs.2⟩
  | keyPairInfo d keyPairId =>
      obtain ⟨⟨info, host⟩, hx, h⟩ := of_bind_ok h
      cases h
      exact ⟨hs.1.getKeyPairInfo hx, hs.2⟩
  | setKeyPairInfo d info =>
      obtain ⟨host, hx, h⟩ := of_bind_ok h
      cases h
      exact ⟨hs.1.setKeyPairInfoChange hx, hs.2⟩
  | round r =>
      obtain ⟨host, hx, h⟩ := of_bind_ok h
      cases h
      exact ⟨runRound_inStep hl hc hv hC hs.1 hs.2 hx, hs.2⟩

/-- Testers whose negotiations start level end the setup in step. -/
theorem setup_ok (hl : E.crypto.FixedLengths) (d : Draw) (host : Linked)
    (ha : host.messageA = host.usb.messageA) (hd : host.messageD = [])
    (hud : host.usb.messageD = []) (husage : host.usb.usage &&& spdmKeyUsageKeyEx ≠ 0) :
    ∃ t, setup E d host = .ok t ∧ InStep t.host ∧ t.digest = E.digest ∧
      (host.transcript = host.usb.transcript → t.host.transcript = t.host.usb.transcript) := by
  obtain ⟨host₁, h₁, hn⟩ := negotiate_ok E d host
  obtain ⟨host₂, h₂, hs, htr, hutr⟩ :=
    getSlot0Digest_ok (d := d) hl hn.multiKey (by rw [hn.usage]; exact husage)
      (hn.messageD.trans hd) (hn.usbMessageD.trans hud) (by rw [hn.messageA, hn.usbMessageA, ha])
  refine ⟨⟨host₂, E.digest⟩, ?_, hs, rfl, fun heq => ?_⟩
  · rw [setup, h₁, ok_bind, h₂, ok_bind]
  · rw [htr, hutr, hn.transcript, hn.usbTranscript, heq]

/-- After setup and any actions a key exchange passes the checks of both sides, and both
hold the same session with unused counters. -/
theorem sessionKeys_agree (hl : E.crypto.FixedLengths) (hc : E.crypto.Commutes)
    (hv : E.crypto.VerifiesOwn) (hC : E.crypto.AeadCorrect) (d : Draw) :
    ∃ t, setup E d { usb := {} } = .ok t ∧
      ∀ (actions : List TesterAction) (t' : Tester), actions.foldlM (act E) t = .ok t' →
        ∀ (own dk df : Draw) (reqSessionId : UInt16), ∃ keys host,
          runKeyExchange E own dk df t'.host t'.digest reqSessionId = .ok (keys, host) ∧
            Agreed keys host.usb := by
  obtain ⟨t, ht, hs, hdig, -⟩ := setup_ok hl d { usb := {} } rfl rfl rfl (by decide)
  refine ⟨t, ht, fun actions t' hrun own dk df reqSessionId => ?_⟩
  obtain ⟨hs', hdig'⟩ :=
    PartialRun.invariant (P := fun t : Tester => InStep t.host ∧ t.digest = E.digest)
      (act_inStep hl hc hv hC) ⟨hs, hdig⟩ hrun
  obtain ⟨keys, host, hke, hagree, -⟩ := runKeyExchange_ok hl hc hv hs' own dk df reqSessionId
  exact ⟨keys, host, by rw [hdig', hke], hagree⟩

theorem vendorDefined_inSession :
    InSession (vendorDefined spdmVendorDefinedRequest (ascii "1111")) := by
  decide

/-- Certificate, challenge, key-pair requests, and a round with a ping. -/
def sampleActions : List TesterAction :=
  [.certificate (sampleDraw 1) 0 200, .challenge (sampleDraw 2) (sampleDraw 2).nonce ⟨zeros 8, rfl⟩,
    .keyPairInfo (sampleDraw 3) 1, .setKeyPairInfo (sampleDraw 4) ⟨1, 3, 8, 1⟩,
    .round
      { own := sampleDraw 5, keyExchange := sampleDraw 6, finish := sampleDraw 7,
        reqSessionId := 0x00FF
        secured := [⟨sampleDraw 8, vendorDefined spdmVendorDefinedRequest (ascii "1111"),
          spdmVendorDefinedResponse, vendorDefined_inSession⟩]
        close := sampleDraw 9 },
    .digests (sampleDraw 10)]

theorem sessionKeys_agree_second :
    ∃ t t', setup sampleDevice (sampleDraw 0) { usb := {} } = .ok t ∧
      sampleActions.foldlM (act sampleDevice) t = .ok t' ∧
      ∃ keys host, runKeyExchange sampleDevice (sampleDraw 11) (sampleDraw 12) (sampleDraw 13)
        t'.host t'.digest 0x11FF = .ok (keys, host) ∧ Agreed keys host.usb := by
  obtain ⟨t, ht, h⟩ := sessionKeys_agree (E := sampleDevice) constantCrypto_fixedLengths
    constantCrypto_commutes constantCrypto_verifiesOwn constantCrypto_aeadCorrect (sampleDraw 0)
  have hrun : (setup sampleDevice (sampleDraw 0) { usb := {} } >>=
      sampleActions.foldlM (act sampleDevice)).isOk = true := by decide +kernel
  rw [ht, ok_bind] at hrun
  cases ht' : sampleActions.foldlM (act sampleDevice) t with
  | error e => rw [ht'] at hrun; cases hrun
  | ok t' => exact ⟨t, t', ht, ht', h sampleActions t' ht' _ _ _ _⟩

end Linked

end LinkedsemiZephyr.Spdm
