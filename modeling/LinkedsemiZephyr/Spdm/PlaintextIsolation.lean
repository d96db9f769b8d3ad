import LinkedsemiZephyr.Spdm.ResponderSteps

/-! Clear messages against an established session: which of them leave it alone. -/
namespace LinkedsemiZephyr.Spdm
open Octets SpdmPythonResponder

/-- An MCTP message of type 0x05, with or without the integrity-check bit, and the draws
that answering it may use. -/
structure ClearMessage where
  draw : Draw
  first : UInt8
  body : Bytes
  tag : UInt8
  spdm : first &&& 0x7F = mctpTypeSpdm

def ClearMessage.serve (E : Device) (m : ClearMessage) (st : SpdmPythonResponder) :
    Except PyErr (Served × SpdmPythonResponder) :=
  st.serve E m.draw (m.first :: m.body) m.tag

/-- The requests that belong inside a session. -/
def SessionOnly (req : Bytes) : Prop :=
  req.getD 1 0 ∈ [spdmEndSession, spdmVendorDefinedRequest, spdmGetSupportedEventTypes,
    spdmSubscribeEventTypes]

instance (req : Bytes) : Decidable (SessionOnly req) := inferInstanceAs (Decidable (_ ∈ _))

/-- After each clear message the session is still `k`, counters included, and the
session-only requests got an ERROR. -/
def Undisturbed (E : Device) (k : SecuredSession) : SpdmPythonResponder → List ClearMessage → Prop
  | _, [] => True
  | st, m :: ms => ∀ served st', m.serve E st = .ok (served, st') →
      st'.keys = some k ∧ (SessionOnly m.body → served.response.getD 1 0 = spdmErrorCode) ∧
        Undisturbed E k st' ms

/-- A clear request that neither acts on the session by its code nor passes the check of
`handle_finish`. -/
def Harmless (E : Device) (st : SpdmPythonResponder) (req : Bytes) : Prop :=
  ¬ SessionOnly req ∧ ¬ (handlerOf req = some .finish ∧ st.FinishAccepted E req)

def HarmlessRun (E : Device) : SpdmPythonResponder → List ClearMessage → Prop
  | _, [] => True
  | st, m :: ms => Harmless E st m.body ∧
      ∀ served st', m.serve E st = .ok (served, st') → HarmlessRun E st' ms

/-- The post-reply step acts on END_SESSION's code only. -/
theorem closeSession_harmless {st : SpdmPythonResponder} {req : Bytes} (h : ¬ SessionOnly req) :
    st.closeSession req = st := by
  have hcode : req.getD 1 0 ≠ spdmEndSession := fun he =>
    h (by rw [SessionOnly, he]; exact List.mem_cons_self)
  rw [closeSession, if_neg hcode]

theorem dispatch_harmless {E : Device} {d : Draw} {st st' : SpdmPythonResponder} {req rsp : Bytes}
    (hh : ¬ (handlerOf req = some .finish ∧ st.FinishAccepted E req))
    (h : st.dispatch E d req = .ok (rsp, st')) : st'.keys = st.keys := by
  rcases dispatch_effect h with ⟨hk, -, -⟩ | ⟨ke, hfn, hk, he, -, -⟩ | ⟨shared, -, -, rfl⟩
  · exact hk
  · exact absurd ⟨hfn, ke, hk, he⟩ hh
  · rfl

theorem serve_harmless {E : Device} {m : ClearMessage} {st st' : SpdmPythonResponder}
    {served : Served} (hh : Harmless E st m.body) (h : m.serve E st = .ok (served, st')) :
    served.request = m.body ∧ st'.keys = st.keys := by
  obtain ⟨st₁, st₂, st₃, hr, hd, hf, -, rfl⟩ := serve_ok h
  rw [recvRequest_clear m.spdm] at hr
  simp only [Except.ok.injEq, Prod.mk.injEq] at hr
  obtain ⟨⟨hreq, hsec⟩, rfl⟩ := hr
  rw [← hreq] at hd ⊢
  rcases reply_state hf with ⟨-, rfl⟩ | ⟨keys, keys', inner, htrue, -⟩
  · have hacc :
      ¬ (handlerOf m.body = some .finish ∧ FinishAccepted E { st with lastTag := m.tag } m.body) :=
      hh.2
    exact ⟨rfl, by rw [closeSession_harmless hh.1, dispatch_harmless hacc hd]⟩
  · rw [htrue] at hsec
    cases hsec

/-- A session survives every run of clear messages none of which has a session-only code
or is a FINISH the open handshake accepts. -/
theorem clearMessages_undisturbed {E : Device} {k : SecuredSession} {st : SpdmPythonResponder}
    {ms : List ClearMessage} (hk : st.keys = some k) (hms : HarmlessRun E st ms) :
    Undisturbed E k st ms := by
  induction ms generalizing st with
  | nil => trivial
  | cons m ms ih =>
      intro served st' h
      obtain ⟨hreq, hkeys⟩ := serve_harmless hms.1 h
      have hk' : st'.keys = some k := hkeys.trans hk
      exact ⟨hk', fun hs => absurd hs hms.1.1, ih hk' (hms.2 served st' h)⟩

/-- A KEY_EXCHANGE and the FINISH that completes it under `constantCrypto`. -/
def sampleHandshake : List (Draw × Incoming) :=
  [(sampleDraw 0, .message (mctpTypeSpdm :: sampleKeyExchange) 0),
    (sampleDraw 1, .message ([mctpTypeSpdm, spdmVer, spdmFinish, 0, 0] ++ zeros 32) 1)]

set_option maxRecDepth 8000 in
theorem sampleHandshake_established :
    ∃ s k, Loop.run sampleDevice { responder := {} } sampleHandshake = .ok s ∧
      s.responder.keys = some k ∧ s.responder.keState.isSome = true :=
  ⟨_, _, rfl, rfl, rfl⟩

/-- END_SESSION in the clear. -/
def clearEndSession : ClearMessage where
  draw := sampleDraw 2
  first := mctpTypeSpdm
  body := [spdmVer, spdmEndSession, 0, 0]
  tag := 2
  spdm := rfl

/-- It closes any session. -/
theorem clearEndSession_closes (E : Device) (st : SpdmPythonResponder) :
    ∃ served st', clearEndSession.serve E st = .ok (served, st') ∧ st'.keys = none :=
  ⟨_, _, rfl, rfl⟩

theorem clearMessages_disturb :
    ¬ ∀ (E : Device) (history : List (Draw × Incoming)) (s : Loop) (k : SecuredSession)
        (ms : List ClearMessage),
      Loop.run E { responder := {} } history = .ok s → s.responder.keys = some k →
      (∀ m ∈ ms, m.body.getD 1 0 ≠ spdmKeyExchange) → Undisturbed E k s.responder ms := by
  intro h
  obtain ⟨s, k, hrun, hk, -⟩ := sampleHandshake_established
  obtain ⟨served, st', hserve, hnone⟩ := clearEndSession_closes sampleDevice s.responder
  have hne : ∀ m ∈ [clearEndSession], m.body.getD 1 0 ≠ spdmKeyExchange := by
    intro m hm
    rw [List.mem_singleton.mp hm]
    decide
  have hkeys := (h _ _ s k [clearEndSession] hrun hk hne served st' hserve).1
  rw [hnone] at hkeys
  cases hkeys

/-- GET_VERSION in the clear. -/
def clearGetVersion : ClearMessage where
  draw := sampleDraw 2
  first := mctpTypeSpdm
  body := [0x10, spdmGetVersion, 0, 0]
  tag := 2
  spdm := rfl

theorem clearGetVersion_harmless (st : SpdmPythonResponder) :
    Harmless sampleDevice st clearGetVersion.body := by
  refine ⟨by decide, ?_⟩
  rintro ⟨hfn, -⟩
  exact absurd hfn (by decide)

/-- A FINISH in the clear whose `verify_data` no handshake of `sampleDevice` expects. -/
def clearForgedFinish : ClearMessage where
  draw := sampleDraw 3
  first := mctpTypeSpdm
  body := [spdmVer, spdmFinish, 0, 0] ++ List.replicate 32 1
  tag := 3
  spdm := rfl

theorem clearForgedFinish_harmless (st : SpdmPythonResponder) :
    Harmless sampleDevice st clearForgedFinish.body := by
  refine ⟨by decide, ?_⟩
  rintro ⟨-, ke, -, he⟩
  have hexpect : st.finishExpect sampleDevice ke clearForgedFinish.body = zeros 32 := rfl
  rw [hexpect] at he
  exact absurd he (by decide)

/-- GET_VERSION, the FINISH that `handle_finish` rejects while the handshake it names is
still open, and GET_VERSION again. -/
def quietMessages : List ClearMessage := [clearGetVersion, clearForgedFinish, clearGetVersion]

theorem quietMessages_harmless (st : SpdmPythonResponder) :
    HarmlessRun sampleDevice st quietMessages :=
  ⟨clearGetVersion_harmless st, fun _ st₁ _ => ⟨clearForgedFinish_harmless st₁,
    fun _ st₂ _ => ⟨clearGetVersion_harmless st₂, fun _ _ _ => trivial⟩⟩⟩

theorem clearMessages_undisturbed_quiet :
    ∃ s k, Loop.run sampleDevice { responder := {} } sampleHandshake = .ok s ∧
      s.responder.keState.isSome = true ∧ Undisturbed sampleDevice k s.responder quietMessages := by
  obtain ⟨s, k, hrun, hk, hopen⟩ := sampleHandshake_established
  exact ⟨s, k, hrun, hopen, clearMessages_undisturbed hk (quietMessages_harmless s.responder)⟩

end LinkedsemiZephyr.Spdm
