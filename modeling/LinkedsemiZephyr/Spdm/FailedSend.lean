import LinkedsemiZephyr.Spdm.Exchange
import LinkedsemiZephyr.Spdm.RejectedRecord

/-! A secured send that fails before its frame goes to USB. Of its three length limits the
first stands before the counter, the other two behind it. -/
namespace LinkedsemiZephyr.Spdm
open Octets

/-- What a secured send works on: the session object and the tag of its host. -/
structure SecuredSender where
  keys : SecuredSession
  tag : UInt8
  deriving DecidableEq, Repr

namespace SecuredSender

/-- A record of `spdm` in a packet and a frame, and the tag that is left once it is sent. -/
def send (tagOwner : Bool) (nextTag : UInt8 → UInt8) (C : Crypto) (a : SecuredSender)
    (spdm : Bytes) :
    EStateM.Result PyErr SecuredSender Bytes :=
  match a.keys.encode C spdm with
  | .error e keys => .error e { a with keys }
  | .ok inner keys =>
    match buildFrame (buildMctp (mctpTypeSecured :: inner) a.tag tagOwner) with
    | .error e => .error e { a with keys }
    | .ok frame => .ok frame { keys, tag := nextTag a.tag }

/-- `exchange_secured` up to its `send_data`. -/
def exchangeSecured : Crypto → SecuredSender → Bytes → EStateM.Result PyErr SecuredSender Bytes :=
  send true (fun tag => (tag + 1) &&& 0x07)

/-- `reply` in a session. -/
def reply : Crypto → SecuredSender → Bytes → EStateM.Result PyErr SecuredSender Bytes :=
  send false id

section Source
variable {E : Device} {d : Draw} {host : Linked} {st : SpdmPythonResponder} {keys : SecuredSession}

/-- `exchange_secured` is this send and a receive. -/
theorem exchangeSecured_eq (request : Bytes) (expectedCode : UInt8) :
    host.exchangeSecured E d keys request expectedCode =
      (match exchangeSecured E.crypto ⟨keys, host.tag⟩ request with
      | .error e _ => .error e
      | .ok frame a =>
        match host.usb.serve E d (frame.drop 8) (frame.getD 7 0 &&& 0x07) with
        | .error _ => .error (.usbTimeout .header)
        | .ok (served, usb) => do
          let host := SpdmHost.notePacket { host with usb, tag := a.tag } served.frame
          require ((served.frame.drop 8).getD 0 0 &&& 0x7F = mctpTypeSecured)
            (.unexpectedMctpType ((served.frame.drop 8).take 8))
          match a.keys.decode E.crypto ((served.frame.drop 8).drop 1) with
          | .error e _ => .error e
          | .ok rsp keys => do
            expectCode rsp expectedCode
            .ok (rsp, keys, host)) := by
  simp only [Linked.exchangeSecured, Linked.transact, exchangeSecured, send]
  cases keys.encode E.crypto request with
  | error e keys' => rfl
  | ok inner keys' =>
      simp only
      cases buildFrame (buildMctp (mctpTypeSecured :: inner) host.tag true) with
      | error e => rfl
      | ok frame =>
          simp only
          cases host.usb.serve E d (frame.drop 8) (frame.getD 7 0 &&& 0x07) with
          | error e => rfl
          | ok r => rfl

/-- `reply` in a session is this send. -/
theorem reply_eq (hk : st.keys = some keys) (spdm : Bytes) :
    st.reply E spdm true =
      match reply E.crypto ⟨keys, st.lastTag⟩ spdm with
      | .error e _ => .error e
      | .ok frame a => .ok (frame, { st with keys := some a.keys, lastTag := a.tag }) := by
  simp only [SpdmPythonResponder.reply, hk, reply, send, if_true, SpdmPythonResponder.sendFrame]
  cases keys.encode E.crypto spdm with
  | error e keys' => rfl
  | ok inner keys' =>
      simp only
      cases buildFrame (buildMctp (mctpTypeSecured :: inner) st.lastTag false) with
      | error e => rfl
      | ok frame => rfl

end Source

section Limits
variable {C : Crypto} {tagOwner : Bool} {nextTag : UInt8 → UInt8} {a : SecuredSender} {m : Bytes}

theorem length_sealRecord (hC : C.AeadCorrect) (s : SecuredSession) (r : Role) (seq : Nat)
    (iv m : Bytes) :
    (s.sealRecord C r seq iv m).length = m.length + 27 := by
  simp only [SecuredSession.sealRecord, List.length_append, SecuredSession.length_header, hC.length,
    SecuredSession.length_innerPlaintext]
  omega

theorem length_packet (inner : Bytes) :
    (buildMctp (mctpTypeSecured :: inner) a.tag tagOwner).length =
    inner.length + 5 := by
  simp only [buildMctp, List.length_append, List.length_cons, List.length_nil]
  omega

/-- Too long for the inner length field: refused before the counter. -/
theorem send_refused (h : 65535 ≤ m.length) :
    send tagOwner nextTag C a m = .error .structError a := by
  rcases a.keys.encode_cases C m with ⟨he, -⟩ | ⟨e, he, -⟩ | ⟨iv, -, hlen, -⟩
  · simp only [send, he]
  · have hrefused : a.keys.encode C m = .error .structError a.keys :=
      if_pos (by simp only [List.length_cons]; omega)
    simp only [send, hrefused]
  · omega

/-- A record that fits the frame goes out under its number. -/
theorem send_fits (tagOwner : Bool) (nextTag : UInt8 → UInt8) (hC : C.AeadCorrect) {iv : Bytes}
    (hlen : m.length < 220)
    (hiv : aeadIv (a.keys.saltOf a.keys.role) (a.keys.seqOf a.keys.role) = .ok iv) :
    send tagOwner nextTag C a m =
      .ok (usbFrame (buildMctp (mctpTypeSecured ::
          a.keys.sealRecord C a.keys.role (a.keys.seqOf a.keys.role) iv m) a.tag tagOwner))
        { keys := a.keys.bump a.keys.role, tag := nextTag a.tag } := by
  rcases a.keys.encode_cases C m with ⟨-, hlong⟩ | ⟨e, -, hlong | hno⟩ | ⟨iv', hiv', -, he⟩
  · omega
  · omega
  · rw [hiv] at hno
    cases hno
  · obtain rfl : iv' = iv := Except.ok.inj (hiv'.symm.trans hiv)
    have hpacket : (buildMctp (mctpTypeSecured ::
        a.keys.sealRecord C a.keys.role (a.keys.seqOf a.keys.role) iv' m) a.tag tagOwner).length ≤
          251 := by
      rw [length_packet, length_sealRecord hC]
      omega
    simp only [send, he, buildFrame_ok hpacket]

/-- Between the first limit and the frame the number is used up and nothing is sent. -/
theorem send_half_done (tagOwner : Bool) (nextTag : UInt8 → UInt8) (hC : C.AeadCorrect)
    (hshort : m.length < 65535)
    (h : 220 ≤ m.length ∨
      ∃ e, aeadIv (a.keys.saltOf a.keys.role) (a.keys.seqOf a.keys.role) = .error e) :
    ∃ e, send tagOwner nextTag C a m = .error e { a with keys := a.keys.bump a.keys.role } := by
  rcases a.keys.encode_cases C m with ⟨-, hlong⟩ | ⟨e, he, -⟩ | ⟨iv, hiv, -, he⟩
  · omega
  · exact ⟨e, by simp only [send, he]⟩
  · rcases h with hlong | ⟨e, hno⟩
    · refine ⟨.frameTooLarge (4 + (m.length + 27 + 5)), ?_⟩
      have hbig : buildFrame (buildMctp (mctpTypeSecured ::
          a.keys.sealRecord C a.keys.role (a.keys.seqOf a.keys.role) iv m) a.tag tagOwner) =
          .error (.frameTooLarge (4 + (m.length + 27 + 5))) := by
        simp only [buildFrame, length_packet, length_sealRecord hC]
        exact if_pos (by omega)
      simp only [send, he, hbig]
    · rw [hiv] at hno
      cases hno

end Limits

/-- A send that fails changes neither counters nor tag, and what is sent next decodes at any
peer in step. -/
def SurvivesFailure (C : Crypto)
    (send : Crypto → SecuredSender → Bytes → EStateM.Result PyErr SecuredSender Bytes)
    (a : SecuredSender) (m : Bytes) : Prop :=
  ∀ e a', send C a m = .error e a' → a' = a ∧
    ∀ peer : SecuredSession, peer.InStepWith a.keys → ∀ m' frame a'', send C a' m' = .ok frame a'' →
      ∃ peer', peer.decode C (frame.drop 9) = .ok m' peer' ∧ peer'.InStepWith a''.keys

section Survival
variable {C : Crypto} {tagOwner : Bool} {nextTag : UInt8 → UInt8} {a a' : SecuredSender}
  {m frame : Bytes}

/-- Behind the headers of a frame that went out stands the record. -/
theorem send_ok (h : send tagOwner nextTag C a m = .ok frame a') :
    a.keys.encode C m = .ok (frame.drop 9) a'.keys := by
  simp only [send] at h
  split at h
  · cases h
  · next inner keys he =>
      split at h
      · cases h
      · next f hf =>
          cases h
          rw [of_buildFrame hf, he]
          rfl

/-- The exact lengths, for either sender. -/
theorem send_survives_iff (hC : C.AeadCorrect) :
    SurvivesFailure C (send tagOwner nextTag) a m ↔ 65535 ≤ m.length ∨
      m.length < 220 ∧ a.keys.seqOf a.keys.role < 2 ^ 64 ∧
      8 ≤ (a.keys.saltOf a.keys.role).length := by
  constructor
  · intro hsurvives
    by_cases hlong : 65535 ≤ m.length
    · exact .inl hlong
    have hdone : ¬ (220 ≤ m.length ∨
        ∃ e, aeadIv (a.keys.saltOf a.keys.role) (a.keys.seqOf a.keys.role) = .error e) := by
      intro hhalf
      obtain ⟨e, he⟩ := send_half_done tagOwner nextTag hC (Nat.lt_of_not_le hlong) hhalf
      have hkeys := congrArg SecuredSender.keys (hsurvives e _ he).1
      exact a.keys.bump_ne a.keys.role hkeys
    cases hiv : aeadIv (a.keys.saltOf a.keys.role) (a.keys.seqOf a.keys.role) with
    | error e => exact absurd (.inr ⟨e, hiv⟩) hdone
    | ok iv =>
        obtain ⟨hseq, hsalt, -⟩ := aeadIv_ok hiv
        exact .inr ⟨Nat.lt_of_not_le fun h => hdone (.inl h), hseq, hsalt⟩
  · rintro (hlong | ⟨hshort, hseq, hsalt⟩) e a' hfailed
    · rw [send_refused hlong] at hfailed
      cases hfailed
      refine ⟨rfl, fun peer hstep m' frame a'' hsent => ?_⟩
      exact hstep.decode_encode hC (send_ok hsent)
    · obtain ⟨iv, hiv⟩ := Channel.aeadIv_total hsalt hseq
      rw [send_fits tagOwner nextTag hC hshort hiv] at hfailed
      cases hfailed

end Survival

/-- A secured send, of a request or of a response, leaves the session usable just when it
cannot fail behind the counter. -/
theorem failed_send_usable {C : Crypto} (hC : C.AeadCorrect) (a : SecuredSender) (m : Bytes) :
    (SurvivesFailure C exchangeSecured a m ∧ SurvivesFailure C reply a m) ↔
      65535 ≤ m.length ∨
        m.length < 220 ∧ a.keys.seqOf a.keys.role < 2 ^ 64 ∧
        8 ≤ (a.keys.saltOf a.keys.role).length := by
  rw [exchangeSecured, reply, send_survives_iff hC, send_survives_iff hC, and_self]

/-- The requester's end of the sample session. -/
def sampleSender : SecuredSender := ⟨sampleSession, 0⟩

/-- One octet more than a frame takes: the send fails, the responder still expects number
0, and refuses the request that follows. -/
theorem oversized_request_desynchronises :
    ¬ SurvivesFailure taggedCrypto exchangeSecured sampleSender (zeros 220) ∧
      ∃ e a' frame a'' e' s', exchangeSecured taggedCrypto sampleSender (zeros 220) = .error e a' ∧
        exchangeSecured taggedCrypto a' [0x13, 0xEC] = .ok frame a'' ∧
        SecuredSession.sampleReceiver.decode taggedCrypto (frame.drop 9) = .error e' s' := by
  have hlen : (zeros 220).length = 220 := List.length_replicate
  obtain ⟨e, he⟩ := send_half_done true (fun tag => (tag + 1) &&& 0x07)
    (a := sampleSender) (m := zeros 220) taggedCrypto_correct
    (show (zeros 220).length < 65535 by rw [hlen]; omega)
    (.inl (show 220 ≤ (zeros 220).length by rw [hlen]))
  constructor
  · intro hsurvives
    have hkeys := congrArg SecuredSender.keys (hsurvives e _ he).1
    exact sampleSession.bump_ne .requester hkeys
  · exact ⟨e, _, _, _, _, _, he, rfl, rfl⟩

/-- 65535 octets are refused in front of the counter, by either sender, and the session
stays usable. -/
theorem failed_send_usable_refused :
    (SurvivesFailure taggedCrypto exchangeSecured sampleSender (zeros 65535) ∧
      SurvivesFailure taggedCrypto reply sampleSender (zeros 65535)) ∧
      exchangeSecured taggedCrypto sampleSender (zeros 65535) =
        .error .structError sampleSender := by
  have hlong : 65535 ≤ (zeros 65535).length := Nat.le_of_eq List.length_replicate.symm
  exact ⟨(failed_send_usable taggedCrypto_correct sampleSender (zeros 65535)).mpr (.inl hlong),
    send_refused hlong⟩

end SecuredSender

end LinkedsemiZephyr.Spdm
