import LinkedsemiZephyr.Spdm.SecuredChannel

/-! What a rejected record leaves behind. `decode` takes the number of the record between
its header checks and the AEAD, so what gets past the header uses up a number whether it
opens or not. -/
namespace LinkedsemiZephyr.Spdm
open Octets

namespace SecuredSession

variable {C : Crypto} {s peer : SecuredSession} {secured : Bytes}

/-- The three header checks of `decode`. -/
def HeaderAccepted (s : SecuredSession) (secured : Bytes) : Prop :=
  8 ≤ secured.length ∧ UInt32.ofNat (leNat (slice secured 0 4)) = s.sessionId ∧
    8 + leNat (slice secured 6 8) ≤ secured.length

/-- The AEAD opens the record under the next number of its direction, and an SPDM message
is inside. -/
def Opens (C : Crypto) (s : SecuredSession) (secured : Bytes) : Prop :=
  ∃ x ∈ s.opened C secured, ∃ m, openInner x.plaintext = .ok m

theorem decode_header_rejected (h : ¬ s.HeaderAccepted secured) :
    ∃ e, s.decode C secured = .error e s := by
  simp only [decode]
  by_cases hshort : secured.length < 8
  · exact ⟨_, if_pos hshort⟩
  rw [if_neg hshort]
  by_cases hid : UInt32.ofNat (leNat (slice secured 0 4)) ≠ s.sessionId
  · exact ⟨_, if_pos hid⟩
  rw [if_neg hid]
  by_cases hfield : secured.length < 8 + leNat (slice secured 6 8)
  · exact ⟨_, if_pos hfield⟩
  · exact absurd ⟨Nat.le_of_not_lt hshort, not_not.mp hid, Nat.le_of_not_lt hfield⟩ h

/-- Behind the header checks the number is taken, and only then it shows whether the
record opens. -/
theorem decode_header_accepted (h : s.HeaderAccepted secured) :
    (s.Opens C secured ∧ ∃ m, s.decode C secured = .ok m (s.bump s.role.peer)) ∨
      ¬ s.Opens C secured ∧ ∃ e, s.decode C secured = .error e (s.bump s.role.peer) := by
  obtain ⟨hlong, hid, hfield⟩ := h
  simp only [decode, Opens, opened, if_neg (Nat.not_lt.mpr hlong), hid, ne_eq,
    not_true_eq_false, if_false, if_neg (Nat.not_lt.mpr hfield)]
  cases hiv : aeadIv (s.saltOf s.role.peer) (s.seqOf s.role.peer) with
  | error e =>
      refine .inr ⟨?_, e, rfl⟩
      rintro ⟨x, hx, -⟩
      cases hx
  | ok iv =>
      cases hd : C.decrypt (s.keyOf s.role.peer) iv
        (slice secured 8 (8 + leNat (slice secured 6 8)))
          (slice secured 0 8) with
      | none =>
          refine .inr ⟨?_, .invalidTag, by simp only [hd]⟩
          rintro ⟨x, hx, -⟩
          simp only [hd, Option.map_none, Option.mem_def, reduceCtorEq] at hx
      | some pt =>
          cases hinner : openInner pt with
          | error e =>
              refine .inr ⟨?_, e, by simp only [hd, hinner]⟩
              rintro ⟨x, hx, m, hm⟩
              simp only [hd, Option.map_some, Option.mem_def, Option.some.injEq] at hx
              subst hx
              rw [hinner] at hm
              cases hm
          | ok m =>
              refine .inl ⟨⟨⟨s.keyOf s.role.peer, iv, pt, slice secured 0 8⟩, ?_, m, hinner⟩, m,
                by simp only [hd, hinner]⟩
              simp only [hd, Option.map_some, Option.mem_def]

/-- `peer` sends in the direction `s` receives in, with the same keys and at the same number. -/
structure InStepWith (s peer : SecuredSession) : Prop where
  role : s.role.peer = peer.role
  sessionId : s.sessionId = peer.sessionId
  key : s.keyOf peer.role = peer.keyOf peer.role
  salt : s.saltOf peer.role = peer.saltOf peer.role
  seq : s.seqOf peer.role = peer.seqOf peer.role

theorem InStepWith.bump (h : s.InStepWith peer) :
    (s.bump peer.role).InStepWith (peer.bump peer.role) := by
  constructor
  · simpa only [bump_role] using h.role
  · simpa only [bump_sessionId] using h.sessionId
  · simpa only [bump_role, bump_keyOf] using h.key
  · simpa only [bump_role, bump_saltOf] using h.salt
  · simp only [bump_role, bump_seqOf, if_true, h.seq]

/-- The next record of the peer decodes, and leaves both at the next number. -/
theorem InStepWith.decode_encode (hC : C.AeadCorrect) (h : s.InStepWith peer) {m record : Bytes}
    {peer' : SecuredSession} (hsent : peer.encode C m = .ok record peer') :
    ∃ s', s.decode C record = .ok m s' ∧ s'.InStepWith peer' := by
  rcases peer.encode_cases C m with ⟨he, -⟩ | ⟨e, he, -⟩ | ⟨iv, hiv, hfits, he⟩
  · rw [he] at hsent
    cases hsent
  · rw [he] at hsent
    cases hsent
  · rw [he] at hsent
    cases hsent
    have hrecord := decode_sealRecord hC (m := m) h.sessionId (h.role ▸ h.key)
      (by rw [h.role, h.salt, h.seq]; exact hiv) hfits
    rw [h.role, h.seq] at hrecord
    exact ⟨_, hrecord, h.bump⟩

/-- Every message that `peer` encodes, one after another, decodes at `s`. -/
def DecodesAll (C : Crypto) : SecuredSession → SecuredSession → List Bytes → Prop
  | _, _, [] => True
  | peer, s, m :: ms => ∀ record peer', peer.encode C m = .ok record peer' →
      ∃ s', s.decode C record = .ok m s' ∧ DecodesAll C peer' s' ms

theorem InStepWith.decodesAll (hC : C.AeadCorrect) (h : s.InStepWith peer) (ms : List Bytes) :
    DecodesAll C peer s ms := by
  induction ms generalizing peer s with
  | nil => trivial
  | cons m ms ih =>
      intro record peer' hsent
      obtain ⟨s', hdecode, hnext⟩ := h.decode_encode hC hsent
      exact ⟨s', hdecode, ih hnext⟩

/-- A rejection of `secured` changes neither keys nor counters, and whatever a peer in step
sends from then on decodes. -/
def KeptByRejection (C : Crypto) (s : SecuredSession) (secured : Bytes) : Prop :=
  ∀ e s', s.decode C secured = .error e s' →
    s' = s ∧ ∀ peer, s.InStepWith peer → ∀ ms, DecodesAll C peer s' ms

theorem bump_ne (s : SecuredSession) (r : Role) : s.bump r ≠ s := by
  intro heq
  have hseq := s.bump_seqOf r r
  rw [heq, if_pos rfl] at hseq
  omega

/-- A session survives a rejection just when the record was rejected by its header. -/
theorem decode_rejection_kept (hC : C.AeadCorrect) (s : SecuredSession) (secured : Bytes) :
    s.KeptByRejection C secured ↔ (s.HeaderAccepted secured → s.Opens C secured) := by
  constructor
  · intro hkept haccepted
    rcases decode_header_accepted (C := C) haccepted with ⟨hopens, -⟩ | ⟨-, e, hlate⟩
    · exact hopens
    · exact absurd (hkept e _ hlate).1 (s.bump_ne _)
  · intro hcond e s' hrejected
    by_cases haccepted : s.HeaderAccepted secured
    · rcases decode_header_accepted (C := C) haccepted with ⟨-, m, hdecode⟩ | ⟨hnot, -⟩
      · rw [hdecode] at hrejected
        cases hrejected
      · exact absurd (hcond haccepted) hnot
    · obtain ⟨e', hearly⟩ := decode_header_rejected (C := C) haccepted
      rw [hearly] at hrejected
      cases hrejected
      exact ⟨rfl, fun peer hstep ms => hstep.decodesAll hC ms⟩

/-- The responder's end of the sample session. -/
def sampleReceiver : SecuredSession := { sampleSession with role := .responder }

/-- Sixteen zero octets in place of a sealed message. -/
def forgedRecord : Bytes := sampleReceiver.header 0 16 ++ zeros 16

/-- The forged record names the session and is long enough, so its rejection moves the
counter, and the requester's first message is refused. -/
theorem forgedRecord_desynchronises : ¬ sampleReceiver.KeptByRejection taggedCrypto forgedRecord ∧
    ∃ e record peer' s' s'', sampleReceiver.decode taggedCrypto forgedRecord =
      .error .invalidTag s' ∧
      sampleSession.encode taggedCrypto [0x13, 0xEC] = .ok record peer' ∧
      s'.decode taggedCrypto record = .error e s'' := by
  constructor
  · intro hkept
    have hunchanged := (hkept .invalidTag (sampleReceiver.bump .requester) rfl).1
    exact absurd hunchanged (bump_ne _ _)
  · exact ⟨.invalidTag, _, _, _, _, rfl, rfl, rfl⟩

/-- The forged record under the id of another session. -/
def strayRecord : Bytes := 0xEE :: forgedRecord.drop 1

/-- The id check rejects it in front of the counter, and the session goes on. -/
theorem decode_rejection_kept_stray : sampleReceiver.KeptByRejection taggedCrypto strayRecord ∧
    ∃ e, sampleReceiver.decode taggedCrypto strayRecord = .error e sampleReceiver := by
  have hrefused : ¬ sampleReceiver.HeaderAccepted strayRecord := fun h => absurd h.2.1 (by decide)
  exact ⟨(decode_rejection_kept taggedCrypto_correct sampleReceiver strayRecord).mpr
    fun h => absurd h hrefused, decode_header_rejected hrefused⟩

end SecuredSession

end LinkedsemiZephyr.Spdm
