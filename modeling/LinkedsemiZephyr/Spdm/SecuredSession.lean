import LinkedsemiZephyr.Spdm.KeySchedule

/-! `SecuredSession`: one record layer for both roles, with a counter for each direction
that `encode` and `decode` take before they can fail. -/
namespace LinkedsemiZephyr.Spdm
open Octets

inductive Role where
  | requester
  | responder
  deriving DecidableEq, Repr

def Role.peer : Role → Role
  | .requester => .responder
  | .responder => .requester

@[simp] theorem Role.peer_peer (r : Role) : r.peer.peer = r := by cases r <;> rfl

theorem Role.peer_ne (r : Role) : r.peer ≠ r := by cases r <;> decide

structure SecuredSession where
  sessionId : UInt32
  reqKey : Bytes
  reqSalt : Bytes
  rspKey : Bytes
  rspSalt : Bytes
  reqSeq : Nat := 0
  rspSeq : Nat := 0
  role : Role := .requester
  deriving DecidableEq, Repr

namespace SecuredSession

/-- `key, salt` of the direction in which `r` sends. -/
def keyOf (s : SecuredSession) : Role → Bytes
  | .requester => s.reqKey
  | .responder => s.rspKey

def saltOf (s : SecuredSession) : Role → Bytes
  | .requester => s.reqSalt
  | .responder => s.rspSalt

def seqOf (s : SecuredSession) : Role → Nat
  | .requester => s.reqSeq
  | .responder => s.rspSeq

/-- `self.req_seq += 1` or `self.rsp_seq += 1`. -/
def bump (s : SecuredSession) : Role → SecuredSession
  | .requester => { s with reqSeq := s.reqSeq + 1 }
  | .responder => { s with rspSeq := s.rspSeq + 1 }

/-- `struct.pack("<IHH", self.session_id, seq & 0xFFFF, length)`. -/
def header (s : SecuredSession) (seq length : Nat) : Bytes :=
  leBytes 4 s.sessionId.toNat ++ (leBytes 2 (seq % 65536) ++ leBytes 2 length)

/-- `struct.pack("<H", len(app)) + app`. -/
def innerPlaintext (spdmMsg : Bytes) : Bytes :=
  let app := mctpTypeSpdm :: spdmMsg
  leBytes 2 app.length ++ app

/-- `encode`. A session sends in the direction of its own role. -/
def encode (C : Crypto) (s : SecuredSession) (spdmMsg : Bytes) :
    EStateM.Result PyErr SecuredSession Bytes :=
  if 65536 ≤ (mctpTypeSpdm :: spdmMsg).length then .error .structError s
  else
    let plaintext := innerPlaintext spdmMsg
    let length := plaintext.length + 16
    let key := s.keyOf s.role
    let salt := s.saltOf s.role
    let seq := s.seqOf s.role
    let s' := s.bump s.role
    if 65536 ≤ length then .error .structError s'
    else
      let aad := s.header seq length
      match aeadIv salt seq with
      | .error e => .error e s'
      | .ok iv => .ok (aad ++ C.encrypt key iv plaintext aad) s'

/-- The record `encode` makes of a message under one counter value. -/
def sealRecord (C : Crypto) (s : SecuredSession) (r : Role) (seq : Nat) (iv m : Bytes) : Bytes :=
  let aad := s.header seq (m.length + 19)
  aad ++ C.encrypt (s.keyOf r) iv (innerPlaintext m) aad

/-- What `decode` does with a decrypted record. -/
def openInner (plaintext : Bytes) : Except PyErr Bytes :=
  if plaintext.length < 2 then .error .structError
  else
    let appLen := leNat (slice plaintext 0 2)
    let app := slice plaintext 2 (2 + appLen)
    if app.isEmpty || app.getD 0 0 &&& 0x7F != mctpTypeSpdm then .error (.innerTypeNotSpdm app)
    else .ok (app.drop 1)

/-- `decode`. A session receives in the direction of its peer's role. -/
def decode (C : Crypto) (s : SecuredSession) (secured : Bytes) :
    EStateM.Result PyErr SecuredSession Bytes :=
  if secured.length < 8 then .error (.securedTooShort secured.length) s
  else
    let sessionId := UInt32.ofNat (leNat (slice secured 0 4))
    let length := leNat (slice secured 6 8)
    if sessionId ≠ s.sessionId then .error (.sessionIdMismatch sessionId s.sessionId) s
    else if secured.length < 8 + length then
      .error (.securedLengthField length (secured.length - 8)) s
    else
      let aad := slice secured 0 8
      let ctTag := slice secured 8 (8 + length)
      let key := s.keyOf s.role.peer
      let salt := s.saltOf s.role.peer
      let seq := s.seqOf s.role.peer
      let s' := s.bump s.role.peer
      match aeadIv salt seq with
      | .error e => .error e s'
      | .ok iv =>
        match C.decrypt key iv ctTag aad with
        | none => .error .invalidTag s'
        | some plaintext =>
          match openInner plaintext with
          | .error e => .error e s'
          | .ok app => .ok app s'

section Fields
variable (s : SecuredSession) (r q : Role)

@[simp] theorem bump_sessionId : (s.bump r).sessionId = s.sessionId := by cases r <;> rfl
@[simp] theorem bump_role : (s.bump r).role = s.role := by cases r <;> rfl
@[simp] theorem bump_keyOf : (s.bump r).keyOf q = s.keyOf q := by cases r <;> cases q <;> rfl
@[simp] theorem bump_saltOf : (s.bump r).saltOf q = s.saltOf q := by cases r <;> cases q <;> rfl

theorem bump_seqOf : (s.bump r).seqOf q = if q = r then s.seqOf q + 1 else s.seqOf q := by
  cases r <;> cases q <;> rfl

@[simp] theorem length_header (seq length : Nat) : (s.header seq length).length = 8 := by
  simp only [header, List.length_append, length_leBytes]

end Fields

@[simp] theorem length_innerPlaintext (m : Bytes) : (innerPlaintext m).length = m.length + 3 := by
  simp only [innerPlaintext, List.length_append, length_leBytes, List.length_cons]
  omega

theorem openInner_innerPlaintext {m : Bytes} (h : m.length < 65535) :
    openInner (innerPlaintext m) = .ok m := by
  have hlen : (mctpTypeSpdm :: m).length < 256 ^ 2 := by simp only [List.length_cons]; omega
  have happ : slice (innerPlaintext m) 2 (2 + (m.length + 1)) = mctpTypeSpdm :: m :=
    slice_suffix (length_leBytes _ _) (by simp)
  have hfield : leNat (slice (innerPlaintext m) 0 2) = m.length + 1 := by
    rw [innerPlaintext, slice_prefix _ (length_leBytes _ _), leNat_leBytes hlen, List.length_cons]
  simp only [openInner, length_innerPlaintext,
    if_neg (show ¬ m.length + 3 < 2 by omega), hfield, happ, List.isEmpty_cons, List.getD_cons_zero,
    List.drop_one, List.tail_cons]
  rfl

/-- Everything `encode` can do: refuse with nothing changed, use up a counter value, or
use it for one record. -/
theorem encode_cases (C : Crypto) (s : SecuredSession) (m : Bytes) :
    (s.encode C m = .error .structError s ∧ 65535 ≤ m.length) ∨
    (∃ e, s.encode C m = .error e (s.bump s.role) ∧
      (65517 ≤ m.length ∨ aeadIv (s.saltOf s.role) (s.seqOf s.role) = .error e)) ∨
    (∃ iv, aeadIv (s.saltOf s.role) (s.seqOf s.role) = .ok iv ∧ m.length < 65517 ∧
      s.encode C m = .ok (s.sealRecord C s.role (s.seqOf s.role) iv m) (s.bump s.role)) := by
  simp only [encode, List.length_cons, length_innerPlaintext]
  by_cases happ : 65536 ≤ m.length + 1
  · exact .inl ⟨if_pos happ, by omega⟩
  · rw [if_neg happ]
    by_cases hlen : 65536 ≤ m.length + 3 + 16
    · exact .inr (.inl ⟨_, if_pos hlen, .inl (by omega)⟩)
    · rw [if_neg hlen]
      cases hiv : aeadIv (s.saltOf s.role) (s.seqOf s.role) with
      | error e => exact .inr (.inl ⟨e, rfl, .inr rfl⟩)
      | ok iv => exact .inr (.inr ⟨iv, rfl, by omega, rfl⟩)

/-- Everything `decode` can do: reject with nothing changed, reject after taking the
counter, or return what an authentic record holds. -/
theorem decode_cases (C : Crypto) (s : SecuredSession) (b : Bytes) :
    (∃ e, s.decode C b = .error e s) ∨
    (∃ e, s.decode C b = .error e (s.bump s.role.peer)) ∨
    (∃ iv ct aad pt m, aeadIv (s.saltOf s.role.peer) (s.seqOf s.role.peer) = .ok iv ∧
      aad = slice b 0 8 ∧ ct = slice b 8 (8 + leNat (slice b 6 8)) ∧
      C.decrypt (s.keyOf s.role.peer) iv ct aad = some pt ∧ openInner pt = .ok m ∧
      s.decode C b = .ok m (s.bump s.role.peer)) := by
  simp only [decode]
  by_cases hshort : b.length < 8
  · exact .inl ⟨_, if_pos hshort⟩
  rw [if_neg hshort]
  by_cases hid : UInt32.ofNat (leNat (slice b 0 4)) ≠ s.sessionId
  · exact .inl ⟨_, if_pos hid⟩
  rw [if_neg hid]
  by_cases hfield : b.length < 8 + leNat (slice b 6 8)
  · exact .inl ⟨_, if_pos hfield⟩
  rw [if_neg hfield]
  cases hiv : aeadIv (s.saltOf s.role.peer) (s.seqOf s.role.peer) with
  | error e => exact .inr (.inl ⟨e, rfl⟩)
  | ok iv =>
      cases hd : C.decrypt (s.keyOf s.role.peer) iv (slice b 8 (8 + leNat (slice b 6 8)))
        (slice b 0 8) with
      | none => exact .inr (.inl ⟨.invalidTag, by simp only [hd]⟩)
      | some pt =>
          cases ho : openInner pt with
          | error e => exact .inr (.inl ⟨e, by simp only [hd, ho]⟩)
          | ok m =>
              exact .inr (.inr ⟨iv, _, _, pt, m, rfl, rfl, rfl, hd, ho, by simp only [hd, ho]⟩)

theorem encode_ok {C : Crypto} {s s' : SecuredSession} {m b : Bytes} (h : s.encode C m = .ok b s') :
    s' = s.bump s.role := by
  rcases s.encode_cases C m with ⟨he, -⟩ | ⟨e, he, -⟩ | ⟨iv, -, -, he⟩
  · rw [he] at h; cases h
  · rw [he] at h; cases h
  · rw [he] at h; cases h; rfl

theorem decode_ok {C : Crypto} {s s' : SecuredSession} {m b : Bytes} (h : s.decode C b = .ok m s') :
    s' = s.bump s.role.peer := by
  rcases s.decode_cases C b with ⟨e, he⟩ | ⟨e, he⟩ | ⟨iv, ct, aad, pt, m', -, -, -, -, -, he⟩
  · rw [he] at h; cases h
  · rw [he] at h; cases h
  · rw [he] at h; cases h; rfl

/-- `decode` of a well-formed record, once the counter has given its IV. -/
theorem decode_record (C : Crypto) {a b : SecuredSession} (h : b.sessionId = a.sessionId)
    (seq : Nat) {iv ct pt m : Bytes} (hlt : ct.length < 65536)
    (hiv : aeadIv (b.saltOf b.role.peer) (b.seqOf b.role.peer) = .ok iv)
    (hd : C.decrypt (b.keyOf b.role.peer) iv ct (a.header seq ct.length) = some pt)
    (ho : openInner pt = .ok m) :
    b.decode C (a.header seq ct.length ++ ct) = .ok m (b.bump b.role.peer) := by
  have hhead : slice (a.header seq ct.length ++ ct) 0 8 = a.header seq ct.length :=
    slice_prefix _ (a.length_header _ _)
  have hid : leNat (slice (a.header seq ct.length ++ ct) 0 4) = a.sessionId.toNat := by
    rw [header, List.append_assoc, slice_prefix _ (length_leBytes _ _),
      leNat_leBytes (by simpa using a.sessionId.toNat_lt)]
  have hfield : leNat (slice (a.header seq ct.length ++ ct) 6 8) = ct.length := by
    rw [header, ← List.append_assoc, List.append_assoc,
      slice_middle _ (by simp only [List.length_append, length_leBytes])
        (by simp only [length_leBytes]),
      leNat_leBytes hlt]
  have hbody : slice (a.header seq ct.length ++ ct) 8 (8 + ct.length) = ct :=
    slice_suffix (a.length_header _ _) (Nat.le_refl _)
  have hlen : (a.header seq ct.length ++ ct).length = 8 + ct.length := by
    rw [List.length_append, length_header]
  simp only [decode, hlen, if_neg (show ¬ 8 + ct.length < 8 by omega), hid, UInt32.ofNat_toNat, h,
    ne_eq, not_true_eq_false, if_false, hfield, Nat.lt_irrefl, hhead, hbody, hiv, hd, ho]

/-- A record opens at any session with the same id, key and salt whose counter for the
direction is the one it was made under. -/
theorem decode_sealRecord {C : Crypto} (hC : C.AeadCorrect) {a b : SecuredSession}
    (hid : b.sessionId = a.sessionId) (hkey : b.keyOf b.role.peer = a.keyOf b.role.peer)
    {m iv : Bytes} (hiv : aeadIv (b.saltOf b.role.peer) (b.seqOf b.role.peer) = .ok iv)
    (hm : m.length < 65517) :
    b.decode C (a.sealRecord C b.role.peer (b.seqOf b.role.peer) iv m) =
      .ok m (b.bump b.role.peer) := by
  have hct : (C.encrypt (a.keyOf b.role.peer) iv (innerPlaintext m)
      (a.header (b.seqOf b.role.peer) (m.length + 19))).length = m.length + 19 := by
    rw [hC.length, length_innerPlaintext]
  have hrec := decode_record C (b := b) (m := m) hid (b.seqOf b.role.peer)
    (show (C.encrypt (a.keyOf b.role.peer) iv (innerPlaintext m)
      (a.header (b.seqOf b.role.peer) (m.length + 19))).length < 65536 by omega)
    hiv (by rw [hct, hkey]; exact hC.decrypt _ _ _ _) (openInner_innerPlaintext (by omega))
  rwa [hct] at hrec

end SecuredSession

end LinkedsemiZephyr.Spdm
