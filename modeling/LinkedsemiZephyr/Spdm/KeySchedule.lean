import LinkedsemiZephyr.Spdm.MctpUsb

/-! The `hashlib` and `cryptography` calls of the host testers as parameters, and the
key schedule the testers build from them. What a result assumes of the parameters it
says by name. -/
namespace LinkedsemiZephyr.Spdm
open Octets

/-- Random draws are arguments: an ephemeral private key for `dhe_p256_keypair` and
`exchange`, the ECDSA nonce for `sign`. Signing and verifying use the key of the
device certificate. -/
structure Crypto where
  sha256 : Bytes → Bytes
  hmacSha256 : Bytes → Bytes → Bytes
  hkdfExpand : Bytes → Bytes → Nat → Bytes
  pubXy : Nat → Sized 64
  exchange : Nat → Bytes → Option Bytes
  sign : Nat → Bytes → Sized 64
  verify : Bytes → Bytes → Bool
  encrypt : (key iv plaintext aad : Bytes) → Bytes
  decrypt : (key iv ciphertext aad : Bytes) → Option Bytes

def ascii (s : String) : Bytes := s.toList.map fun c => UInt8.ofNat c.toNat

def zeros (n : Nat) : Bytes := List.replicate n 0

/-- `spdm_bin_concat`; with no context nothing is appended. -/
def spdmBinConcat (label : String) (length : Nat) (context : Bytes) : Bytes :=
  leBytes 2 length ++ (ascii "spdm1.3 " ++ (ascii label ++ context))

def spdm13SigningContext (opContext : Bytes) : Bytes :=
  let pre := (((ascii "dmtf-spdm-v1.3.*").set 11 49).set 13 51).set 15 42
  pre ++ pre ++ pre ++ pre ++ zeros (36 - opContext.length) ++ opContext

def keyExchangeContext : Bytes := ascii "responder-key_exchange_rsp signing"
def challengeContext : Bytes := ascii "responder-challenge_auth signing"

structure HandshakeKeys where
  handshakeSecret : Bytes
  reqFinished : Bytes
  rspFinished : Bytes
  deriving DecidableEq, Repr

structure ApplicationKeys where
  reqKey : Bytes
  reqSalt : Bytes
  rspKey : Bytes
  rspSalt : Bytes
  deriving DecidableEq, Repr

namespace Crypto

variable (C : Crypto)

def hkdfExtract (salt ikm : Bytes) : Bytes := C.hmacSha256 salt ikm

def deriveHandshakeKeys (sharedSecret th1 : Bytes) : HandshakeKeys :=
  let handshakeSecret := C.hkdfExtract (zeros 32) sharedSecret
  let reqHs := C.hkdfExpand handshakeSecret (spdmBinConcat "req hs data" 32 th1) 32
  let rspHs := C.hkdfExpand handshakeSecret (spdmBinConcat "rsp hs data" 32 th1) 32
  { handshakeSecret
    reqFinished := C.hkdfExpand reqHs (spdmBinConcat "finished" 32 []) 32
    rspFinished := C.hkdfExpand rspHs (spdmBinConcat "finished" 32 []) 32 }

def deriveApplicationKeys (handshakeSecret th2 : Bytes) : ApplicationKeys :=
  let salt1 := C.hkdfExpand handshakeSecret (spdmBinConcat "derived" 32 []) 32
  let masterSecret := C.hkdfExtract salt1 (zeros 32)
  let reqApp := C.hkdfExpand masterSecret (spdmBinConcat "req app data" 32 th2) 32
  let rspApp := C.hkdfExpand masterSecret (spdmBinConcat "rsp app data" 32 th2) 32
  { reqKey := C.hkdfExpand reqApp (spdmBinConcat "key" 16 []) 16
    reqSalt := C.hkdfExpand reqApp (spdmBinConcat "iv" 12 []) 12
    rspKey := C.hkdfExpand rspApp (spdmBinConcat "key" 16 []) 16
    rspSalt := C.hkdfExpand rspApp (spdmBinConcat "iv" 12 []) 12 }

def dheP256Shared (priv : Nat) (peerXy : Bytes) : Except PyErr Bytes :=
  if peerXy.length ≠ 64 then .error (.peerKeyLength peerXy.length)
  else match C.exchange priv peerXy with
    | none => .error .invalidPoint
    | some shared => .ok shared

/-- `sign_spdm_hash`, with the ECDSA nonce. -/
def signSpdmHash (nonce : Nat) (opContext thHash : Bytes) : Sized 64 :=
  C.sign nonce (C.sha256 (spdm13SigningContext opContext ++ thHash))

/-- `verify_key_exchange_sig` and `verify_challenge_auth` differ in the context only. -/
def verifySpdmHash (opContext thHash signature : Bytes) : Except PyErr Unit :=
  if C.verify (C.sha256 (spdm13SigningContext opContext ++ thHash)) signature then .ok ()
  else .error .invalidSignature

/-- The output lengths of the real primitives. -/
structure FixedLengths : Prop where
  sha256 : ∀ m, (C.sha256 m).length = 32
  hmac : ∀ k m, (C.hmacSha256 k m).length = 32
  hkdf : ∀ k i n, (C.hkdfExpand k i n).length = n

/-- Both sides of an exchange with generated keys get the same point. -/
structure Commutes : Prop where
  defined : ∀ a b, (C.exchange a (C.pubXy b)).isSome = true
  commutes : ∀ a b, C.exchange a (C.pubXy b) = C.exchange b (C.pubXy a)

/-- The device certificate verifies what its private key signs. -/
def VerifiesOwn : Prop := ∀ nonce digest, C.verify digest (C.sign nonce digest) = true

/-- The primitives as injections. An injection of all strings has no fixed output
length; that no HMAC value is a proper suffix of another is what stays of it. -/
structure Injective : Prop where
  sha256 : ∀ {m m'}, C.sha256 m = C.sha256 m' → m = m'
  hmac : ∀ {k m k' m'}, C.hmacSha256 k m = C.hmacSha256 k' m' → k = k' ∧ m = m'
  hkdf : ∀ {k i k' i' n}, C.hkdfExpand k i n = C.hkdfExpand k' i' n → k = k' ∧ i = i'
  hmac_suffix : ∀ {k m k' m'}, C.hmacSha256 k m <:+ C.hmacSha256 k' m' →
    C.hmacSha256 k m = C.hmacSha256 k' m'

/-- Decryption undoes encryption, whose output is longer by the tag. -/
structure AeadCorrect : Prop where
  decrypt : ∀ key iv plaintext aad,
    C.decrypt key iv (C.encrypt key iv plaintext aad) aad = some plaintext
  length : ∀ key iv plaintext aad, (C.encrypt key iv plaintext aad).length = plaintext.length + 16

end Crypto

theorem spdmBinConcat_injective {label : String} {n : Nat} {c c' : Bytes}
    (h : spdmBinConcat label n c = spdmBinConcat label n c') : c = c' := by
  simpa only [spdmBinConcat, List.append_cancel_left_eq] using h

namespace Crypto.Injective

variable {C : Crypto} (inj : C.Injective)
include inj

/-- The response key pins the handshake secret and TH2. -/
theorem rspKey {hs th2 hs' th2' : Bytes}
    (h : (C.deriveApplicationKeys hs th2).rspKey = (C.deriveApplicationKeys hs' th2').rspKey) :
    hs = hs' ∧ th2 = th2' := by
  obtain ⟨happ, -⟩ := inj.hkdf h
  obtain ⟨hmaster, hinfo⟩ := inj.hkdf happ
  obtain ⟨hsalt, -⟩ := inj.hmac hmaster
  exact ⟨(inj.hkdf hsalt).1, spdmBinConcat_injective hinfo⟩

/-- The finished key of the response pins TH1. -/
theorem rspFinished {shared th1 shared' th1' : Bytes}
    (h : (C.deriveHandshakeKeys shared th1).rspFinished =
      (C.deriveHandshakeKeys shared' th1').rspFinished) :
    th1 = th1' := by
  obtain ⟨hhs, -⟩ := inj.hkdf h
  exact spdmBinConcat_injective (inj.hkdf hhs).2

/-- A string that ends in an HMAC value splits in one way. -/
theorem append_hmac {x k m x' k' m' : Bytes}
    (h : x ++ C.hmacSha256 k m = x' ++ C.hmacSha256 k' m') : x = x' ∧ k = k' ∧ m = m' := by
  have heq : C.hmacSha256 k m = C.hmacSha256 k' m' := by
    rcases List.suffix_or_suffix_of_suffix (h ▸ List.suffix_append x _)
      (List.suffix_append x' (C.hmacSha256 k' m')) with hs | hs
    · exact inj.hmac_suffix hs
    · exact (inj.hmac_suffix hs).symm
  rw [heq, List.append_cancel_right_eq] at h
  exact ⟨h, inj.hmac heq⟩

end Crypto.Injective

/-- `aead_iv`: the counter is xored into the first eight octets of the salt. -/
def aeadIv (salt : Bytes) (seq : Nat) : Except PyErr Bytes :=
  if 2 ^ 64 ≤ seq then .error .structError
  else if salt.length < 8 then .error .indexError
  else .ok (xorFront salt (leBytes 8 seq))

theorem aeadIv_ok {salt iv : Bytes} {seq : Nat} (h : aeadIv salt seq = .ok iv) :
    seq < 2 ^ 64 ∧ 8 ≤ salt.length ∧ iv = xorFront salt (leBytes 8 seq) := by
  simp only [aeadIv] at h
  split_ifs at h with hs hl
  cases h
  exact ⟨by omega, by omega, rfl⟩

/-- Under one salt the counter determines the IV and the IV the counter. -/
theorem aeadIv_injective {salt iv : Bytes} {m n : Nat} (hm : aeadIv salt m = .ok iv)
    (hn : aeadIv salt n = .ok iv) : m = n := by
  obtain ⟨hm64, hlen, rfl⟩ := aeadIv_ok hm
  obtain ⟨hn64, -, h⟩ := aeadIv_ok hn
  have hpow : (256 : Nat) ^ 8 = 2 ^ 64 := by decide
  have hle := xorFront_injective (by simpa using hlen) (by simp) h
  exact leBytes_injective (hpow ▸ hm64) (hpow ▸ hn64) hle

/-- Primitives that ignore their inputs; they meet every assumption but injectivity. -/
def constantCrypto : Crypto where
  sha256 _ := zeros 32
  hmacSha256 _ _ := zeros 32
  hkdfExpand _ _ n := zeros n
  pubXy _ := ⟨zeros 64, rfl⟩
  exchange _ _ := some (zeros 32)
  sign _ _ := ⟨zeros 64, rfl⟩
  verify _ _ := true
  encrypt _ _ plaintext _ := plaintext ++ zeros 16
  decrypt _ _ ciphertext _ := some (ciphertext.take (ciphertext.length - 16))

@[simp] theorem length_zeros (n : Nat) : (zeros n).length = n := List.length_replicate

theorem constantCrypto_fixedLengths : constantCrypto.FixedLengths where
  sha256 _ := rfl
  hmac _ _ := rfl
  hkdf _ _ n := length_zeros n

theorem constantCrypto_commutes : constantCrypto.Commutes where
  defined _ _ := rfl
  commutes _ _ := rfl

theorem constantCrypto_verifiesOwn : constantCrypto.VerifiesOwn := fun _ _ => rfl

theorem constantCrypto_aeadCorrect : constantCrypto.AeadCorrect where
  decrypt _ _ plaintext _ := by simp [constantCrypto]
  length _ _ plaintext _ := by simp [constantCrypto]

end LinkedsemiZephyr.Spdm
