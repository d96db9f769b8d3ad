import Mathlib.Data.Fintype.Basic
import LinkedsemiZephyr.Lib.Octets
import LinkedsemiZephyr.Lib.SlotPool
import LinkedsemiZephyr.Lib.Transducer

/-! The crypto driver over mbedtls (`crypto_mtls_shim.c`): sessions out of a fixed table, the
handlers of the cipher modes and of the hashes, and the driver as each caller sees it. -/
namespace LinkedsemiZephyr.Crypto
open Octets SlotPool

/-- `flags` of a context: `other` is any capability outside `MTLS_SUPPORT`. -/
structure Caps where
  noIvPrefix : Bool
  other : Bool

inductive CipherAlgo where
  | aes | other
deriving DecidableEq

inductive CipherMode where
  | ecb | cbc | ctr | ccm | gcm | other
deriving DecidableEq

inductive CipherOp where
  | encrypt | decrypt
deriving DecidableEq

inductive HashAlgo where
  | sha224 | sha256 | sha384 | sha512 | other
deriving DecidableEq

/-- `mbedtls/ccm.h` and `mbedtls/gcm.h`, over the contexts of a session. -/
structure Aead (κ : Type) where
  init : κ
  setkey : κ → Bytes → Nat → Int × κ
  /-- From length, nonce and its length, additional data, input and the tag's length. -/
  encrypt : κ → Nat → Bytes → Nat → Bytes → Bytes → Nat → Int × κ × Bytes × Bytes
  /-- The same with the tag. -/
  decrypt : κ → Nat → Bytes → Nat → Bytes → Bytes → Bytes → Nat → Int × κ × Bytes
  free : κ → κ
  authFailed : Int

/-- `mbedtls/sha256.h` and `mbedtls/sha512.h`: `starts` has the flag of the shorter hash. -/
structure Sha (κ : Type) where
  init : κ
  starts : κ → Bool → Int × κ
  update : κ → Bytes → Int × κ
  finish : κ → Int × κ × Bytes
  free : κ → κ

/-- mbedtls over the union of its contexts in a session: what a function returns depends on the
context and the arguments alone. The calls of the driver are interleaved whole, where the search
for a session in the source has no lock. -/
structure Mbedtls (κ : Type) where
  zeroed : κ
  aesInit : κ
  aesSetkeyEnc : κ → Bytes → Nat → Int × κ
  aesSetkeyDec : κ → Bytes → Nat → Int × κ
  aesCryptEcb : κ → CipherOp → Bytes → Int × κ × Bytes
  /-- From length, iv and input, to the next iv and the output. -/
  aesCryptCbc : κ → CipherOp → Nat → Bytes → Bytes → Int × κ × Bytes × Bytes
  /-- From length, offset in the stream, counter, stream block and input. -/
  aesCryptCtr : κ → Nat → Nat → Bytes → Bytes → Bytes → Int × κ × Bytes
  aesFree : κ → κ
  ccm : Aead κ
  gcm : Aead κ
  sha256 : Sha κ
  sha512 : Sha κ
  /-- `CONFIG_MBEDTLS_CIPHER_GCM_ENABLED`. -/
  gcmEnabled : Bool

def einval : Int := 22

def enospc : Int := 28

def efault : Int := 14

/-- `mode` and `algo` of a session share their storage. -/
inductive Kind where
  | mode (m : CipherMode)
  | algo (a : HashAlgo)
deriving DecidableEq

/-- `struct mtls_shim_session` without `in_use`. -/
structure Session (κ : Type) where
  ctx : κ
  kind : Kind

/-- What the driver reads and writes of a `struct cipher_ctx`. -/
structure CipherCtx where
  flags : Caps
  key : Bytes
  keylen : Nat
  ctrLen : Nat
  nonceLen : Nat
  tagLen : Nat
  hndlr : Option (CipherMode × CipherOp)

/-- What it reads and writes of a `struct hash_ctx`; the handler is that of `sha512.h` or of
`sha256.h`. -/
structure HashCtx where
  flags : Caps
  started : Bool
  wide : Bool

/-- A `struct cipher_pkt`, with what a mode needs besides. -/
structure Packet where
  inBuf : Bytes
  inLen : Nat
  outLen : Int
  iv : Bytes
  ad : Bytes
  tag : Bytes

/-- What a call leaves with the caller; `ret` is missing where no handler was set. -/
structure Answer where
  ret : Option Int
  outBuf : Bytes
  outLen : Int
  iv : Bytes
  tag : Bytes

def Answer.code (ret : Int) : Answer := ⟨some ret, [], 0, [], []⟩

def Packet.answer (pkt : Packet) (ret : Int) (outBuf : Bytes) : Answer :=
  ⟨some ret, outBuf, pkt.outLen, pkt.iv, pkt.tag⟩

section Handlers

variable {κ : Type} (M : Mbedtls κ)

/-- The loop of `mtls_ecb_encrypt` and `mtls_ecb_decrypt` over the blocks left. -/
def ecbLoop (op : CipherOp) (inBuf : Bytes) : Nat → Nat → κ → Int → κ × Int × Bytes × Int
  | 0, _, ctx, outLen => (ctx, 0, [], outLen)
  | blocks + 1, i, ctx, outLen =>
    let (ret, ctx, block) := M.aesCryptEcb ctx op (slice inBuf i (i + 16))
    if ret ≠ 0 then (ctx, -einval, block, outLen)
    else
      let (ctx, ret, rest, outLen) := ecbLoop op inBuf blocks (i + 16) ctx (outLen + 16)
      (ctx, ret, block ++ rest, outLen)

def mtlsEcb (op : CipherOp) (ctx : κ) (pkt : Packet) : κ × Answer :=
  let (ctx, ret, out, outLen) := ecbLoop M op pkt.inBuf ((pkt.inLen + 15) / 16) 0 ctx pkt.outLen
  (ctx, { pkt.answer ret out with outLen })

/-- Without `CAP_NO_IV_PREFIX` the iv goes before the output and the caller's iv goes on. -/
def mtlsCbcEncrypt (c : CipherCtx) (ctx : κ) (pkt : Packet) : κ × Answer :=
  let ivBytes := if c.flags.noIvPrefix then 0 else 16
  let (ret, ctx, iv, out) := M.aesCryptCbc ctx .encrypt pkt.inLen (slice pkt.iv 0 16) pkt.inBuf
  let left := pkt.answer (if ret ≠ 0 then -einval else 0) (slice pkt.iv 0 ivBytes ++ out)
  let left := if c.flags.noIvPrefix then left else { left with iv }
  (ctx, if ret ≠ 0 then left else { left with outLen := pkt.inLen + ivBytes })

def mtlsCbcDecrypt (c : CipherCtx) (ctx : κ) (pkt : Packet) : κ × Answer :=
  let ivBytes := if c.flags.noIvPrefix then 0 else 16
  let (ret, ctx, iv, out) :=
    M.aesCryptCbc ctx .decrypt pkt.inLen (slice pkt.iv 0 16) (pkt.inBuf.drop ivBytes)
  let left := pkt.answer (if ret ≠ 0 then -einval else 0) out
  let left := if c.flags.noIvPrefix then left else { left with iv }
  (ctx, if ret ≠ 0 then left else { left with outLen := pkt.inLen - ivBytes })

def mtlsCtrEncrypt (c : CipherCtx) (ctx : κ) (pkt : Packet) : κ × Answer :=
  let ivLen := 16 - c.ctrLen / 8
  let nonceCounter := slice pkt.iv 0 ivLen ++ List.replicate (16 - ivLen) 0
  let (ret, ctx, out) := M.aesCryptCtr ctx pkt.inLen 0 nonceCounter (List.replicate 16 0) pkt.inBuf
  (ctx, if ret ≠ 0 then pkt.answer (-einval) out else { pkt.answer 0 out with outLen := pkt.inLen })

/-- `mtls_ccm_encrypt_auth` and `mtls_gcm_encrypt_auth`. -/
def encryptAuth (A : Aead κ) (c : CipherCtx) (ctx : κ) (pkt : Packet) : κ × Answer :=
  let (ret, ctx, out, tag) := A.encrypt ctx pkt.inLen pkt.iv c.nonceLen pkt.ad pkt.inBuf c.tagLen
  (ctx, if ret ≠ 0 then { pkt.answer (-einval) out with tag }
    else { pkt.answer 0 out with tag, outLen := pkt.inLen + c.tagLen })

/-- `mtls_ccm_decrypt_auth` and `mtls_gcm_decrypt_auth`. -/
def decryptAuth (A : Aead κ) (c : CipherCtx) (ctx : κ) (pkt : Packet) : κ × Answer :=
  let (ret, ctx, out) := A.decrypt ctx pkt.inLen pkt.iv c.nonceLen pkt.ad pkt.inBuf pkt.tag c.tagLen
  (ctx, if ret ≠ 0 then pkt.answer (if ret = A.authFailed then -efault else -einval) out
    else { pkt.answer 0 out with outLen := pkt.inLen + c.tagLen })

/-- The call through the handler of a context. -/
def cipherHndlr (c : CipherCtx) (ctx : κ) (pkt : Packet) : κ × Answer :=
  match c.hndlr with
  | some (.ecb, op) => mtlsEcb M op ctx pkt
  | some (.cbc, .encrypt) => mtlsCbcEncrypt M c ctx pkt
  | some (.cbc, .decrypt) => mtlsCbcDecrypt M c ctx pkt
  | some (.ctr, _) => mtlsCtrEncrypt M c ctx pkt
  | some (.ccm, .encrypt) => encryptAuth M.ccm c ctx pkt
  | some (.ccm, .decrypt) => decryptAuth M.ccm c ctx pkt
  | some (.gcm, .encrypt) => encryptAuth M.gcm c ctx pkt
  | some (.gcm, .decrypt) => decryptAuth M.gcm c ctx pkt
  | some (.other, _) | none => (ctx, { pkt.answer 0 [] with ret := none })

/-- The checks of `mtls_session_setup` before it looks for a session. -/
def cipherRefused (c : CipherCtx) (algo : CipherAlgo) (mode : CipherMode) : Bool :=
  c.flags.other || algo != .aes || mode == .other || (mode == .gcm && !M.gcmEnabled) ||
    !(c.keylen == 16 || c.keylen == 24 || c.keylen == 32)

def aesSetkey (op : CipherOp) : κ → Bytes → Nat → Int × κ :=
  if op = .encrypt then M.aesSetkeyEnc else M.aesSetkeyDec

/-- The `switch` of `mtls_session_setup`: the key goes into a context just initialised. -/
def setkey (c : CipherCtx) (mode : CipherMode) (op : CipherOp) : Int × κ × CipherCtx :=
  match mode with
  | .ecb | .cbc =>
    let (ret, ctx) := aesSetkey M op M.aesInit c.key (c.keylen * 8)
    (ret, ctx, { c with hndlr := if ret ≠ 0 then none else some (mode, op) })
  | .ctr =>
    let (ret, ctx) := M.aesSetkeyEnc M.aesInit c.key (c.keylen * 8)
    (ret, ctx, { c with hndlr := if ret ≠ 0 then none else some (.ctr, .encrypt) })
  | .ccm =>
    let (ret, ctx) := M.ccm.setkey M.ccm.init c.key (c.keylen * 8)
    (ret, ctx, if ret ≠ 0 then c else { c with hndlr := some (.ccm, op) })
  | .gcm =>
    let (ret, ctx) := M.gcm.setkey M.gcm.init c.key (c.keylen * 8)
    (ret, ctx, if ret ≠ 0 then c else { c with hndlr := some (.gcm, op) })
  | .other => (-einval, M.zeroed, c)

def cipherFree (s : Session κ) : κ :=
  if s.kind = .mode .ccm then M.ccm.free s.ctx
  else if s.kind = .mode .gcm ∧ M.gcmEnabled then M.gcm.free s.ctx
  else M.aesFree s.ctx

def hashRefused (h : HashCtx) (algo : HashAlgo) : Bool := h.flags.other || algo == .other

def shaOf (wide : Bool) : Sha κ := if wide then M.sha512 else M.sha256

/-- The flag for `starts`: SHA-224 and SHA-384. -/
def shorter (wide : Bool) (kind : Kind) : Bool := kind == .algo (if wide then .sha384 else .sha224)

/-- `if (!ctx->started)`, with what `starts` returns. -/
def shaStart (h : HashCtx) (s : Session κ) : Int × κ :=
  if h.started then (0, s.ctx) else (shaOf M h.wide).starts s.ctx (shorter h.wide s.kind)

/-- `mtls_sha256_compute` and `mtls_sha512_compute`. -/
def shaCompute (h : HashCtx) (s : Session κ) (inBuf : Bytes) (finish : Bool) :
    HashCtx × κ × Answer :=
  let start := shaStart M h s
  let update := (shaOf M h.wide).update start.2 inBuf
  if start.1 ≠ 0 then (h, start.2, .code (-einval))
  else if update.1 ≠ 0 then ({ h with started := false }, update.2, .code (-einval))
  else if finish then
    let (ret, ctx, digest) := (shaOf M h.wide).finish update.2
    ({ h with started := false }, ctx,
      { Answer.code (if ret ≠ 0 then -einval else 0) with outBuf := digest })
  else ({ h with started := true }, update.2, .code 0)

/-- What initialises the context of a hash session. -/
def shaInit (algo : HashAlgo) : κ × Bool :=
  if algo = .sha224 ∨ algo = .sha256 then (M.sha256.init, false) else (M.sha512.init, true)

def hashFree (s : Session κ) : κ :=
  if s.kind = .algo .sha256 then M.sha256.free s.ctx else M.sha512.free s.ctx

end Handlers

/-- The calls of the crypto API, with the context the caller has filled in. -/
inductive Call where
  | cipherBegin (c : CipherCtx) (algo : CipherAlgo) (mode : CipherMode) (op : CipherOp)
  | cipher (pkt : Packet)
  | cipherFree
  | hashBegin (h : HashCtx) (algo : HashAlgo)
  | hash (inBuf : Bytes) (finish : Bool)
  | hashFree

inductive Ctx where
  | cipher (c : CipherCtx)
  | hash (h : HashCtx)

section Driver

variable {ι κ : Type} [DecidableEq ι] (M : Mbedtls κ)

/-- `mtls_sessions`, and the callers' contexts with the session each points to. -/
structure Pool (ι κ : Type) where
  sessions : List (Slot (Session κ))
  ctx : ι → Ctx
  drvSessnState : ι → Nat

def Pool.slot (p : Pool ι κ) (k : Nat) : Slot (Session κ) :=
  p.sessions[k]?.getD ⟨⟨M.zeroed, .mode .other⟩, false⟩

def Pool.setCtx (p : Pool ι κ) (i : ι) (c : Ctx) : Pool ι κ :=
  { p with ctx := Function.update p.ctx i c }

def Pool.setSlot (p : Pool ι κ) (k : Nat) (x : Slot (Session κ)) : Pool ι κ :=
  { p with sessions := p.sessions.set k x }

def Pool.point (p : Pool ι κ) (i : ι) (k : Nat) : Pool ι κ :=
  { p with drvSessnState := Function.update p.drvSessnState i k }

def mtlsSessionSetup (p : Pool ι κ) (i : ι) (c : CipherCtx) (algo : CipherAlgo) (mode : CipherMode)
    (op : CipherOp) :
    Pool ι κ × Answer :=
  if cipherRefused M c algo mode then (p.setCtx i (.cipher c), .code (-einval))
  else
    match firstFree p.sessions with
    | none => (p.setCtx i (.cipher c), .code (-enospc))
    | some k =>
      let (ret, ctx, c) := setkey M c mode op
      if ret ≠ 0 then
        ((p.setCtx i (.cipher c)).setSlot k ⟨⟨ctx, (p.slot M k).content.kind⟩, false⟩,
          .code (-einval))
      else (((p.setCtx i (.cipher c)).setSlot k ⟨⟨ctx, .mode mode⟩, true⟩).point i k, .code 0)

def mtlsHashSessionSetup (p : Pool ι κ) (i : ι) (h : HashCtx) (algo : HashAlgo) :
    Pool ι κ × Answer :=
  if hashRefused h algo then (p.setCtx i (.hash h), .code (-einval))
  else
    match firstFree p.sessions with
    | none => (p.setCtx i (.hash h), .code (-enospc))
    | some k =>
      let (ctx, wide) := shaInit M algo
      (((p.setCtx i (.hash { h with started := false, wide })).setSlot k
        ⟨⟨ctx, .algo algo⟩, true⟩).point i k, .code 0)

/-- A handler works on the session its context points to. -/
def Pool.cipher (p : Pool ι κ) (i : ι) (c : CipherCtx) (pkt : Packet) : Pool ι κ × Answer :=
  let k := p.drvSessnState i
  let x := p.slot M k
  let (ctx, answer) := cipherHndlr M c x.content.ctx pkt
  (p.setSlot k ⟨⟨ctx, x.content.kind⟩, x.inUse⟩, answer)

def Pool.hash (p : Pool ι κ) (i : ι) (h : HashCtx) (inBuf : Bytes) (finish : Bool) :
    Pool ι κ × Answer :=
  let k := p.drvSessnState i
  let x := p.slot M k
  let (h, ctx, answer) := shaCompute M h x.content inBuf finish
  ((p.setCtx i (.hash h)).setSlot k ⟨⟨ctx, x.content.kind⟩, x.inUse⟩, answer)

def mtlsSessionFree (p : Pool ι κ) (i : ι) : Pool ι κ × Answer :=
  let k := p.drvSessnState i
  let s := (p.slot M k).content
  (p.setSlot k ⟨⟨cipherFree M s, s.kind⟩, false⟩, .code 0)

def mtlsHashSessionFree (p : Pool ι κ) (i : ι) : Pool ι κ × Answer :=
  let k := p.drvSessnState i
  let s := (p.slot M k).content
  (p.setSlot k ⟨⟨hashFree M s, s.kind⟩, false⟩, .code 0)

/-- A call made with another kind of context than it is for is not a call of the API. -/
def Pool.step (p : Pool ι κ) (input : ι × Call) : Pool ι κ × Answer :=
  match input.2, p.ctx input.1 with
  | .cipherBegin c algo mode op, _ => mtlsSessionSetup M p input.1 c algo mode op
  | .hashBegin h algo, _ => mtlsHashSessionSetup M p input.1 h algo
  | .cipher pkt, .cipher c => p.cipher M input.1 c pkt
  | .hash inBuf finish, .hash h => p.hash M input.1 h inBuf finish
  | .cipherFree, .cipher _ => mtlsSessionFree M p input.1
  | .hashFree, .hash _ => mtlsHashSessionFree M p input.1
  | _, _ => (p, .code 0)

/-- A driver of one caller alone: its context, and its session while it has one. -/
structure Solo (κ : Type) where
  ctx : Ctx
  session : Option (Session κ)

/-- The calls of one caller; what it is told besides is whether the table has room. -/
def Solo.step (s : Solo κ) (input : Call × Bool) : Solo κ × Answer :=
  match input.1, s.ctx, s.session with
  | .cipherBegin c algo mode op, _, _ =>
    if cipherRefused M c algo mode then (⟨.cipher c, none⟩, .code (-einval))
    else if input.2 then
      let (ret, ctx, c) := setkey M c mode op
      if ret ≠ 0 then (⟨.cipher c, none⟩, .code (-einval))
      else (⟨.cipher c, some ⟨ctx, .mode mode⟩⟩, .code 0)
    else (⟨.cipher c, none⟩, .code (-enospc))
  | .hashBegin h algo, _, _ =>
    if hashRefused h algo then (⟨.hash h, none⟩, .code (-einval))
    else if input.2 then
      let (ctx, wide) := shaInit M algo
      (⟨.hash { h with started := false, wide }, some ⟨ctx, .algo algo⟩⟩, .code 0)
    else (⟨.hash h, none⟩, .code (-enospc))
  | .cipher pkt, .cipher c, some x =>
    let (ctx, answer) := cipherHndlr M c x.ctx pkt
    (⟨s.ctx, some ⟨ctx, x.kind⟩⟩, answer)
  | .hash inBuf finish, .hash h, some x =>
    let (h, ctx, answer) := shaCompute M h x inBuf finish
    (⟨.hash h, some ⟨ctx, x.kind⟩⟩, answer)
  | .cipherFree, .cipher _, some _ => (⟨s.ctx, none⟩, .code 0)
  | .hashFree, .hash _, some _ => (⟨s.ctx, none⟩, .code 0)
  | _, _, _ => (s, .code 0)

/-- A context is begun when it has no session, and used and freed, as what it is, while it has. -/
def Solo.Legal (s : Solo κ) : Call → Prop
  | .cipherBegin _ _ _ _ | .hashBegin _ _ => s.session = none
  | .cipher _ | .cipherFree => s.session ≠ none ∧ ∃ c, s.ctx = .cipher c
  | .hash _ _ | .hashFree => s.session ≠ none ∧ ∃ h, s.ctx = .hash h

variable [Fintype ι] {M} {N : Nat} {f : ι → Solo κ} {p : Pool ι κ} {i : ι}

def opened (f : ι → Solo κ) : Finset ι := Finset.univ.filter fun i => (f i).session.isSome

/-- Whether one of `N` sessions is free. -/
def room (N : Nat) (f : ι → Solo κ) : Bool := decide ((opened f).card < N)

/-- The driver as its callers see it. -/
structure Seen (N : Nat) (f : ι → Solo κ) (p : Pool ι κ) : Prop where
  length : p.sessions.length = N
  ctx : ∀ i, p.ctx i = (f i).ctx
  serves : Serves p.sessions p.drvSessnState (fun i => (f i).session) (opened f)

omit [DecidableEq ι] in
theorem Seen.slot (h : Seen N f p) {s : Session κ} (hs : (f i).session = some s) :
    p.slot M (p.drvSessnState i) = ⟨s, true⟩ := by
  rw [Pool.slot, h.serves.held i s hs]
  rfl

omit [DecidableEq ι] in
theorem Seen.firstFree_none (h : Seen N f p) : firstFree p.sessions = none ↔ room N f = false := by
  have hle := h.serves.card_le
  rw [h.serves.full_iff, room, decide_eq_false_iff_not, h.length]
  rw [h.length] at hle
  omega

/-- One caller's part of the driver has changed, with its session. -/
theorem Seen.change (h : Seen N f p) (s : Solo κ) {sessions : List (Slot (Session κ))}
    {place : ι → Nat} (open' : Finset ι) (hlen : sessions.length = N)
    (hserves : Serves sessions place (Function.update (fun i => (f i).session) i s.session) open') :
    Seen N (Function.update f i s) ⟨sessions, Function.update p.ctx i s.ctx, place⟩ := by
  have hview : (fun j => (Function.update f i s j).session) =
      Function.update (fun j => (f j).session) i s.session :=
    Function.comp_update Solo.session f i s
  have hopen : opened (Function.update f i s) = open' := by
    ext j
    rw [hserves.mem_opened j, ← hview, opened, Finset.mem_filter]
    exact and_iff_right (Finset.mem_univ j)
  have hctx : (fun j => (Function.update f i s j).ctx) = Function.update p.ctx i s.ctx := by
    rw [funext h.ctx]
    exact Function.comp_update Solo.ctx f i s
  refine ⟨hlen, fun j => (congrFun hctx j).symm, ?_⟩
  rw [hopen, hview]
  exact hserves

omit [DecidableEq ι] in
theorem Seen.not_opened (hs : (f i).session = none) : i ∉ opened f := by
  intro hi
  have hsome := (Finset.mem_filter.mp hi).2
  rw [hs] at hsome
  exact Bool.false_ne_true hsome

/-- A caller without a session stays without one. -/
theorem Seen.keep_closed (h : Seen N f p) (hs : (f i).session = none) (c : Ctx) :
    Seen N (Function.update f i ⟨c, none⟩) (p.setCtx i c) := by
  apply h.change ⟨c, none⟩ (opened f) h.length
  rw [← hs, Function.update_eq_self]
  exact h.serves

theorem Seen.spoil (h : Seen N f p) (hs : (f i).session = none) (c : Ctx) {k : Nat}
    (hk : firstFree p.sessions = some k) (s : Session κ) :
    Seen N (Function.update f i ⟨c, none⟩) ((p.setCtx i c).setSlot k ⟨s, false⟩) := by
  apply h.change ⟨c, none⟩ (opened f) (List.length_set.trans h.length)
  rw [← hs, Function.update_eq_self]
  exact h.serves.spoil hk

theorem Seen.take (h : Seen N f p) (hs : (f i).session = none) (c : Ctx) {k : Nat}
    (hk : firstFree p.sessions = some k) (s : Session κ) :
    Seen N (Function.update f i ⟨c, some s⟩) (((p.setCtx i c).setSlot k ⟨s, true⟩).point i k) :=
  h.change ⟨c, some s⟩ _ (List.length_set.trans h.length) (h.serves.take hk (Seen.not_opened hs))

theorem Seen.write (h : Seen N f p) {s : Session κ} (hs : (f i).session = some s) (c : Ctx)
    (s' : Session κ) :
    Seen N (Function.update f i ⟨c, some s'⟩)
      ((p.setCtx i c).setSlot (p.drvSessnState i) ⟨s', true⟩) :=
  h.change ⟨c, some s'⟩ _ (List.length_set.trans h.length) (h.serves.write hs s')

theorem Seen.free (h : Seen N f p) {s : Session κ} (hs : (f i).session = some s) (s' : Session κ) :
    Seen N (Function.update f i ⟨(f i).ctx, none⟩) (p.setSlot (p.drvSessnState i) ⟨s', false⟩) := by
  have hfree := h.change ⟨(f i).ctx, none⟩ _ (List.length_set.trans h.length) (h.serves.free hs s')
  rw [← h.ctx i, Function.update_eq_self] at hfree
  rw [← h.ctx i]
  exact hfree

theorem Seen.cipherBegin (h : Seen N f p) (hs : (f i).session = none) (c : CipherCtx)
    (algo : CipherAlgo) (mode : CipherMode) (op : CipherOp) {out : Solo κ × Answer}
    (hout : out = (f i).step M (.cipherBegin c algo mode op, room N f)) :
    Seen N (Function.update f i out.1) (mtlsSessionSetup M p i c algo mode op).1 ∧
      (mtlsSessionSetup M p i c algo mode op).2 = out.2 := by
  subst hout
  rw [mtlsSessionSetup, Solo.step]
  dsimp only
  by_cases hrefused : cipherRefused M c algo mode = true
  · rw [if_pos hrefused, if_pos hrefused]
    exact ⟨h.keep_closed hs _, rfl⟩
  · rw [if_neg hrefused, if_neg hrefused]
    cases hk : firstFree p.sessions with
    | none =>
        rw [h.firstFree_none.mp hk, if_neg Bool.false_ne_true]
        exact ⟨h.keep_closed hs _, rfl⟩
    | some k =>
        have hroom : room N f = true := by
          rw [← Bool.not_eq_false]
          exact fun hno => Option.some_ne_none k (hk.symm.trans (h.firstFree_none.mpr hno))
        rw [hroom, if_pos rfl]
        dsimp only
        by_cases hret : (setkey M c mode op).1 = 0
        · rw [if_neg (not_not.mpr hret), if_neg (not_not.mpr hret)]
          exact ⟨h.take hs _ hk _, rfl⟩
        · rw [if_pos hret, if_pos hret]
          exact ⟨h.spoil hs _ hk _, rfl⟩

theorem Seen.hashBegin (h : Seen N f p) (hs : (f i).session = none) (c : HashCtx) (algo : HashAlgo)
    {out : Solo κ × Answer} (hout : out = (f i).step M (.hashBegin c algo, room N f)) :
    Seen N (Function.update f i out.1) (mtlsHashSessionSetup M p i c algo).1 ∧
      (mtlsHashSessionSetup M p i c algo).2 = out.2 := by
  subst hout
  rw [mtlsHashSessionSetup, Solo.step]
  dsimp only
  by_cases hrefused : hashRefused c algo = true
  · rw [if_pos hrefused, if_pos hrefused]
    exact ⟨h.keep_closed hs _, rfl⟩
  · rw [if_neg hrefused, if_neg hrefused]
    cases hk : firstFree p.sessions with
    | none =>
        rw [h.firstFree_none.mp hk, if_neg Bool.false_ne_true]
        exact ⟨h.keep_closed hs _, rfl⟩
    | some k =>
        have hroom : room N f = true := by
          rw [← Bool.not_eq_false]
          exact fun hno => Option.some_ne_none k (hk.symm.trans (h.firstFree_none.mpr hno))
        rw [hroom, if_pos rfl]
        exact ⟨h.take hs _ hk _, rfl⟩

/-- A call of one caller on the driver is a call on its own part of it. -/
theorem Seen.step (h : Seen N f p) {call : Call} (hlegal : (f i).Legal call) :
    Seen N (Function.update f i ((f i).step M (call, room N f)).1) (p.step M (i, call)).1 ∧
      (p.step M (i, call)).2 = ((f i).step M (call, room N f)).2 := by
  cases call with
  | cipherBegin c algo mode op => exact h.cipherBegin hlegal c algo mode op rfl
  | hashBegin c algo => exact h.hashBegin hlegal c algo rfl
  | cipher pkt =>
      obtain ⟨hopen, c, hc⟩ := hlegal
      obtain ⟨s, hs⟩ := Option.ne_none_iff_exists'.mp hopen
      have hctx : p.ctx i = .cipher c := (h.ctx i).trans hc
      have hsame : p.setCtx i (.cipher c) = p := by
        rw [Pool.setCtx, ← hctx, Function.update_eq_self]
      have hpool : p.step M (i, .cipher pkt) = p.cipher M i c pkt := by
        rw [Pool.step, hctx]
      have hsolo : (f i).step M (.cipher pkt, room N f) =
          (⟨.cipher c, some ⟨(cipherHndlr M c s.ctx pkt).1, s.kind⟩⟩,
            (cipherHndlr M c s.ctx pkt).2) := by
        rw [Solo.step, hc, hs]
      rw [hpool, hsolo, Pool.cipher, h.slot hs]
      have hwrite := h.write hs (.cipher c) ⟨(cipherHndlr M c s.ctx pkt).1, s.kind⟩
      rw [hsame] at hwrite
      exact ⟨hwrite, rfl⟩
  | hash inBuf finish =>
      obtain ⟨hopen, c, hc⟩ := hlegal
      obtain ⟨s, hs⟩ := Option.ne_none_iff_exists'.mp hopen
      have hctx : p.ctx i = .hash c := (h.ctx i).trans hc
      have hpool : p.step M (i, .hash inBuf finish) = p.hash M i c inBuf finish := by
        rw [Pool.step, hctx]
      have hsolo : (f i).step M (.hash inBuf finish, room N f) =
          (⟨.hash (shaCompute M c s inBuf finish).1,
            some ⟨(shaCompute M c s inBuf finish).2.1, s.kind⟩⟩,
            (shaCompute M c s inBuf finish).2.2) := by
        rw [Solo.step, hc, hs]
      rw [hpool, hsolo, Pool.hash, h.slot hs]
      exact ⟨h.write hs _ _, rfl⟩
  | cipherFree =>
      obtain ⟨hopen, c, hc⟩ := hlegal
      obtain ⟨s, hs⟩ := Option.ne_none_iff_exists'.mp hopen
      have hctx : p.ctx i = .cipher c := (h.ctx i).trans hc
      have hpool : p.step M (i, .cipherFree) = mtlsSessionFree M p i := by
        rw [Pool.step, hctx]
      have hsolo : (f i).step M (.cipherFree, room N f) = (⟨(f i).ctx, none⟩, .code 0) := by
        rw [Solo.step, hc, hs]
      rw [hpool, hsolo, mtlsSessionFree, h.slot hs]
      exact ⟨h.free hs _, rfl⟩
  | hashFree =>
      obtain ⟨hopen, c, hc⟩ := hlegal
      obtain ⟨s, hs⟩ := Option.ne_none_iff_exists'.mp hopen
      have hctx : p.ctx i = .hash c := (h.ctx i).trans hc
      have hpool : p.step M (i, .hashFree) = mtlsHashSessionFree M p i := by
        rw [Pool.step, hctx]
      have hsolo : (f i).step M (.hashFree, room N f) = (⟨(f i).ctx, none⟩, .code 0) := by
        rw [Solo.step, hc, hs]
      rw [hpool, hsolo, mtlsHashSessionFree, h.slot hs]
      exact ⟨h.free hs _, rfl⟩

def noteRoom (N : Nat) (f : ι → Solo κ) (input : ι × Call) : ι × (Call × Bool) :=
  (input.1, input.2, room N f)

/-- The callers' parts after a call. -/
def callers (M : Mbedtls κ) (N : Nat) (f : ι → Solo κ) (input : ι × Call) : ι → Solo κ :=
  (Transducer.family (Solo.step M) f (noteRoom N f input)).1

/-- Every caller keeps to the API. -/
def Legal (M : Mbedtls κ) (N : Nat) (f : ι → Solo κ) (calls : List (ι × Call)) : Prop :=
  GuardedRun.Follows (callers M N) (fun f input => (f input.1).Legal input.2) f calls

/-- The driver at boot, the contexts with anything in them. -/
def Pool.start (M : Mbedtls κ) (N : Nat) (ctx : ι → Ctx) (drv : ι → Nat) : Pool ι κ :=
  ⟨List.replicate N ⟨⟨M.zeroed, .mode .other⟩, false⟩, ctx, drv⟩

def soloStart (ctx : ι → Ctx) (i : ι) : Solo κ := ⟨ctx i, none⟩

omit [DecidableEq ι] in
theorem Seen.start (M : Mbedtls κ) (N : Nat) (ctx : ι → Ctx) (drv : ι → Nat) :
    Seen N (soloStart ctx) (Pool.start M N ctx drv) := by
  have hnone : opened (soloStart ctx : ι → Solo κ) = ∅ :=
    Finset.filter_false_of_mem fun _ _ => Bool.false_ne_true
  refine ⟨List.length_replicate, fun _ => rfl, ?_⟩
  rw [hnone]
  exact Serves.start _ _ fun x hx => (List.eq_of_mem_replicate hx) ▸ rfl

/-- Whatever the callers of the driver do in between, each gets the answers of a driver of its own,
which is told at each call whether fewer than all the sessions are in use. -/
theorem sessions_isolated (M : Mbedtls κ) (N : Nat) (ctx : ι → Ctx) (drv : ι → Nat)
    (calls : List (ι × Call)) (hlegal : Legal M N (soloStart ctx) calls) (i : ι) :
    Transducer.answersTo i calls (Transducer.outputs (Pool.step M) (Pool.start M N ctx drv) calls) =
      Transducer.outputs (Solo.step M) ⟨ctx i, none⟩ (Transducer.inputsOf i
        (Transducer.noted (Transducer.family (Solo.step M)) (noteRoom N)
          (soloStart ctx) calls)) := by
  have hrun : Transducer.outputs (Pool.step M) (Pool.start M N ctx drv) calls =
      Transducer.outputs (Transducer.family (Solo.step M)) (soloStart ctx)
        (Transducer.noted (Transducer.family (Solo.step M)) (noteRoom N) (soloStart ctx) calls) :=
    Transducer.outputs_noted (fun _ _ _ hseen hok => hseen.step hok) (Seen.start M N ctx drv) hlegal
  have hindex : ∀ (f : ι → Solo κ) (input : ι × Call), (noteRoom N f input).1 =
    input.1 := fun _ _ => rfl
  rw [hrun, ← Transducer.answersTo_noted hindex i (soloStart ctx) calls]
  exact Transducer.answersTo_family (Solo.step M) (soloStart ctx) _ i

end Driver

end LinkedsemiZephyr.Crypto
