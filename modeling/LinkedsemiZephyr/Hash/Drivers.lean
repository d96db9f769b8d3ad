import LinkedsemiZephyr.Lib.Tiling

/-! The hash test of `mbedtls_hash`: `hash_ref` and the drivers that hand a buffer to the
update function in chunks, for the three hashes of `sha256.h` and those of `sha512.h`. -/
namespace LinkedsemiZephyr.Hash
open Octets Tiling

variable {σ : Type}

/-- The functions of one hash over a context, with what they return. -/
structure HashApi (σ : Type) where
  init : σ
  starts : σ → Int × σ
  update : σ → Bytes → Int × σ
  finish : σ → Int × Bytes

/-- `mbedtls/sha256.h`: SHA-256 and SHA-224, and SM3 in the same context. -/
structure Sha256 (σ : Type) where
  init : σ
  sha256Starts : Int → σ → Int × σ
  sha256Update : σ → Bytes → Int × σ
  sha256Finish : σ → Int × Bytes
  sm3Starts : σ → Int × σ
  sm3Update : σ → Bytes → Int × σ
  sm3Finish : σ → Int × Bytes

/-- `mbedtls/sha512.h`. -/
structure Sha512 (σ : Type) where
  init : σ
  sha512Starts : Int → σ → Int × σ
  sha512Update : σ → Bytes → Int × σ
  sha512Finish : σ → Int × Bytes

/-- The branches on `sm3`. -/
def Sha256.api (M : Sha256 σ) (is224 : Int) (sm3 : Bool) : HashApi σ where
  init := M.init
  starts := if sm3 then M.sm3Starts else M.sha256Starts is224
  update := if sm3 then M.sm3Update else M.sha256Update
  finish := if sm3 then M.sm3Finish else M.sha256Finish

def Sha512.api (M : Sha512 σ) (is384 : Int) : HashApi σ where
  init := M.init
  starts := M.sha512Starts is384
  update := M.sha512Update
  finish := M.sha512Finish

/-- `data` and `len`; the object may go on behind. -/
structure Buffer where
  data : Bytes
  len : Nat
  fits : len ≤ data.length

/-- A call of the update function, and what it returned. -/
structure Update where
  piece : Piece
  ret : Int
  deriving DecidableEq

/-- A driver between its calls: the context, `ret`, and the updates made. -/
structure Session (σ : Type) where
  ctx : σ
  ret : Int
  updates : List Update := []

/-- What a driver returns, and the digest if `finish` was called. -/
structure Outcome where
  status : Int
  digest : Option Bytes
  updates : List Update
  deriving DecidableEq

namespace HashApi

variable (A : HashApi σ)

def start : Session σ where
  ctx := (A.starts A.init).2
  ret := (A.starts A.init).1

/-- `update(&ctx, data + off, size)`. -/
def feed (b : Buffer) (s : Session σ) (off size : Nat) : Session σ :=
  let (ret, ctx) := A.update s.ctx (Piece.of b.data (off, size))
  { ctx, ret, updates := s.updates ++ [⟨(off, size), ret⟩] }

def stop (s : Session σ) : Outcome :=
  if s.ret = 0 then
    let (ret, digest) := A.finish s.ctx
    ⟨ret, some digest, s.updates⟩
  else ⟨s.ret, none, s.updates⟩

/-- `hash_ref` and `hash_ref_sha512`. -/
def oneShot (b : Buffer) : Outcome :=
  let (ret, ctx) := A.starts A.init
  if ret = 0 then
    let (ret, ctx) := A.update ctx (b.data.take b.len)
    if ret = 0 then
      let (ret, digest) := A.finish ctx
      ⟨ret, some digest, [⟨(0, b.len), 0⟩]⟩
    else ⟨ret, none, [⟨(0, b.len), ret⟩]⟩
  else ⟨ret, none, []⟩

end HashApi

/-- How a driver chooses its chunks, from a state of its own: the size before it is cut to
what remains, and whether an update of no bytes comes before it. -/
structure Rule (τ : Type) where
  chunk : τ → Nat
  next : τ → τ
  splice : τ → Nat → Bool := fun _ _ => false
  chunk_pos : ∀ t, 0 < chunk t

/-- The loop of the drivers. -/
def HashApi.feedAll {τ : Type} (A : HashApi σ) (R : Rule τ) (b : Buffer) (t : τ) (off : Nat)
    (s : Session σ) :
    Session σ :=
  if s.ret = 0 ∧ off < b.len then
    let remain := b.len - off
    let chunk := min (R.chunk t) remain
    let s := if R.splice t off then A.feed b s off 0 else s
    let s := if s.ret = 0 then A.feed b s off chunk else s
    A.feedAll R b (R.next t) (off + chunk) s
  else s
termination_by b.len - off
decreasing_by
  have hpos := R.chunk_pos t
  omega

def HashApi.chunked {τ : Type} (A : HashApi σ) (R : Rule τ) (t : τ) (b : Buffer) : Outcome :=
  A.stop (A.feedAll R b t 0 A.start)

/-- The loop of `hash_multi_tiny`, which cuts nothing. -/
def HashApi.feedTiny (A : HashApi σ) (b : Buffer) (off : Nat) (s : Session σ) : Session σ :=
  if s.ret = 0 ∧ off < b.len then A.feedTiny b (off + 1) (A.feed b s off 1) else s
termination_by b.len - off

def HashApi.tiny (A : HashApi σ) (b : Buffer) : Outcome := A.stop (A.feedTiny b 0 A.start)

def xorshift32 (state : UInt32) : UInt32 :=
  let x := state ^^^ state <<< 13
  let x := x ^^^ x >>> 17
  x ^^^ x <<< 5

/-- `max_chunk`, with which the remainder is taken. -/
abbrev MaxChunk := { n : Nat // 1 ≤ n ∧ n < 2 ^ 32 }

/-- `r % max_chunk + 1`; the state is the seed. -/
def randomMax (maxChunk : MaxChunk) : Rule UInt32 where
  chunk := fun seed => (xorshift32 seed).toNat % maxChunk + 1
  next := xorshift32
  chunk_pos := fun _ => Nat.succ_pos _

def randomZeroSplice (maxChunk : MaxChunk) : Rule UInt32 where
  chunk := fun seed => (xorshift32 seed).toNat % maxChunk + 1
  next := xorshift32
  splice := fun seed off => decide (xorshift32 seed &&& 0x100 ≠ 0 ∧ 0 < off)
  chunk_pos := fun _ => Nat.succ_pos _

def alternating : Rule Bool where
  chunk := fun toggle => if toggle then 1 else 1024
  next := Bool.not
  chunk_pos := fun toggle => by cases toggle <;> decide

/-- A table of sizes. -/
abbrev Steps := { l : List Nat // 0 < l.length ∧ ∀ n ∈ l, 0 < n }

/-- `steps[s % ARRAY_SIZE(steps)]`. -/
def table (steps : Steps) : Rule Nat where
  chunk := fun s => steps.1.get ⟨s % steps.1.length, Nat.mod_lt s steps.2.1⟩
  next := (· + 1)
  chunk_pos := fun _ => steps.2.2 _ (List.get_mem _ _)

/-- Chunks of one size. -/
def constant (n : Nat) (h : 0 < n) : Rule Unit where
  chunk := fun _ => n
  next := id
  chunk_pos := fun _ => h

def boundarySteps : Steps :=
  ⟨[1, 63, 64, 65, 127, 128, 129,
    255, 256, 257, 511, 512, 513,
    1023, 1024, 1025, 2047, 2048, 2049], by decide⟩

def largeSteps : Steps :=
  ⟨[1, 63, 64, 65, 127, 128, 129,
    255, 256, 257, 511, 512, 513,
    1023, 1024, 1025,
    2047, 2048, 2049,
    4095, 4096, 4097,
    8127, 8128, 8129,
    8191, 8192, 8193,
    16383, 16384], by decide⟩

def mixedPattern : Steps :=
  ⟨[8192, 63, 8192, 65, 1024, 1, 512, 7, 4096, 31, 2048, 1,
    8128, 64, 8128, 65, 128, 127, 128, 1], by decide⟩

def boundaryStepsSha512 : Steps :=
  ⟨[1, 127, 128, 129,
    255, 256, 257,
    511, 512, 513,
    1023, 1024, 1025,
    2047, 2048, 2049], by decide⟩

def largeStepsSha512 : Steps :=
  ⟨[1, 127, 128, 129,
    255, 256, 257,
    511, 512, 513,
    1023, 1024, 1025,
    2047, 2048, 2049,
    4095, 4096, 4097,
    8127, 8128, 8129,
    8191, 8192, 8193,
    16383, 16384], by decide⟩

section Sha256Drivers
variable (M : Sha256 σ) (is224 : Int) (sm3 : Bool) (b : Buffer)

def hashRef : Outcome := (M.api is224 sm3).oneShot b

def hashMultiRandomMax (seed : UInt32) (maxChunk : MaxChunk) : Outcome :=
  (M.api is224 sm3).chunked (randomMax maxChunk) seed b

def hashMultiRandomZeroSplice (seed : UInt32) (maxChunk : MaxChunk) : Outcome :=
  (M.api is224 sm3).chunked (randomZeroSplice maxChunk) seed b

def hashMultiAlternating : Outcome := (M.api is224 sm3).chunked alternating false b
def hashMultiBoundary : Outcome := (M.api is224 sm3).chunked (table boundarySteps) 0 b
def hashMultiLargeSteps : Outcome := (M.api is224 sm3).chunked (table largeSteps) 0 b
def hashMultiTiny : Outcome := (M.api is224 sm3).tiny b
def hashMultiAlignedDma : Outcome := (M.api is224 sm3).chunked (constant 8192 (by decide)) () b
def hashMultiLargeCpu : Outcome := (M.api is224 sm3).chunked (constant 8192 (by decide)) () b
def hashMixedDmaCpu : Outcome := (M.api is224 sm3).chunked (table mixedPattern) 0 b

end Sha256Drivers

section Sha512Drivers
variable (M : Sha512 σ) (is384 : Int) (b : Buffer)

def hashRefSha512 : Outcome := (M.api is384).oneShot b

def hashMultiRandomMaxSha512 (seed : UInt32) (maxChunk : MaxChunk) : Outcome :=
  (M.api is384).chunked (randomMax maxChunk) seed b

def hashMultiRandomZeroSpliceSha512 (seed : UInt32) (maxChunk : MaxChunk) : Outcome :=
  (M.api is384).chunked (randomZeroSplice maxChunk) seed b

def hashMultiAlternatingSha512 : Outcome := (M.api is384).chunked alternating false b
def hashMultiBoundarySha512 : Outcome := (M.api is384).chunked (table boundaryStepsSha512) 0 b
def hashMultiLargeStepsSha512 : Outcome := (M.api is384).chunked (table largeStepsSha512) 0 b
def hashMultiTinySha512 : Outcome := (M.api is384).tiny b
def hashMultiAlignedDmaSha512 : Outcome := (M.api is384).chunked (constant 8192 (by decide)) () b
def hashMultiLargeCpuSha512 : Outcome := (M.api is384).chunked (constant 8192 (by decide)) () b
def hashMixedDmaCpuSha512 : Outcome := (M.api is384).chunked (table mixedPattern) 0 b

end Sha512Drivers

/-- The drivers with the arguments they have beside the buffer. -/
inductive Driver where
  | randomMax (seed : UInt32) (maxChunk : MaxChunk)
  | randomZeroSplice (seed : UInt32) (maxChunk : MaxChunk)
  | alternating
  | boundary
  | largeSteps
  | tiny
  | alignedDma
  | largeCpu
  | mixedDmaCpu

/-- Which hash, of which implementation. -/
inductive Target (σ : Type) where
  | sha256 (M : Sha256 σ) (is224 : Int) (sm3 : Bool)
  | sha512 (M : Sha512 σ) (is384 : Int)

namespace Target

def api : Target σ → HashApi σ
  | .sha256 M is224 sm3 => M.api is224 sm3
  | .sha512 M is384 => M.api is384

def reference : Target σ → Buffer → Outcome
  | .sha256 M is224 sm3, b => hashRef M is224 sm3 b
  | .sha512 M is384, b => hashRefSha512 M is384 b

def run : Target σ → Driver → Buffer → Outcome
  | .sha256 M is224 sm3, .randomMax seed maxChunk, b =>
      hashMultiRandomMax M is224 sm3 b seed maxChunk
  | .sha256 M is224 sm3, .randomZeroSplice seed maxChunk, b =>
      hashMultiRandomZeroSplice M is224 sm3 b seed maxChunk
  | .sha256 M is224 sm3, .alternating, b => hashMultiAlternating M is224 sm3 b
  | .sha256 M is224 sm3, .boundary, b => hashMultiBoundary M is224 sm3 b
  | .sha256 M is224 sm3, .largeSteps, b => hashMultiLargeSteps M is224 sm3 b
  | .sha256 M is224 sm3, .tiny, b => hashMultiTiny M is224 sm3 b
  | .sha256 M is224 sm3, .alignedDma, b => hashMultiAlignedDma M is224 sm3 b
  | .sha256 M is224 sm3, .largeCpu, b => hashMultiLargeCpu M is224 sm3 b
  | .sha256 M is224 sm3, .mixedDmaCpu, b => hashMixedDmaCpu M is224 sm3 b
  | .sha512 M is384, .randomMax seed maxChunk, b => hashMultiRandomMaxSha512 M is384 b seed maxChunk
  | .sha512 M is384, .randomZeroSplice seed maxChunk, b =>
      hashMultiRandomZeroSpliceSha512 M is384 b seed maxChunk
  | .sha512 M is384, .alternating, b => hashMultiAlternatingSha512 M is384 b
  | .sha512 M is384, .boundary, b => hashMultiBoundarySha512 M is384 b
  | .sha512 M is384, .largeSteps, b => hashMultiLargeStepsSha512 M is384 b
  | .sha512 M is384, .tiny, b => hashMultiTinySha512 M is384 b
  | .sha512 M is384, .alignedDma, b => hashMultiAlignedDmaSha512 M is384 b
  | .sha512 M is384, .largeCpu, b => hashMultiLargeCpuSha512 M is384 b
  | .sha512 M is384, .mixedDmaCpu, b => hashMixedDmaCpuSha512 M is384 b

end Target

end LinkedsemiZephyr.Hash
