import LinkedsemiZephyr.Crypto.SessionPool

/-! What a hash session of the driver computes: the hash of all that its caller has handed in
since the last digest, in whatever pieces and whatever other callers do meanwhile. -/
namespace LinkedsemiZephyr.Crypto
open Octets

section Collect

variable {κ : Type} {M : Mbedtls κ}

/-- What the driver relies on: `starts` forgets what the context was used for before, and the
pieces of an input make no difference. -/
structure Sha.Streams (A : Sha κ) : Prop where
  starts_fresh : ∀ ctx ctx' short, A.starts ctx short = A.starts ctx' short
  update_append : ∀ ctx a b, (A.update ctx a).1 = 0 →
    A.update (A.update ctx a).2 b = A.update ctx (a ++ b)

def Sha.digest (A : Sha κ) (short : Bool) (data : Bytes) : Bytes :=
  (A.finish (A.update (A.starts A.init short).2 data).2).2.2

/-- The hash of an algorithm in one go. -/
def hashOf (M : Mbedtls κ) : HashAlgo → Bytes → Bytes
  | .sha224 => M.sha256.digest true
  | .sha256 => M.sha256.digest false
  | .sha384 => M.sha512.digest true
  | .sha512 | .other => M.sha512.digest false

/-- The algorithm of the session and what was handed in since the last digest. -/
structure Gathered where
  algo : HashAlgo
  data : Bytes

def Gathered.none : Gathered := ⟨.other, []⟩

/-- What a caller knows it has handed in, from its calls and their answers. -/
def Gathered.after (g : Gathered) : Call × Answer → Gathered
  | (.hashBegin _ algo, answer) => if answer.ret = some 0 then ⟨algo, []⟩ else g
  | (.hash inBuf finish, answer) =>
    if finish = false ∧ answer.ret = some 0 then ⟨g.algo, g.data ++ inBuf⟩ else ⟨g.algo, []⟩
  | _ => g

/-- The context of an open hash session holds what its caller has handed in. -/
def Collects (M : Mbedtls κ) (s : Solo κ) (g : Gathered) : Prop :=
  ∀ h x, s.ctx = .hash h → s.session = some x →
    x.kind = .algo g.algo ∧ h.wide = (shaInit M g.algo).2 ∧ (h.started = false → g.data = []) ∧
      (h.started = true →
        ((shaOf M h.wide).starts (shaOf M h.wide).init (shorter h.wide x.kind)).1 = 0 ∧
        (shaOf M h.wide).update
          ((shaOf M h.wide).starts (shaOf M h.wide).init (shorter h.wide x.kind)).2 g.data =
          (0, x.ctx))

theorem hashOf_eq (M : Mbedtls κ) (algo : HashAlgo) (data : Bytes) :
    hashOf M algo data =
      (shaOf M (shaInit M algo).2).digest (shorter (shaInit M algo).2 (.algo algo)) data := by
  cases algo <;> rfl

variable {s : Solo κ} {g : Gathered} {h : HashCtx} {x : Session κ} {inBuf : Bytes} {finish : Bool}

theorem refused_ne : ¬ (Answer.code (-einval)).ret = some 0 := by decide

/-- The context a call works on, where it was started before or starts well. -/
theorem shaStart_update (inBuf : Bytes) {data : Bytes} (hA : (shaOf M h.wide).Streams)
    (hidle : h.started = false → data = [])
    (hstarted : h.started =
      true → ((shaOf M h.wide).starts (shaOf M h.wide).init (shorter h.wide x.kind)).1 = 0 ∧
      (shaOf M h.wide).update
        ((shaOf M h.wide).starts (shaOf M h.wide).init (shorter h.wide x.kind)).2 data = (0, x.ctx))
    (hret : (shaStart M h x).1 = 0) :
    ((shaOf M h.wide).starts (shaOf M h.wide).init (shorter h.wide x.kind)).1 = 0 ∧
      (shaOf M h.wide).update (shaStart M h x).2 inBuf =
        (shaOf M h.wide).update
          ((shaOf M h.wide).starts (shaOf M h.wide).init (shorter h.wide x.kind)).2
          (data ++ inBuf) := by
  unfold shaStart at hret ⊢
  cases hs : h.started with
  | true =>
      obtain ⟨hstart, hupdate⟩ := hstarted hs
      refine ⟨hstart, ?_⟩
      rw [if_pos rfl, ← hA.update_append _ data inBuf (congrArg Prod.fst hupdate), hupdate]
  | false =>
      rw [hs, if_neg Bool.false_ne_true] at hret
      rw [if_neg Bool.false_ne_true, hidle hs, List.nil_append]
      rw [hA.starts_fresh x.ctx (shaOf M h.wide).init] at hret ⊢
      exact ⟨hret, rfl⟩

theorem Gathered.after_stop {answer : Answer} (hend : finish = true ∨ answer.ret ≠ some 0) :
    g.after (.hash inBuf finish, answer) = ⟨g.algo, []⟩ := by
  apply if_neg
  rintro ⟨hmore, hok⟩
  rcases hend with hfinish | hfail
  · exact Bool.false_ne_true (hmore.symm.trans hfinish)
  · exact hfail hok

/-- A context that is not started has nothing gathered. -/
theorem Collects.stopped {algo : HashAlgo} {ctx : κ} (hwide : h.wide = (shaInit M algo).2)
    (hidle : h.started = false) :
    Collects M ⟨.hash h, some ⟨ctx, .algo algo⟩⟩ ⟨algo, []⟩ := by
  rintro h' x' ⟨⟩ ⟨⟩
  exact ⟨rfl, hwide, fun _ => rfl,
    fun hstart => absurd (hidle.symm.trans hstart) Bool.false_ne_true⟩

/-- One call of a handler: what it answers, and what the context holds afterwards. -/
theorem shaCompute_collects (hM : ∀ wide, (shaOf M wide).Streams) (hg : Collects M s g)
    (hctx : s.ctx = .hash h) (hx : s.session = some x) (inBuf : Bytes) (finish : Bool) :
    Collects M
      ⟨.hash (shaCompute M h x inBuf finish).1, some ⟨(shaCompute M h x inBuf finish).2.1, x.kind⟩⟩
        (g.after (.hash inBuf finish, (shaCompute M h x inBuf finish).2.2)) ∧
      (finish = true → (shaCompute M h x inBuf finish).2.2.ret = some 0 →
        (shaCompute M h x inBuf finish).2.2.outBuf = hashOf M g.algo (g.data ++ inBuf)) := by
  obtain ⟨hkind, hwide, hidle, hstarted⟩ := hg h x hctx hx
  rw [hashOf_eq, ← hwide, ← hkind]
  unfold shaCompute
  dsimp only
  by_cases hstart : (shaStart M h x).1 = 0
  · obtain ⟨hzero, hupdate⟩ := shaStart_update inBuf (hM h.wide) hidle hstarted hstart
    rw [if_neg (not_not.mpr hstart), hupdate]
    by_cases hret : ((shaOf M h.wide).update
        ((shaOf M h.wide).starts (shaOf M h.wide).init (shorter h.wide x.kind)).2
        (g.data ++ inBuf)).1 = 0
    · rw [if_neg (not_not.mpr hret)]
      cases finish with
      | true =>
          rw [if_pos rfl, Gathered.after_stop (Or.inl rfl), hkind]
          exact ⟨Collects.stopped hwide rfl, fun _ _ => rfl⟩
      | false =>
          rw [if_neg Bool.false_ne_true]
          refine ⟨?_, fun h => absurd h Bool.false_ne_true⟩
          rintro h' x' ⟨⟩ ⟨⟩
          refine ⟨hkind, hwide, fun h => absurd h.symm Bool.false_ne_true, fun _ => ⟨hzero, ?_⟩⟩
          exact Prod.ext hret rfl
    · rw [if_pos hret, Gathered.after_stop (Or.inr refused_ne), hkind]
      exact ⟨Collects.stopped hwide rfl, fun _ h => absurd h refused_ne⟩
  · have hno : h.started = false := by
      rw [← Bool.not_eq_true]
      intro hyes
      rw [shaStart, if_pos hyes] at hstart
      exact hstart rfl
    rw [if_pos hstart, Gathered.after_stop (Or.inr refused_ne), hkind]
    exact ⟨Collects.stopped hwide hno, fun _ h => absurd h refused_ne⟩

theorem Collects.of_closed {c : Ctx} {g : Gathered} : Collects M ⟨c, none⟩ g :=
  fun _ _ _ hx => absurd hx.symm (Option.some_ne_none _)

theorem Collects.of_cipher {c : CipherCtx} {y : Option (Session κ)} {g : Gathered} :
    Collects M ⟨.cipher c, y⟩ g :=
  fun _ _ hctx _ => Ctx.noConfusion hctx

/-- What a caller has handed in is what its context holds, call after call. -/
theorem Collects.step (hM : ∀ wide, (shaOf M wide).Streams) (hg : Collects M s g) {call : Call}
    (hlegal : s.Legal call) (room : Bool) :
    Collects M (s.step M (call, room)).1 (g.after (call, (s.step M (call, room)).2)) := by
  obtain ⟨ctx, session⟩ := s
  cases call with
  | cipherBegin c algo mode op =>
      rw [Solo.step]
      dsimp only
      split_ifs
      · exact Collects.of_closed
      · exact Collects.of_closed
      · exact Collects.of_cipher
      · exact Collects.of_closed
  | hashBegin c algo =>
      rw [Solo.step]
      dsimp only
      split_ifs
      · exact Collects.of_closed
      · exact Collects.stopped rfl rfl
      · exact Collects.of_closed
  | cipher pkt =>
      obtain ⟨hopen, c, rfl⟩ := hlegal
      obtain ⟨x, rfl⟩ := Option.ne_none_iff_exists'.mp hopen
      exact Collects.of_cipher
  | hash inBuf finish =>
      obtain ⟨hopen, c, rfl⟩ := hlegal
      obtain ⟨x, rfl⟩ := Option.ne_none_iff_exists'.mp hopen
      exact (shaCompute_collects hM hg rfl rfl inBuf finish).1
  | cipherFree =>
      obtain ⟨hopen, c, rfl⟩ := hlegal
      obtain ⟨x, rfl⟩ := Option.ne_none_iff_exists'.mp hopen
      exact Collects.of_closed
  | hashFree =>
      obtain ⟨hopen, c, rfl⟩ := hlegal
      obtain ⟨x, rfl⟩ := Option.ne_none_iff_exists'.mp hopen
      exact Collects.of_closed

end Collect

section Run

variable {ι κ : Type} [DecidableEq ι] [Fintype ι] {M : Mbedtls κ} {N : Nat}

/-- What a caller has handed in after a run, from its calls and the answers it got. -/
def gatheredBy (i : ι) (calls : List (ι × Call)) (answers : List Answer) : Gathered :=
  ((Transducer.inputsOf i calls).zip (Transducer.answersTo i calls answers)).foldl
    Gathered.after Gathered.none

theorem collects_run (hM : ∀ wide, (shaOf M wide).Streams) {f : ι → Solo κ} {p : Pool ι κ}
    (hseen : Seen N f p) {i : ι} {g : Gathered} (hg : Collects M (f i) g) {calls : List (ι × Call)}
    (hlegal : Legal M N f calls) :
    Seen N (calls.foldl (callers M N) f) (Transducer.final (Pool.step M) p calls) ∧
      Collects M (calls.foldl (callers M N) f i)
        (((Transducer.inputsOf i calls).zip
          (Transducer.answersTo i calls (Transducer.outputs (Pool.step M) p calls))).foldl
            Gathered.after g) := by
  induction calls generalizing f p g with
  | nil => exact ⟨hseen, hg⟩
  | cons input calls ih =>
      obtain ⟨hok, hrest⟩ := hlegal
      obtain ⟨hnext, hanswer⟩ := hseen.step (M := M) hok
      rw [Transducer.outputs]
      by_cases hi : input.1 = i
      · subst hi
        have hself : callers M N f input input.1 = ((f input.1).step M (input.2, room N f)).1 :=
          Function.update_self ..
        have hcollects := hg.step hM hok (room N f)
        rw [← hself, ← hanswer] at hcollects
        rw [Transducer.inputsOf_cons_self rfl, Transducer.answersTo_cons_self rfl,
          List.zip_cons_cons, List.foldl_cons]
        exact ih hnext hcollects hrest
      · have hother : callers M N f input i = f i := Function.update_of_ne (Ne.symm hi) ..
        rw [← hother] at hg
        rw [Transducer.inputsOf_cons_of_ne hi, Transducer.answersTo_cons_of_ne hi]
        exact ih hnext hg hrest

/-- A digest the driver hands out is the hash of all that its caller has handed in since its last
one, whatever the other callers have done between the pieces. -/
theorem hash_session_digest (M : Mbedtls κ) (hM : ∀ wide, (shaOf M wide).Streams) (N : Nat)
    (ctx : ι → Ctx) (drv : ι → Nat) (calls : List (ι × Call)) (i : ι) (inBuf : Bytes)
    (answer : Answer) (answers : List Answer)
    (hlegal : Legal M N (soloStart ctx) (calls ++ [(i, .hash inBuf true)]))
    (hanswers : Transducer.outputs (Pool.step M) (Pool.start M N ctx drv)
      (calls ++ [(i, .hash inBuf true)]) = answers ++ [answer])
    (hret : answer.ret = some 0) :
    answer.outBuf = hashOf M (gatheredBy i calls answers).algo
      ((gatheredBy i calls answers).data ++ inBuf) := by
  rw [Transducer.outputs_append] at hanswers
  obtain ⟨hpast, hlast⟩ := List.append_inj' hanswers rfl
  obtain ⟨hbefore, hok, -⟩ := GuardedRun.follows_append.mp hlegal
  obtain ⟨hseen, hg⟩ := collects_run hM (Seen.start M N ctx drv) Collects.of_closed hbefore
  rw [hpast] at hg
  obtain ⟨-, hstep⟩ := hseen.step (M := M) hok
  obtain ⟨hopen, h, hctx⟩ := hok
  obtain ⟨x, hx⟩ := Option.ne_none_iff_exists'.mp hopen
  have hsolo : (calls.foldl (callers M N) (soloStart ctx) i).step M
      (.hash inBuf true, room N (calls.foldl (callers M N) (soloStart ctx))) =
        (⟨.hash (shaCompute M h x inBuf true).1, some ⟨(shaCompute M h x inBuf true).2.1, x.kind⟩⟩,
          (shaCompute M h x inBuf true).2.2) := by
    rw [Solo.step, hctx, hx]
  have hanswer : answer = (shaCompute M h x inBuf true).2.2 := by
    rw [← (List.cons.inj hlast).1, hstep, hsolo]
  subst hanswer
  exact (shaCompute_collects hM hg hctx hx inBuf true).2 rfl hret

end Run

section Sample

/-- A context that keeps what it is given, and the digest of `abc`. -/
def sampleSha (digest : Bytes) : Sha Bytes where
  init := []
  starts _ _ := (0, [])
  update ctx inBuf := (0, ctx ++ inBuf)
  finish ctx := (0, ctx, if ctx = [0x61, 0x62, 0x63] then digest else [])
  free _ := []

theorem sampleSha_streams (digest : Bytes) : (sampleSha digest).Streams where
  starts_fresh _ _ _ := rfl
  update_append ctx a b _ := congrArg (Prod.mk 0) (List.append_assoc ctx a b)

def sampleAead : Aead Bytes where
  init := []
  setkey ctx _ _ := (-1, ctx)
  encrypt ctx _ _ _ _ _ _ := (-1, ctx, [], [])
  decrypt ctx _ _ _ _ _ _ _ := (-1, ctx, [])
  free _ := []
  authFailed := -15

def sha256Abc : Bytes :=
  [0xba, 0x78, 0x16, 0xbf, 0x8f, 0x01, 0xcf, 0xea, 0x41, 0x41, 0x40, 0xde, 0x5d, 0xae, 0x22, 0x23,
   0xb0, 0x03, 0x61, 0xa3, 0x96, 0x17, 0x7a, 0x9c, 0xb4, 0x10, 0xff, 0x61, 0xf2, 0x00, 0x15, 0xad]

def sampleMbedtls : Mbedtls Bytes where
  zeroed := []
  aesInit := []
  aesSetkeyEnc ctx _ _ := (-1, ctx)
  aesSetkeyDec ctx _ _ := (-1, ctx)
  aesCryptEcb ctx _ _ := (-1, ctx, [])
  aesCryptCbc ctx _ _ iv _ := (-1, ctx, iv, [])
  aesCryptCtr ctx _ _ _ _ _ := (-1, ctx, [])
  aesFree _ := []
  ccm := sampleAead
  gcm := sampleAead
  sha256 := sampleSha sha256Abc
  sha512 := sampleSha []
  gcmEnabled := true

def sampleHash : HashCtx := ⟨⟨false, false⟩, false, false⟩

/-- Two callers of one session: the second finds none, the first hashes `abc` in two pieces. -/
def sampleCalls : List (Fin 2 × Call) :=
  [(0, .hashBegin sampleHash .sha256), (1, .hashBegin sampleHash .sha256),
    (0, .hash [0x61, 0x62] false)]

theorem sampleCalls_legal :
    Legal sampleMbedtls 1 (soloStart fun _ => .hash sampleHash)
      (sampleCalls ++ [(0, .hash [0x63] true)]) :=
  ⟨rfl, rfl, ⟨Option.some_ne_none _, _, rfl⟩, ⟨Option.some_ne_none _, _, rfl⟩, trivial⟩

theorem sampleMbedtls_streams (wide : Bool) : (shaOf sampleMbedtls wide).Streams := by
  cases wide with
  | false => exact sampleSha_streams sha256Abc
  | true => exact sampleSha_streams []

theorem hash_session_digest_abc :
    (⟨some 0, sha256Abc, 0, [], []⟩ : Answer).outBuf =
      hashOf sampleMbedtls .sha256 [0x61, 0x62, 0x63] :=
  hash_session_digest sampleMbedtls sampleMbedtls_streams 1 (fun _ => .hash sampleHash) (fun _ => 0)
    sampleCalls 0 [0x63]
    ⟨some 0, sha256Abc, 0, [], []⟩ [.code 0, .code (-28), .code 0] sampleCalls_legal rfl rfl

/-- Two callers with a session each, their pieces mixed: `abc`, and two octets of the second. -/
def twoSessions : List (Fin 2 × Call) :=
  [(0, .hashBegin sampleHash .sha256), (1, .hashBegin sampleHash .sha256),
    (0, .hash [0x61, 0x62] false), (1, .hash [0x78] false), (0, .hash [0x63] true),
    (1, .hash [0x79] true), (0, .hashFree), (1, .hashFree)]

theorem twoSessions_legal :
    Legal sampleMbedtls 2 (soloStart fun _ => .hash sampleHash) twoSessions :=
  ⟨rfl, rfl, ⟨Option.some_ne_none _, _, rfl⟩, ⟨Option.some_ne_none _, _, rfl⟩,
    ⟨Option.some_ne_none _, _, rfl⟩, ⟨Option.some_ne_none _, _, rfl⟩,
    ⟨Option.some_ne_none _, _, rfl⟩, ⟨Option.some_ne_none _, _, rfl⟩, trivial⟩

/-- The second caller is told of room but while both sessions are open. -/
theorem sessions_isolated_twoSessions :
    Transducer.answersTo 1 twoSessions
        (Transducer.outputs (Pool.step sampleMbedtls)
          (Pool.start sampleMbedtls 2 (fun _ => .hash sampleHash) fun _ => 0)
          twoSessions) =
      Transducer.outputs (Solo.step sampleMbedtls) ⟨.hash sampleHash, none⟩
        [(.hashBegin sampleHash .sha256, true), (.hash [0x78] false, false),
          (.hash [0x79] true, false),
          (.hashFree, true)] :=
  sessions_isolated sampleMbedtls 2 (fun _ => .hash sampleHash) (fun _ => 0) twoSessions
    twoSessions_legal 1

end Sample

end LinkedsemiZephyr.Crypto
