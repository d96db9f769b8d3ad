import LinkedsemiZephyr.Hash.Drivers

/-! Hashing in chunks comes to what hashing at once comes to. -/
namespace LinkedsemiZephyr.Hash
open Octets Tiling

variable {σ τ : Type}

/-- What was handed to the update function. -/
abbrev pieces (updates : List Update) : List Piece := updates.map Update.piece

/-- The bytes that each update was given. -/
abbrev slices (b : Buffer) (updates : List Update) : List Bytes :=
  (pieces updates).map (Piece.of b.data)

namespace HashApi

variable (A : HashApi σ)

/-- What consecutive calls of the update function return. -/
def returns : σ → List Bytes → List Int
  | _, [] => []
  | ctx, x :: xs => (A.update ctx x).1 :: returns (A.update ctx x).2 xs

/-- The context behind these calls. -/
def after (ctx : σ) (xs : List Bytes) : σ := xs.foldl (fun ctx x => (A.update ctx x).2) ctx

theorem after_concat (ctx : σ) (xs : List Bytes) (x : Bytes) :
    A.after ctx (xs ++ [x]) = (A.update (A.after ctx xs) x).2 := List.foldl_concat _ _ _ _

theorem returns_concat (ctx : σ) (xs : List Bytes) (x : Bytes) :
    A.returns ctx (xs ++ [x]) = A.returns ctx xs ++ [(A.update (A.after ctx xs) x).1] := by
  induction xs generalizing ctx with
  | nil => rfl
  | cons y xs ih => exact congrArg ((A.update ctx y).1 :: ·) (ih _)

end HashApi

/-- A driver's outcome beside that of `hash_ref`: what it gave to the update function and what
that returned, and the digest of the context that these calls leave. -/
structure Matches (A : HashApi σ) (b : Buffer) (outcome reference : Outcome) : Prop where
  inOrder : ∃ reached ≤ b.len, Tiles 0 (pieces outcome.updates) reached
  inBounds : ∀ u ∈ outcome.updates, u.piece.1 + u.piece.2 ≤ b.len
  calls : outcome.updates.length ≤ 2 * b.len
  returned : outcome.updates.map Update.ret =
    A.returns (A.starts A.init).2 (slices b outcome.updates)
  whole : (A.starts A.init).1 = 0 → (∀ u ∈ outcome.updates, u.ret = 0) →
    Tiles 0 (pieces outcome.updates) b.len ∧
      (pieces outcome.updates).flatMap (Piece.of b.data) = b.data.take b.len
  finished : (A.starts A.init).1 = 0 → (∀ u ∈ outcome.updates, u.ret = 0) →
    let finish := A.finish (A.after (A.starts A.init).2 (slices b outcome.updates))
    outcome.status = finish.1 ∧ outcome.digest = some finish.2
  same : Acts 0 A.update → (∀ u ∈ outcome.updates, u.ret = 0) →
    outcome.status = reference.status ∧ outcome.digest = reference.digest
  failed : ∀ u ∈ outcome.updates, u.ret ≠ 0 → outcome.status = u.ret ∧ outcome.digest = none
  last : ∀ u ∈ outcome.updates.dropLast, u.ret = 0
  refused : (A.starts A.init).1 ≠ 0 → outcome = ⟨(A.starts A.init).1, none, []⟩

/-- A session that has handed over the bytes before `off`. -/
structure Sound (A : HashApi σ) (b : Buffer) (s : Session σ) (off : Nat) : Prop where
  inOrder : Tiles 0 (pieces s.updates) off
  inside : off ≤ b.len
  returned : s.updates.map Update.ret = A.returns (A.starts A.init).2 (slices b s.updates)
  context : s.ctx = A.after (A.starts A.init).2 (slices b s.updates)
  failing : ∀ u ∈ s.updates, u.ret ≠ 0 → s.ret = u.ret
  last : ∀ u ∈ s.updates.dropLast, u.ret = 0
  started : (∀ u ∈ s.updates, u.ret = 0) → s.ret = (A.starts A.init).1
  refused : (A.starts A.init).1 ≠ 0 → s.updates = []
  acted : Acts 0 A.update → s.ret = 0 →
    A.update (A.starts A.init).2 (slice b.data 0 off) = (0, s.ctx)

namespace Sound

variable {A : HashApi σ} {b : Buffer} {s : Session σ} {off : Nat}

theorem start : Sound A b A.start 0 where
  inOrder := rfl
  inside := Nat.zero_le _
  returned := rfl
  context := rfl
  failing := fun _ hu => absurd hu List.not_mem_nil
  last := fun _ hu => absurd hu List.not_mem_nil
  started := fun _ => rfl
  refused := fun _ => rfl
  acted := fun hacts _ => hacts.nil _

theorem succeeded (h : Sound A b s off) (hret : s.ret = 0) : ∀ u ∈ s.updates, u.ret = 0 := by
  intro u hu
  by_contra hne
  exact hne ((h.failing u hu hne).symm.trans hret)

theorem feed (h : Sound A b s off) (hret : s.ret = 0) {size : Nat} (hsize : off + size ≤ b.len) :
    Sound A b (A.feed b s off size) (off + size) where
  inOrder := by
    rw [HashApi.feed, pieces, List.map_append]
    exact h.inOrder.concat size
  inside := hsize
  returned := by
    rw [HashApi.feed, slices, pieces, List.map_append, List.map_append, List.map_append,
      h.returned, h.context]
    exact (A.returns_concat _ _ _).symm
  context := by
    rw [HashApi.feed, slices, pieces, List.map_append, List.map_append, h.context]
    exact (A.after_concat _ _ _).symm
  failing := by
    intro u hu hne
    rcases List.mem_append.mp hu with hold | hnew
    · exact absurd (h.succeeded hret u hold) hne
    · rw [List.mem_singleton.mp hnew]
      rfl
  last := by
    rw [HashApi.feed, List.dropLast_concat]
    exact h.succeeded hret
  started := by
    intro hall
    have hlast : (A.update s.ctx (Piece.of b.data (off, size))).1 = 0 :=
      hall ⟨(off, size), _⟩ (List.mem_append_right _ (List.mem_singleton_self _))
    exact hlast.trans (hret.symm.trans (h.started (h.succeeded hret)))
  refused := by
    intro hstart
    have hrefused : s.ret = (A.starts A.init).1 := h.started (h.succeeded hret)
    exact absurd (hrefused.symm.trans hret) hstart
  acted := by
    intro hacts hnext
    have hsplit : slice b.data 0 (off + size) =
        slice b.data 0 off ++ Piece.of b.data (off, size) :=
      (slice_append b.data (Nat.zero_le _) (Nat.le_add_right _ _)).symm
    rw [hsplit, hacts.append _ _ _ _ (h.acted hacts hret)]
    exact Prod.ext hnext rfl

end Sound

namespace HashApi

variable (A : HashApi σ) (R : Rule τ) (b : Buffer) (t : τ) (off : Nat) (s : Session σ)

theorem feedAll_of_failed (hret : s.ret ≠ 0) : A.feedAll R b t off s = s := by
  rw [feedAll, if_neg (fun hcond => hret hcond.1)]

@[simp]
theorem length_feed (size : Nat) : (A.feed b s off size).updates.length = s.updates.length + 1 :=
  List.length_append

/-- Every turn moves on, with two calls at most. -/
theorem length_feedAll_le :
    (A.feedAll R b t off s).updates.length ≤ s.updates.length + 2 * (b.len - off) := by
  fun_induction feedAll A R b t off s with
  | case1 t off s hcond remain chunk s₁ s₂ ih =>
      have hpos : 0 < chunk := Nat.lt_min.mpr ⟨R.chunk_pos t, Nat.sub_pos_of_lt hcond.2⟩
      have h₁ : s₁.updates.length ≤ s.updates.length + 1 := by
        dsimp only [s₁]
        split
        · exact Nat.le_of_eq (length_feed ..)
        · exact Nat.le_succ _
      have h₂ : s₂.updates.length ≤ s₁.updates.length + 1 := by
        dsimp only [s₂]
        split
        · exact Nat.le_of_eq (length_feed ..)
        · exact Nat.le_succ _
      omega
  | case2 t off s hcond => exact Nat.le_add_right _ _

/-- The loop ends with the whole buffer handed over, or with a failure. -/
theorem feedAll_sound (h : Sound A b s off) :
    ∃ reached, Sound A b (A.feedAll R b t off s) reached ∧
      ((A.feedAll R b t off s).ret = 0 → reached = b.len) := by
  fun_induction feedAll A R b t off s with
  | case1 t off s hcond remain chunk s₁ s₂ ih =>
      obtain ⟨hret, hoff⟩ := hcond
      have hchunk : off + chunk ≤ b.len := by
        have hcut : chunk ≤ b.len - off := Nat.min_le_right _ _
        omega
      have h₁ : Sound A b s₁ off := by
        dsimp only [s₁]
        split
        · exact h.feed hret (show off + 0 ≤ b.len from h.inside)
        · exact h
      by_cases hsplice : s₁.ret = 0
      · have h₂ : Sound A b s₂ (off + chunk) := by
          dsimp only [s₂]
          rw [dif_pos hsplice]
          exact h₁.feed hsplice hchunk
        exact ih h₂
      · -- the update of no bytes failed: the chunk is not handed over, and the loop ends
        have hskip : s₂ = s₁ := dif_neg hsplice
        rw [hskip, A.feedAll_of_failed R b _ _ _ hsplice]
        exact ⟨off, h₁, fun hzero => absurd hzero hsplice⟩
  | case2 t off s hcond =>
      refine ⟨off, h, ?_⟩
      intro hret
      have hend : ¬ off < b.len := fun hlt => hcond ⟨hret, hlt⟩
      exact Nat.le_antisymm h.inside (Nat.le_of_not_lt hend)

/-- One byte at a time is never cut by what remains. -/
theorem feedTiny_eq : A.feedTiny b off s = A.feedAll (constant 1 Nat.one_pos) b () off s := by
  fun_induction feedTiny A b off s with
  | case1 off s hcond ih =>
      have hcut : min 1 (b.len - off) = 1 := Nat.min_eq_left (Nat.sub_pos_of_lt hcond.2)
      rw [ih]
      conv_rhs => rw [feedAll]
      rw [if_pos hcond]
      simp only [constant, id_eq, hcut, Bool.false_eq_true, if_false, if_pos hcond.1]
  | case2 off s hcond =>
      rw [feedAll, if_neg hcond]

theorem tiny_eq : A.tiny b = A.chunked (constant 1 Nat.one_pos) () b :=
  congrArg A.stop (A.feedTiny_eq b 0 A.start)

theorem stop_of_failed {s : Session σ} (hret : s.ret ≠ 0) : A.stop s = ⟨s.ret, none, s.updates⟩ :=
  if_neg hret

theorem stop_of_done {s : Session σ} (hret : s.ret = 0) :
    A.stop s = ⟨(A.finish s.ctx).1, some (A.finish s.ctx).2, s.updates⟩ := if_pos hret

@[simp]
theorem stop_updates : (A.stop s).updates = s.updates := by
  by_cases hret : s.ret = 0
  · rw [A.stop_of_done hret]
  · rw [A.stop_of_failed hret]

/-- `hash_ref` when nothing before `finish` fails. -/
theorem oneShot_of_update {ctx : σ} (hstart : (A.starts A.init).1 = 0)
    (hupdate : A.update (A.starts A.init).2 (slice b.data 0 b.len) = (0, ctx)) :
    A.oneShot b = ⟨(A.finish ctx).1, some (A.finish ctx).2, [⟨(0, b.len), 0⟩]⟩ := by
  have hwhole : slice b.data 0 b.len = b.data.take b.len := rfl
  rw [hwhole] at hupdate
  simp only [oneShot, hstart, hupdate, if_true]

theorem oneShot_of_failed (hstart : (A.starts A.init).1 ≠ 0) :
    A.oneShot b = ⟨(A.starts A.init).1, none, []⟩ := by
  simp only [oneShot, if_neg hstart]

end HashApi

/-- What a loop leaves that ends with the whole buffer handed over, or with a failure. -/
theorem Sound.stop_matches {A : HashApi σ} {b : Buffer} {s : Session σ} {reached : Nat}
    (h : Sound A b s reached) (hend : s.ret = 0 → reached = b.len)
    (hcalls : s.updates.length ≤ 2 * b.len) : Matches A b (A.stop s) (A.oneShot b) where
  inOrder := by
    rw [A.stop_updates]
    exact ⟨reached, h.inside, h.inOrder⟩
  inBounds := by
    rw [A.stop_updates]
    intro u hu
    have hpiece := h.inOrder.within u.piece (List.mem_map_of_mem hu)
    exact Nat.le_trans hpiece.2 h.inside
  calls := by
    rw [A.stop_updates]
    exact hcalls
  returned := by
    rw [A.stop_updates]
    exact h.returned
  whole := by
    rw [A.stop_updates]
    intro hstart hall
    have htiles : Tiles 0 (pieces s.updates) b.len :=
      hend ((h.started hall).trans hstart) ▸ h.inOrder
    exact ⟨htiles, htiles.flatMap_of b.data⟩
  finished := by
    rw [A.stop_updates]
    intro hstart hall
    have hret : s.ret = 0 := (h.started hall).trans hstart
    rw [A.stop_of_done hret, h.context]
    exact ⟨rfl, rfl⟩
  same := by
    rw [A.stop_updates]
    intro hacts hall
    have hstarted : s.ret = (A.starts A.init).1 := h.started hall
    by_cases hret : s.ret = 0
    · have hacted := hend hret ▸ h.acted hacts hret
      rw [A.stop_of_done hret, A.oneShot_of_update b (hstarted.symm.trans hret) hacted]
      exact ⟨rfl, rfl⟩
    · rw [A.stop_of_failed hret, A.oneShot_of_failed b (hstarted ▸ hret), hstarted]
      exact ⟨rfl, rfl⟩
  failed := by
    rw [A.stop_updates]
    intro u hu hne
    have hret : s.ret = u.ret := h.failing u hu hne
    rw [A.stop_of_failed (hret.trans_ne hne)]
    exact ⟨hret, rfl⟩
  last := by
    rw [A.stop_updates]
    exact h.last
  refused := by
    intro hstart
    have hnone := h.refused hstart
    have hret : s.ret = (A.starts A.init).1 :=
      h.started fun u hu => absurd (hnone ▸ hu) List.not_mem_nil
    rw [A.stop_of_failed (hret.trans_ne hstart), hnone, hret]

theorem chunked_matches (A : HashApi σ) (R : Rule τ) (t : τ) (b : Buffer) :
    Matches A b (A.chunked R t b) (A.oneShot b) := by
  obtain ⟨reached, hsound, hend⟩ := A.feedAll_sound R b t 0 A.start Sound.start
  have hcalls := A.length_feedAll_le R b t 0 A.start
  rw [show A.start.updates.length = 0 from rfl, Nat.zero_add, Nat.sub_zero] at hcalls
  exact hsound.stop_matches hend hcalls

namespace Target

variable (T : Target σ) (d : Driver) (b : Buffer)

theorem reference_eq : T.reference b = T.api.oneShot b := by
  cases T <;> rfl

/-- Every driver is the loop with a rule of its own. -/
theorem run_eq : ∃ (τ : Type) (R : Rule τ) (t : τ), T.run d b = T.api.chunked R t b := by
  cases T <;> cases d
  case sha256.tiny M is224 sm3 => exact ⟨_, _, _, HashApi.tiny_eq _ b⟩
  case sha512.tiny M is384 => exact ⟨_, _, _, HashApi.tiny_eq _ b⟩
  all_goals exact ⟨_, _, _, rfl⟩

/-- Each driver, for each hash: it hands over the buffer without a gap, an overlap or a byte
behind `len`, finishes the context that the update function leaves, and comes to what `hash_ref`
comes to. -/
theorem driver_matches_hashRef : Matches T.api b (T.run d b) (T.reference b) := by
  obtain ⟨τ, R, t, hrun⟩ := T.run_eq d b
  rw [hrun, T.reference_eq b]
  exact chunked_matches T.api R t b

end Target

end LinkedsemiZephyr.Hash
