import Mathlib.Data.List.Basic

/-! Loops given by their body: one turn goes on with a state or leaves with a result.
Where the state of every turn is known in advance, so is the turn the loop leaves at. -/
namespace BodyLoop

variable {σ ρ : Type} {body : σ → σ ⊕ ρ}

def turns (body : σ → σ ⊕ ρ) : Nat → σ → σ ⊕ ρ
  | 0, s => .inl s
  | n + 1, s =>
    match body s with
    | .inl s => turns body n s
    | .inr r => .inr r

/-- The loop is left after finitely many turns. -/
def Leaves (body : σ → σ ⊕ ρ) (s : σ) : Prop := ∃ n r, turns body n s = .inr r

theorem turns_succ (n : Nat) (s : σ) : turns body (n + 1) s = match turns body n s with
    | .inl s => body s
    | .inr r => .inr r := by
  induction n generalizing s with
  | zero =>
      change (match body s with | .inl s => turns body 0 s | .inr r => .inr r) = body s
      cases body s <;> rfl
  | succ n ih =>
      rw [turns, turns]
      cases body s with
      | inl s => exact ih s
      | inr r => rfl

/-- `trace n` is the state of turn `n`, and the loop goes on from it just when `more n`. -/
structure Traced (body : σ → σ ⊕ ρ) (trace : Nat → σ) (more : Nat → Prop) : Prop where
  goes : ∀ n, more n → body (trace n) = .inl (trace (n + 1))
  leaves : ∀ n, ¬ more n → ∃ r, body (trace n) = .inr r

variable {trace : Nat → σ} {more : Nat → Prop}

theorem Traced.turns_more (h : Traced body trace more) {n : Nat} (hmore : ∀ i < n, more i) :
    turns body n (trace 0) = .inl (trace n) := by
  induction n with
  | zero => rfl
  | succ n ih =>
      rw [turns_succ, ih fun i hi => hmore i (Nat.lt_succ_of_lt hi)]
      exact h.goes n (hmore n (Nat.lt_succ_self n))

theorem Traced.turns_inl_iff (h : Traced body trace more) {n : Nat} {s : σ} :
    turns body n (trace 0) = .inl s ↔ (∀ i < n, more i) ∧ s = trace n := by
  constructor
  · intro hs
    have hmore : ∀ i < n, more i := by
      induction n generalizing s with
      | zero => exact fun i hi => absurd hi (Nat.not_lt_zero i)
      | succ n ih =>
          rw [turns_succ] at hs
          cases hn : turns body n (trace 0) with
          | inr r => rw [hn] at hs; cases hs
          | inl s₁ =>
              have hbefore := ih hn
              rw [h.turns_more hbefore] at hs
              change body (trace n) = .inl s at hs
              intro i hi
              rcases Nat.lt_succ_iff_lt_or_eq.mp hi with hlt | rfl
              · exact hbefore i hlt
              · by_contra hlast
                obtain ⟨r, hr⟩ := h.leaves i hlast
                rw [hr] at hs
                cases hs
    rw [h.turns_more hmore] at hs
    exact ⟨hmore, (Sum.inl.inj hs).symm⟩
  · rintro ⟨hmore, rfl⟩
    exact h.turns_more hmore

theorem Traced.leaves_iff (h : Traced body trace more) : Leaves body (trace 0) ↔ ∃ n, ¬ more n := by
  constructor
  · rintro ⟨n, r, hr⟩
    by_contra hall
    have hmore : ∀ i < n, more i := fun i _ => not_not.mp (not_exists.mp hall i)
    rw [h.turns_more hmore] at hr
    cases hr
  · rintro ⟨n, hn⟩
    cases hs : turns body (n + 1) (trace 0) with
    | inl s => exact absurd ((h.turns_inl_iff.mp hs).1 n (Nat.lt_succ_self n)) hn
    | inr r => exact ⟨n + 1, r, hs⟩

end BodyLoop
