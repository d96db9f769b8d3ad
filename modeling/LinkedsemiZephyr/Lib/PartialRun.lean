import Mathlib.Data.List.Basic

/-! Runs of a step function that may raise. A run that raised has no state, so what holds
of a run holds of every state it passed through. -/
namespace PartialRun

variable {σ α ε : Type} {step : σ → α → Except ε σ} {s s' : σ} {a : α} {xs ys : List α}

@[simp] theorem ok_bind {β : Type} (a : α) (f : α → Except ε β) : (Except.ok a >>= f) = f a := rfl

theorem of_bind_ok {β : Type} {x : Except ε α} {f : α → Except ε β} {b : β} (h : x >>= f = .ok b) :
    ∃ a, x = .ok a ∧ f a = .ok b := by
  cases x with
  | error e => cases h
  | ok a => exact ⟨a, rfl, h⟩

theorem foldlM_nil (h : [].foldlM step s = .ok s') : s' = s := by
  cases h
  rfl

theorem foldlM_cons (h : (a :: xs).foldlM step s = .ok s') :
    ∃ s₁, step s a = .ok s₁ ∧ xs.foldlM step s₁ = .ok s' := by
  rw [List.foldlM_cons] at h
  cases hs : step s a with
  | error e => rw [hs] at h; cases h
  | ok s₁ => rw [hs] at h; exact ⟨s₁, rfl, h⟩

/-- When a step's outcome is only seen through `f`, and depends only on what `f` shows of
the state, so it is for runs. -/
theorem map_congr {τ : Type} {f : σ → τ}
    (hstep : ∀ s t a, f s = f t → (step s a).map f = (step t a).map f) {t : σ} (h : f s = f t) :
    (xs.foldlM step s).map f = (xs.foldlM step t).map f := by
  induction xs generalizing s t with
  | nil => exact congrArg Except.ok h
  | cons a xs ih =>
      have ha := hstep s t a h
      rw [List.foldlM_cons, List.foldlM_cons]
      cases hs : step s a with
      | error e =>
          cases ht : step t a with
          | error e' => rw [hs, ht] at ha; cases ha; rfl
          | ok t₁ => rw [hs, ht] at ha; cases ha
      | ok s₁ =>
          cases ht : step t a with
          | error e' => rw [hs, ht] at ha; cases ha
          | ok t₁ =>
              rw [hs, ht] at ha
              exact ih (Except.ok.inj ha)

/-- What every step keeps, a run keeps. -/
theorem invariant {P : σ → Prop} (hstep : ∀ {s a s'}, P s → step s a = .ok s' → P s')
    (hs : P s) (h : xs.foldlM step s = .ok s') : P s' := by
  induction xs generalizing s with
  | nil => rw [foldlM_nil h]; exact hs
  | cons a xs ih =>
      obtain ⟨s₁, h₁, h⟩ := foldlM_cons h
      exact ih (hstep hs h₁) h

end PartialRun
