import Mathlib.Data.List.Basic

/-! Runs of a step function in which every step is asked a condition in the state it is
taken in. Where the condition keeps an invariant and breaking it breaks a property at once,
the property holds all along a run just when every step meets the condition. -/
namespace GuardedRun

variable {σ α : Type} {step : σ → α → σ} {ok : σ → α → Prop} {Inv P : σ → Prop}
  {s : σ} {as : List α}

/-- Every step of a run meets a condition where it is taken. -/
def Follows (step : σ → α → σ) (ok : σ → α → Prop) : σ → List α → Prop
  | _, [] => True
  | s, a :: as => ok s a ∧ Follows step ok (step s a) as

/-- Every state of a run, first and last included, has a property. -/
def Always (step : σ → α → σ) (P : σ → Prop) : σ → List α → Prop
  | s, [] => P s
  | s, a :: as => P s ∧ Always step P (step s a) as

instance decidableFollows (step : σ → α → σ) (ok : σ → α → Prop) [∀ s a, Decidable (ok s a)] :
    (s : σ) → (as : List α) → Decidable (Follows step ok s as)
  | _, [] => isTrue trivial
  | s, a :: as =>
    haveI := decidableFollows step ok (step s a) as
    inferInstanceAs (Decidable (ok s a ∧ Follows step ok (step s a) as))

theorem Always.first (h : Always step P s as) : P s := by
  cases as with
  | nil => exact h
  | cons a as => exact h.1

theorem Always.last (h : Always step P s as) : P (as.foldl step s) := by
  induction as generalizing s with
  | nil => exact h
  | cons a as ih => exact ih h.2

theorem follows_append {bs : List α} :
    Follows step ok s (as ++ bs) ↔ Follows step ok s as ∧ Follows step ok (as.foldl step s) bs := by
  induction as generalizing s with
  | nil => exact (and_iff_right trivial).symm
  | cons a as ih => exact (and_congr_right fun _ => ih).trans and_assoc.symm

/-- A condition on the steps alone. -/
theorem follows_iff_forall {p : α → Prop} : Follows step (fun _ a => p a) s as ↔ ∀ a ∈ as, p a := by
  induction as generalizing s with
  | nil => exact iff_of_true trivial fun a ha => absurd ha List.not_mem_nil
  | cons a as ih => exact (and_congr_right fun _ => ih).trans List.forall_mem_cons.symm

/-- Two conditions that agree wherever an invariant of admitted steps holds. -/
theorem follows_iff_follows {ok' : σ → α → Prop} (hinv : Inv s)
    (keep : ∀ s a, Inv s → ok' s a → Inv (step s a)) (agree : ∀ s a, Inv s → (ok s a ↔ ok' s a)) :
    Follows step ok s as ↔ Follows step ok' s as := by
  induction as generalizing s with
  | nil => rfl
  | cons a as ih =>
      rw [Follows, Follows, agree s a hinv]
      exact and_congr_right fun ha => ih (keep s a hinv ha)

/-- The same with an invariant of all steps. -/
theorem follows_congr {ok' : σ → α → Prop} (hinv : Inv s) (keep : ∀ s a, Inv s → Inv (step s a))
    (agree : ∀ s a, Inv s → (ok s a ↔ ok' s a)) : Follows step ok s as ↔ Follows step ok' s as :=
  follows_iff_follows hinv (fun s a h _ => keep s a h) agree

/-- What every admitted step keeps, a run of admitted steps keeps. -/
theorem Follows.invariant (h : Follows step ok s as) (hinv : Inv s)
    (keep : ∀ s a, Inv s → ok s a → Inv (step s a)) : Inv (as.foldl step s) := by
  induction as generalizing s with
  | nil => exact hinv
  | cons a as ih => exact ih h.2 (keep s a hinv h.1)

theorem Follows.always (h : Follows step ok s as) (hinv : Inv s)
    (keep : ∀ s a, Inv s → ok s a → Inv (step s a)) (sound : ∀ s, Inv s → P s) :
    Always step P s as := by
  induction as generalizing s with
  | nil => exact sound s hinv
  | cons a as ih => exact ⟨sound s hinv, ih h.2 (keep s a hinv h.1)⟩

/-- The exact condition of a property of runs. -/
theorem always_iff_follows (hinv : Inv s) (keep : ∀ s a, Inv s → ok s a → Inv (step s a))
    (sound : ∀ s, Inv s → P s) (exact : ∀ s a, Inv s → ¬ ok s a → ¬ P (step s a)) :
    Always step P s as ↔ Follows step ok s as := by
  refine ⟨fun h => ?_, fun h => h.always hinv keep sound⟩
  induction as generalizing s with
  | nil => trivial
  | cons a as ih =>
      by_cases ha : ok s a
      · exact ⟨ha, ih (keep s a hinv ha) h.2⟩
      · exact absurd h.2.first (exact s a hinv ha)

/-- Where a bad step shows at the step after it, whatever that is: every step but the last
is a good one. -/
theorem follows_iff_dropLast {p : α → Prop} (hinv : Inv s)
    (keep : ∀ s a, Inv s → p a → Inv (step s a)) (sound : ∀ s a, Inv s → ok s a)
    (exact : ∀ s a b, Inv s → ¬ p a → ¬ ok (step s a) b) :
    Follows step ok s as ↔ ∀ a ∈ as.dropLast, p a := by
  induction as generalizing s with
  | nil => exact iff_of_true trivial fun a ha => absurd ha List.not_mem_nil
  | cons a as ih =>
      cases as with
      | nil => exact iff_of_true ⟨sound s a hinv, trivial⟩ fun b hb => absurd hb List.not_mem_nil
      | cons b bs =>
          rw [List.dropLast_cons_cons, List.forall_mem_cons]
          by_cases ha : p a
          · rw [and_iff_right ha, ← ih (keep s a hinv ha)]
            exact and_iff_right (sound s a hinv)
          · exact iff_of_false (fun h => exact s a b hinv ha h.2.1) fun h => ha h.1

/-- Where breaking the condition dooms a run, though the property fails only later: a run
that has come to its end with the property intact has met the condition at every step. -/
theorem follows_of_always {Doomed Done : σ → Prop} (hinv : Inv s)
    (keep : ∀ s a, Inv s → ok s a → Inv (step s a))
    (breaks : ∀ s a, Inv s → ¬ ok s a → Doomed (step s a))
    (stays : ∀ s a, Doomed s → P s → Doomed (step s a)) (shows : ∀ s, Doomed s → P s → ¬ Done s)
    (hdone : Done (as.foldl step s)) (h : Always step P s as) : Follows step ok s as := by
  have lasts (bs : List α) : ∀ s, Doomed s → Always step P s bs → ¬ Done (bs.foldl step s) := by
    induction bs with
    | nil => exact fun s hdoomed hP => shows s hdoomed hP
    | cons b bs ih => exact fun s hdoomed hP => ih _ (stays s b hdoomed hP.1) hP.2
  induction as generalizing s with
  | nil => trivial
  | cons a as ih =>
      by_cases ha : ok s a
      · exact ⟨ha, ih (keep s a hinv ha) hdone h.2⟩
      · exact absurd hdone (lasts as _ (breaks s a hinv ha) h.2)

end GuardedRun
