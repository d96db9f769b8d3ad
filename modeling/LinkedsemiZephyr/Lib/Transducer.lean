import Mathlib.Logic.Function.Basic
import LinkedsemiZephyr.Lib.GuardedRun

/-! Machines that answer every input, and when two of them give the same answers. -/
namespace Transducer

open GuardedRun (Follows)

variable {σ τ α β : Type} {step : σ → α → σ × β} {step' : τ → α → τ × β}

def final (step : σ → α → σ × β) (s : σ) (as : List α) : σ := as.foldl (fun s a => (step s a).1) s

def outputs (step : σ → α → σ × β) : σ → List α → List β
  | _, [] => []
  | s, a :: as => (step s a).2 :: outputs step (step s a).1 as

theorem outputs_append (s : σ) (as bs : List α) :
    outputs step s (as ++ bs) = outputs step s as ++ outputs step (final step s as) bs := by
  induction as generalizing s with
  | nil => rfl
  | cons a as ih =>
      rw [List.cons_append, outputs, outputs, ih]
      rfl

/-- A machine is run on the image of another. -/
theorem run_map {f : σ → τ} (h : ∀ s a, step' (f s) a = ((f (step s a).1), (step s a).2)) (s : σ)
    (as : List α) :
    final step' (f s) as = f (final step s as) ∧ outputs step' (f s) as = outputs step s as := by
  induction as generalizing s with
  | nil => exact ⟨rfl, rfl⟩
  | cons a as ih =>
      obtain ⟨hstate, hout⟩ := ih (step s a).1
      rw [final, List.foldl_cons, outputs, outputs, h]
      exact ⟨hstate, congrArg _ hout⟩

/-- A machine that carries another one along, and answers as that one does exactly on the steps
it takes with it, gives the same answers just when every step is such a step. -/
theorem outputs_eq_iff {f : σ → τ} {ok : σ → α → Prop}
    (agree : ∀ s a, ok s a → step' (f s) a = (f (step s a).1, (step s a).2))
    (differ : ∀ s a, ¬ ok s a → (step s a).2 ≠ (step' (f s) a).2) (s : σ) (as : List α) :
    outputs step s as = outputs step' (f s) as ↔ Follows (fun s a => (step s a).1) ok s as := by
  induction as generalizing s with
  | nil => exact iff_of_true rfl trivial
  | cons a as ih =>
      rw [outputs, outputs, Follows, List.cons.injEq]
      by_cases hok : ok s a
      · rw [agree s a hok, ih (step s a).1]
        exact and_congr_left fun _ => iff_of_true rfl hok
      · exact iff_of_false (fun h => differ s a hok h.1) fun h => hok h.1

section Noted

variable {γ : Type} {note : σ → α → γ} {abstract : σ → γ → σ × β} {ok : σ → α → Prop}
  {R : σ → τ → Prop}

/-- The inputs of a run with what the state says of each. -/
def noted (abstract : σ → γ → σ × β) (note : σ → α → γ) : σ → List α → List γ
  | _, [] => []
  | s, a :: as => note s a :: noted abstract note (abstract s (note s a)).1 as

/-- A machine does as another one that is told more about each input. -/
theorem outputs_noted
    (sim : ∀ s t a, R s t → ok s a → R (abstract s (note s a)).1 (step' t a).1 ∧
      (step' t a).2 = (abstract s (note s a)).2)
    {s : σ} {t : τ} (hR : R s t) {as : List α}
    (hok : Follows (fun s a => (abstract s (note s a)).1) ok s as) :
    outputs step' t as = outputs abstract s (noted abstract note s as) := by
  induction as generalizing s t with
  | nil => rfl
  | cons a as ih =>
      obtain ⟨hnext, hout⟩ := sim s t a hR hok.1
      rw [outputs, noted, outputs, hout]
      exact congrArg _ (ih hnext hok.2)

end Noted

section Family

variable {ι : Type} [DecidableEq ι]

/-- A machine for each index, each with its own inputs. -/
def family (step : σ → α → σ × β) (f : ι → σ) (input : ι × α) : (ι → σ) × β :=
  (Function.update f input.1 (step (f input.1) input.2).1, (step (f input.1) input.2).2)

/-- The answers to one index, among those of a run. -/
def answersTo (i : ι) (inputs : List (ι × α)) (answers : List β) : List β :=
  ((inputs.zip answers).filter fun x => x.1.1 = i).map Prod.snd

def inputsOf (i : ι) (inputs : List (ι × α)) : List α :=
  (inputs.filter fun x => x.1 = i).map Prod.snd

theorem answersTo_nil (i : ι) (inputs : List (ι × α)) : answersTo i inputs ([] : List β) = [] := by
  rw [answersTo, List.zip_nil_right]
  rfl

section Cons

variable {i : ι} {input : ι × α} {inputs : List (ι × α)} {answer : β} {answers : List β}

theorem answersTo_cons_self (h : input.1 = i) :
    answersTo i (input :: inputs) (answer :: answers) = answer :: answersTo i inputs answers := by
  simp only [answersTo, List.zip_cons_cons, List.filter_cons, h, decide_true, if_true,
    List.map_cons]

theorem answersTo_cons_of_ne (h : input.1 ≠ i) :
    answersTo i (input :: inputs) (answer :: answers) = answersTo i inputs answers := by
  simp only [answersTo, List.zip_cons_cons, List.filter_cons, h, decide_false,
    Bool.false_eq_true, if_false]

theorem inputsOf_cons_self (h : input.1 = i) :
    inputsOf i (input :: inputs) = input.2 :: inputsOf i inputs := by
  simp only [inputsOf, List.filter_cons, h, decide_true, if_true, List.map_cons]

theorem inputsOf_cons_of_ne (h : input.1 ≠ i) :
    inputsOf i (input :: inputs) = inputsOf i inputs := by
  simp only [inputsOf, List.filter_cons, h, decide_false, Bool.false_eq_true, if_false]

end Cons

/-- To each index the family is its own machine on its own inputs. -/
theorem answersTo_family (step : σ → α → σ × β) (f : ι → σ) (inputs : List (ι × α)) (i : ι) :
    answersTo i inputs (outputs (family step) f inputs) =
      outputs step (f i) (inputsOf i inputs) := by
  induction inputs generalizing f with
  | nil => rfl
  | cons input inputs ih =>
      rw [outputs]
      by_cases hi : input.1 = i
      · have hself : (family step f input).1 i = (step (f i) input.2).1 := by
          subst hi
          exact Function.update_self ..
        rw [answersTo_cons_self hi, inputsOf_cons_self hi, ih, hself, outputs, family, hi]
      · have hother : (family step f input).1 i = f i := Function.update_of_ne (Ne.symm hi) ..
        rw [answersTo_cons_of_ne hi, inputsOf_cons_of_ne hi, ih, hother]

/-- Telling a machine more about its inputs does not change whose answers they get. -/
theorem answersTo_noted {γ : Type} {note : (ι → σ) → ι × α → ι × γ}
    {abstract : (ι → σ) → ι × γ → (ι → σ) × β} (hnote : ∀ f a, (note f a).1 = a.1) (i : ι)
    (f : ι → σ) (inputs : List (ι × α)) (answers : List β) :
    answersTo i (noted abstract note f inputs) answers = answersTo i inputs answers := by
  induction inputs generalizing f answers with
  | nil => rfl
  | cons input inputs ih =>
      cases answers with
      | nil => exact (answersTo_nil i _).trans (answersTo_nil i _).symm
      | cons answer answers =>
          rw [noted]
          by_cases hi : input.1 = i
          · rw [answersTo_cons_self hi, answersTo_cons_self ((hnote f input).trans hi), ih]
          · rw [answersTo_cons_of_ne hi,
              answersTo_cons_of_ne fun h => hi ((hnote f input).symm.trans h), ih]

end Family

end Transducer
