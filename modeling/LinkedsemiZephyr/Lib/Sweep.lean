import Mathlib.Algebra.Group.Nat.Defs
import Mathlib.Data.List.Basic

/-! A walk over a list that takes out what a test finds, steps over the element behind each one
taken out, and starts again at the front once it has taken out the last. The test is given the
number of tests before it, so it may change along the walk. -/
namespace Sweep

variable {σ α : Type} (found : Nat → α → Bool) (drop : σ → α → σ)

/-- `passed` ends where the walk stands, `rest` is ahead of it. -/
def sweep : Nat → σ → List α → List α → σ × List α
  | _, st, passed, [] => (st, passed)
  | n, st, passed, x :: rest =>
    if found n x then
      match rest with
      | [] => sweep (n + 1) (drop st x) [] passed
      | y :: rest => sweep (n + 1) (drop st x) (passed ++ [y]) rest
    else sweep (n + 1) st (passed ++ [x]) rest
termination_by _ _ passed rest => (passed.length + rest.length, rest.length)
decreasing_by all_goals
  simp only [Prod.lex_def, List.length_append, List.length_cons, List.length_nil]; omega

variable {found drop} {P : α → Bool}

/-- What a walk leaves and what it takes out, the latter in the order it is taken out. -/
structure Swept (found : Nat → α → Bool) (drop : σ → α → σ) (st : σ) (l : List α) (r : σ × List α)
    (removed : List α) : Prop where
  kept : r.2.Sublist l
  split : l.Perm (r.2 ++ removed)
  state : r.1 = removed.foldl drop st
  test : ∀ x ∈ removed, ∃ n, found n x = true

theorem swept_sweep (found : Nat → α → Bool) (drop : σ → α → σ) (n : Nat) (st : σ)
    (passed rest : List α) :
    ∃ removed, Swept found drop st (passed ++ rest)
      (sweep found drop n st passed rest) removed := by
  fun_induction sweep found drop n st passed rest with
  | case1 n st passed =>
      rw [List.append_nil]
      exact ⟨[], .refl _, by rw [List.append_nil], rfl, fun x hx => absurd hx List.not_mem_nil⟩
  | case2 n st passed x hx ih =>
      obtain ⟨removed, hkept, hsplit, hstate, htest⟩ := ih
      rw [List.nil_append] at hkept hsplit
      refine ⟨x :: removed, hkept.trans (List.sublist_append_left _ _), ?_, hstate, ?_⟩
      · exact (hsplit.append_right [x]).trans (by
          rw [List.append_assoc]
          exact List.Perm.append_left _ (List.perm_append_singleton x removed))
      · rw [List.forall_mem_cons]
        exact ⟨⟨n, hx⟩, htest⟩
  | case3 n st passed x hx y rest ih =>
      obtain ⟨removed, hkept, hsplit, hstate, htest⟩ := ih
      rw [List.append_assoc, List.singleton_append] at hkept hsplit
      refine ⟨x :: removed, hkept.trans (List.Sublist.append_left (List.sublist_cons_self x _) _),
        ?_, hstate, ?_⟩
      · exact (List.perm_middle.trans (hsplit.cons x)).trans List.perm_middle.symm
      · rw [List.forall_mem_cons]
        exact ⟨⟨n, hx⟩, htest⟩
  | case4 n st passed x rest hx ih =>
      rwa [List.append_assoc, List.singleton_append] at ih

theorem Swept.filter_eq {st : σ} {l removed : List α} {r : σ × List α}
    (h : Swept found drop st l r removed) (hP : ∀ x ∈ l, P x = true → ∀ n, found n x = false) :
    r.2.filter P = l.filter P := by
  have hnone : removed.filter P = [] := by
    rw [List.filter_eq_nil_iff]
    intro x hx hPx
    obtain ⟨n, hn⟩ := h.test x hx
    rw [hP x (h.split.mem_iff.mpr (List.mem_append_right _ hx)) hPx n] at hn
    cases hn
  apply (h.kept.filter P).eq_of_length
  rw [(h.split.filter P).length_eq, List.filter_append, hnone, List.append_nil]

/-- What every test finds stays only where it was stepped over, once for each element taken out. -/
theorem stepped_over_le (P : α → Bool) (found : Nat → α → Bool) (drop : σ → α → σ) (n : Nat)
    (st : σ) (passed rest : List α)
    (hP : ∀ x ∈ passed ++ rest, P x = true → ∀ n, found n x = true) :
    (sweep found drop n st passed rest).2.countP P + (sweep found drop n st passed rest).2.length ≤
      passed.countP P + (passed ++ rest).length := by
  fun_induction sweep found drop n st passed rest with
  | case1 n st passed => exact Nat.le_of_eq (by rw [List.append_nil])
  | case2 n st passed x hx ih =>
      have hstep := ih fun y hy => hP y (List.mem_append_left _ hy)
      rw [List.length_append, List.length_singleton]
      rw [List.countP_nil, List.nil_append] at hstep
      omega
  | case3 n st passed x hx y rest ih =>
      have hone : [y].countP P ≤ 1 := List.countP_le_length
      have hsub : (passed ++ [y] ++ rest).Sublist (passed ++ x :: y :: rest) := by
        rw [List.append_assoc]
        exact List.Sublist.append_left (List.sublist_cons_self x _) passed
      have hstep := ih fun z hz => hP z (hsub.subset hz)
      simp only [List.countP_append, List.length_append, List.length_cons,
        List.length_nil] at hstep hone ⊢
      omega
  | case4 n st passed x rest hx ih =>
      have hnone : [x].countP P = 0 := by
        rw [List.countP_eq_zero]
        rintro y hy hPy
        rw [List.mem_singleton.mp hy] at hPy
        exact hx (hP x (List.mem_append_right _ List.mem_cons_self) hPy n)
      have hstep := ih (by rwa [List.append_assoc])
      simp only [List.countP_append, List.length_append, List.length_cons,
        List.length_nil] at hstep hnone ⊢
      omega

/-- Where all tests agree, at most half of what they find is left. -/
theorem halved {st : σ} {l : List α} (hagree : ∀ x ∈ l, ∀ n, found n x = found 0 x) :
    2 * (sweep found drop 0 st [] l).2.countP (found 0) ≤ l.countP (found 0) := by
  obtain ⟨removed, h⟩ := swept_sweep found drop 0 st [] l
  have hle :=
    stepped_over_le (found 0) found drop 0 st [] l fun x hx hP n => (hagree x hx n).trans hP
  have hlen := h.split.length_eq.trans List.length_append
  have hcount := (h.split.countP_eq (found 0)).trans List.countP_append
  have hall : removed.countP (found 0) = removed.length := by
    rw [List.countP_eq_length]
    intro x hx
    obtain ⟨n, hn⟩ := h.test x hx
    rwa [hagree x (h.split.mem_iff.mpr (List.mem_append_right _ hx)) n] at hn
  rw [hall] at hcount
  rw [List.countP_nil, Nat.zero_add] at hle
  rw [List.nil_append] at hlen hcount hle
  omega

/-- All that satisfies `P` stands among the first `m`. -/
def Within (P : α → Bool) (m : Nat) (l : List α) : Prop := ∀ x ∈ l.drop m, P x = false

theorem Within.sublist {m : Nat} {l l' : List α} (h : Within P m l) (hsub : l'.Sublist l) :
    Within P m l' :=
  fun x hx => h x ((hsub.drop m).subset hx)

theorem within_of_length_le {m : Nat} {l : List α} (h : l.length ≤ m) : Within P m l := by
  intro x hx
  rw [List.drop_eq_nil_of_le h] at hx
  exact absurd hx List.not_mem_nil

theorem Within.append {m : Nat} {l : List α} {x : α} (h : Within P m l) (hx : P x = false) :
    Within P m (l ++ [x]) := by
  intro y hy
  rw [List.drop_append] at hy
  rcases List.mem_append.mp hy with hy | hy
  · exact h y hy
  · rw [List.mem_singleton.mp (List.mem_of_mem_drop hy)]
    exact hx

/-- Taking out one of the first moves up all behind it. -/
theorem Within.remove {m : Nat} {l t : List α} {x : α} (h : Within P (m + 1) (l ++ x :: t))
    (hl : l.length ≤ m) :
    Within P m (l ++ t) := by
  have hdrop : (l ++ t).drop m = (l ++ x :: t).drop (m + 1) := by
    rw [List.drop_append, List.drop_append, List.drop_eq_nil_of_le hl,
      List.drop_eq_nil_of_le (Nat.le_succ_of_le hl), Nat.succ_sub hl, List.drop_succ_cons]
  intro y hy
  rw [hdrop] at hy
  exact h y hy

theorem sweep_sublist (found : Nat → α → Bool) (drop : σ → α → σ) (n : Nat) (st : σ)
    (passed rest : List α) :
    (sweep found drop n st passed rest).2.Sublist (passed ++ rest) := by
  obtain ⟨removed, h⟩ := swept_sweep found drop n st passed rest
  exact h.kept

/-- Each walk moves up what it would find, by one place at least. -/
theorem within_sweep (hP : ∀ x, P x = true → ∀ n, found n x = true) {m : Nat} (n : Nat) (st : σ)
    (passed rest : List α) (h : Within P (m + 1) (passed ++ rest)) (hpassed : passed.length ≤ m) :
    Within P m (sweep found drop n st passed rest).2 := by
  fun_induction sweep found drop n st passed rest with
  | case1 n st passed => exact within_of_length_le hpassed
  | case2 n st passed x hx ih =>
      exact (within_of_length_le hpassed).sublist (sweep_sublist found drop _ _ _ _)
  | case3 n st passed x hx y rest ih =>
      refine (h.remove hpassed).sublist ?_
      have hsub := sweep_sublist found drop (n + 1) (drop st x) (passed ++ [y]) rest
      rwa [List.append_assoc] at hsub
  | case4 n st passed x rest hx ih =>
      rcases Nat.lt_or_eq_of_le hpassed with hlt | heq
      · apply ih
        · rwa [List.append_assoc]
        · rw [List.length_append, List.length_singleton]
          omega
      · have hnone : P x = false := Bool.eq_false_iff.mpr fun hPx => hx (hP x hPx n)
        have hm : Within P m (passed ++ x :: rest) := by
          intro y hy
          rw [← heq, List.drop_left] at hy
          rcases List.mem_cons.mp hy with rfl | hy
          · exact hnone
          · refine h y ?_
            rw [← heq, List.drop_append, Nat.add_sub_cancel_left, List.drop_succ_cons,
              List.drop_zero]
            exact List.mem_append_right _ hy
        refine hm.sublist ?_
        have hsub := sweep_sublist found drop (n + 1) st (passed ++ [x]) rest
        rwa [List.append_assoc] at hsub

end Sweep
