import Mathlib.Algebra.BigOperators.Group.List.Basic

/-! Words closed by a check element that takes their sum to zero, over any abelian group. -/
namespace SumCheck

variable {G : Type} [AddCommGroup G] {l : List G} {c x : G} {i : Nat}

/-- The element that takes the sum of a word to zero. -/
def check (l : List G) : G := -l.sum

def Balanced (l : List G) : Prop := l.sum = 0

theorem foldl_sub (a : G) (l : List G) : l.foldl (fun s x => s - x) a = a - l.sum := by
  induction l generalizing a with
  | nil => rw [List.foldl_nil, List.sum_nil, sub_zero]
  | cons x l ih => rw [List.foldl_cons, ih, List.sum_cons, sub_sub]

theorem balanced_append_singleton : Balanced (l ++ [c]) ↔ c = check l := by
  rw [Balanced, List.sum_append, List.sum_singleton, check, eq_neg_iff_add_eq_zero, add_comm]

/-- A change of one element shows, whatever the element is changed to. -/
theorem balanced_set (h : Balanced l) (hi : i < l.length) : Balanced (l.set i x) ↔ x = l[i] := by
  rw [Balanced, List.sum_set', (h : l.sum = 0), dif_pos hi, zero_add, neg_add_eq_zero, eq_comm]

end SumCheck
