import Mathlib.Data.Finset.Sort

/-! Finite sets kept as sorted lists: an element put in by sorting, one taken out by its place. -/
namespace SortedFinset

variable {α : Type} [DecidableEq α] {r : α → α → Prop} [DecidableRel r] [IsTrans α r]
  [Std.Antisymm r]
  [Std.Total r] {s : Finset α} {a : α}

/-- A sorted list without repetitions is the sorting of its elements. -/
theorem sort_eq {l : List α} (hl : l.Pairwise r) (hnodup : l.Nodup) (hmem : ∀ x, x ∈ l ↔ x ∈ s) :
    s.sort r = l := by
  have hs : l.toFinset = s := by
    ext x
    rw [List.mem_toFinset, hmem]
  rw [← hs]
  exact (List.toFinset_sort r hnodup).mpr hl

omit [DecidableEq α] [Std.Antisymm r] in
theorem pairwise_mergeSort (l : List α) : (l.mergeSort fun x y => decide (r x y)).Pairwise r := by
  have htrans (x y z : α) (hxy : decide (r x y) = true) (hyz : decide (r y z) = true) :
      decide (r x z) = true := by
    rw [decide_eq_true_iff] at hxy hyz ⊢
    exact IsTrans.trans x y z hxy hyz
  have htotal (x y : α) : (decide (r x y) || decide (r y x)) = true := by
    rw [Bool.or_eq_true, decide_eq_true_iff, decide_eq_true_iff]
    exact Std.Total.total x y
  exact (List.pairwise_mergeSort htrans htotal l).imp fun h => of_decide_eq_true h

/-- Sorting with one more element at the end inserts it. -/
theorem mergeSort_insert (ha : a ∉ s) :
    (s.sort r ++ [a]).mergeSort (fun x y => decide (r x y)) = (insert a s).sort r := by
  symm
  have hperm := List.mergeSort_perm (s.sort r ++ [a]) fun x y => decide (r x y)
  apply sort_eq (pairwise_mergeSort _)
  · rw [hperm.nodup_iff, List.nodup_append]
    refine ⟨Finset.sort_nodup s r, List.nodup_singleton a, ?_⟩
    rintro x hx y hy rfl
    exact ha (List.mem_singleton.mp hy ▸ (Finset.mem_sort r).mp hx)
  · intro x
    rw [hperm.mem_iff, List.mem_append, List.mem_singleton, Finset.mem_sort,
      Finset.mem_insert, or_comm]

/-- Taking an element out of its place erases it. -/
theorem eraseIdx_sort {i : Nat} (hi : (s.sort r)[i]? = some a) :
    (s.sort r).eraseIdx i = (s.erase a).sort r := by
  symm
  obtain ⟨hlt, hget⟩ := List.getElem?_eq_some_iff.mp hi
  have hsub := List.eraseIdx_sublist (s.sort r) i
  have hnodup := Finset.sort_nodup s r
  apply sort_eq ((Finset.pairwise_sort s r).sublist hsub) (hnodup.sublist hsub)
  intro x
  rw [List.mem_eraseIdx_iff_getElem, Finset.mem_erase]
  constructor
  · rintro ⟨j, hj, hne, rfl⟩
    refine ⟨fun heq => hne ?_, (Finset.mem_sort r).mp (List.getElem_mem hj)⟩
    exact (hnodup.getElem_inj_iff).mp (heq.trans hget.symm)
  · rintro ⟨hne, hx⟩
    obtain ⟨j, hj, rfl⟩ := List.mem_iff_getElem.mp ((Finset.mem_sort r).mpr hx)
    refine ⟨j, hj, fun heq => hne ?_, rfl⟩
    subst heq
    exact hget

omit [DecidableEq α] in
/-- The last element is the greatest. -/
theorem last_sort_iff {i : Nat} (hi : (s.sort r)[i]? = some a) :
    i + 1 = s.card ↔ ∀ x ∈ s, r x a := by
  obtain ⟨hlt, rfl⟩ := List.getElem?_eq_some_iff.mp hi
  have hsorted := List.pairwise_iff_getElem.mp (Finset.pairwise_sort s r)
  have hcard : (s.sort r).length = s.card := Finset.length_sort r
  constructor
  · intro hlast x hx
    obtain ⟨j, hj, rfl⟩ := List.mem_iff_getElem.mp ((Finset.mem_sort r).mpr hx)
    rcases Nat.lt_or_ge j i with hji | hij
    · exact hsorted j i hj hlt hji
    · obtain rfl : i = j := by omega
      exact (Std.Total.total (r := r) _ _).elim id id
  · intro hgreatest
    by_contra hne
    have hnext : i + 1 < (s.sort r).length := by omega
    have hafter := hsorted i (i + 1) hlt hnext (Nat.lt_succ_self i)
    have hbefore := hgreatest _ ((Finset.mem_sort r).mp (List.getElem_mem hnext))
    have heq := Std.Antisymm.antisymm _ _ hafter hbefore
    exact Nat.succ_ne_self i ((Finset.sort_nodup s r).getElem_inj_iff.mp heq).symm

end SortedFinset
