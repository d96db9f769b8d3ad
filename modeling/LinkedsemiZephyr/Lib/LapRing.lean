import Mathlib.Data.List.Basic

/-! A ring of slots written round and round, each entry marked with the parity of its lap.
A reader that keeps its own lap can tell a new entry from an old one by the mark alone,
as long as the writer is never more than one ring ahead of it. -/
namespace LapRing

variable {α : Type} {mark : α → Bool} {M c n : Nat} {slots log : List α} {x : α}

/-- The mark of a lap; laps are counted from 0. -/
def lapMark (lap : Nat) : Bool := lap % 2 == 0

@[simp] theorem lapMark_zero : lapMark 0 = true := rfl

@[simp] theorem lapMark_succ (lap : Nat) : lapMark (lap + 1) = !lapMark lap := by
  rcases Nat.mod_two_eq_zero_or_one lap with h | h <;> simp [lapMark, Nat.add_mod, h]

/-- The next position is the next slot, or the first slot of the next lap. -/
theorem advance (hM : 0 < M) (n : Nat) :
    (n % M + 1 < M ∧ (n + 1) % M = n % M + 1 ∧ (n + 1) / M = n / M) ∨
      (n % M + 1 = M ∧ (n + 1) % M = 0 ∧ (n + 1) / M = n / M + 1) := by
  have hlt := Nat.mod_lt n hM
  have hdiv := Nat.div_add_mod n M
  by_cases h : n % M + 1 = M
  · have hn : n + 1 = M * (n / M + 1) := by rw [Nat.mul_add, Nat.mul_one]; omega
    refine .inr ⟨h, ?_, ?_⟩
    · rw [hn, Nat.mul_mod_right]
    · rw [hn, Nat.mul_div_cancel_left _ hM]
  · have hlt' : n % M + 1 < M := by omega
    have hn : n + 1 = M * (n / M) + (n % M + 1) := by omega
    refine .inl ⟨hlt', ?_, ?_⟩
    · rw [hn, Nat.mul_add_mod, Nat.mod_eq_of_lt hlt']
    · rw [hn, Nat.mul_add_div hM, Nat.div_eq_of_lt hlt', Nat.add_zero]

/-- Positions less than a ring apart that stand in one slot are the same. -/
theorem eq_of_mod_eq {m : Nat} (hle : m ≤ n) (hlt : n < m + M) (h : n % M = m % M) : n = m := by
  have hzero := Nat.sub_mod_eq_zero_of_mod_eq h
  rw [Nat.mod_eq_of_lt (by omega)] at hzero
  omega

/-- A reader that has taken a prefix of the log takes the next entry. -/
theorem taken_concat {taken : List α} (h : taken <+: log) (hx : log[taken.length]? = some x) :
    taken ++ [x] <+: log := by
  obtain ⟨rest, rfl⟩ := h
  rw [List.getElem?_append_right (Nat.le_refl _), Nat.sub_self] at hx
  cases rest with
  | nil => cases hx
  | cons y ys =>
      cases hx
      exact ⟨ys, by rw [List.append_assoc]; rfl⟩

/-- `slots` after the entries of `log` were written one after another: the last `M` of them
still stand, every entry has the mark of its lap, and an unwritten slot has no lap's mark. -/
structure Holds (mark : α → Bool) (M : Nat) (slots log : List α) : Prop where
  room : M ≤ slots.length
  recent : ∀ n < log.length, log.length ≤ n + M → slots[n % M]? = log[n]?
  marked : ∀ n x, log[n]? = some x → mark x = lapMark (n / M)
  blank : ∀ i x, log.length ≤ i → i < M → slots[i]? = some x → mark x = false

theorem Holds.nil (hroom : M ≤ slots.length)
    (hblank : ∀ i x, i < M → slots[i]? = some x → mark x = false) :
    Holds mark M slots [] where
  room := hroom
  recent n h := absurd h (Nat.not_lt_zero n)
  marked n x h := by simp at h
  blank i x _ := hblank i x

theorem Holds.write (h : Holds mark M slots log) (hM : 0 < M)
    (hx : mark x = lapMark (log.length / M)) :
    Holds mark M (slots.set (log.length % M) x) (log ++ [x]) := by
  have hslot := Nat.mod_lt log.length hM
  have hroom := h.room
  constructor
  · rw [List.length_set]
    exact hroom
  · intro n hn hcap
    rw [List.length_append, List.length_singleton] at hn hcap
    by_cases hlast : n = log.length
    · subst hlast
      rw [List.getElem?_set_self (by omega), List.getElem?_concat_length]
    · have hne : log.length % M ≠
        n % M := fun heq => hlast (eq_of_mod_eq (by omega) (by omega) heq).symm
      rw [List.getElem?_set_ne hne, List.getElem?_append_left (by omega)]
      exact h.recent n (by omega) (by omega)
  · intro n y hy
    by_cases hlast : n = log.length
    · subst hlast
      rw [List.getElem?_concat_length] at hy
      cases hy
      exact hx
    · have hn := (List.getElem?_eq_some_iff.mp hy).1
      rw [List.length_append, List.length_singleton] at hn
      rw [List.getElem?_append_left (by omega)] at hy
      exact h.marked n y hy
  · intro i y hi hiM hy
    rw [List.length_append, List.length_singleton] at hi
    have hmod : log.length % M = log.length := Nat.mod_eq_of_lt (by omega)
    rw [List.getElem?_set_ne (by omega)] at hy
    exact h.blank i y (by omega) hiM hy

/-- Slots past the ring are free for other use. -/
theorem Holds.set_outside (h : Holds mark M slots log) (hM : 0 < M) {j : Nat} (hj : M ≤ j) (x : α) :
    Holds mark M (slots.set j x) log where
  room := by rw [List.length_set]; exact h.room
  recent n hn hcap := by
    have hslot := Nat.mod_lt n hM
    rw [List.getElem?_set_ne (by omega)]
    exact h.recent n hn hcap
  marked := h.marked
  blank i y hi hiM hy := by
    rw [List.getElem?_set_ne (by omega)] at hy
    exact h.blank i y hi hiM hy

/-- The mark of the slot a reader stands at tells whether its entry has been written. -/
theorem Holds.mark_iff (h : Holds mark M slots log) (hM : 0 < M) (hnext : c < log.length + M)
    (hcap : log.length ≤ c + M) (hx : slots[c % M]? = some x) :
    mark x = lapMark (c / M) ↔ c < log.length := by
  constructor
  · intro hm
    by_contra hnot
    by_cases hfirst : c < M
    · rw [Nat.mod_eq_of_lt hfirst] at hx
      have hfalse := h.blank c x (by omega) hfirst hx
      rw [hm, Nat.div_eq_of_lt hfirst] at hfalse
      cases hfalse
    · obtain ⟨b, rfl⟩ : ∃ b, c = b + M := ⟨c - M, by omega⟩
      have hold := h.recent b (by omega) (by omega)
      rw [← Nat.add_mod_right, hx] at hold
      have hmark := h.marked b x hold.symm
      rw [hm, Nat.add_div_right _ hM, lapMark_succ] at hmark
      cases hb : lapMark (b / M) <;> simp [hb] at hmark
  · intro hlt
    rw [h.recent c hlt hcap] at hx
    exact h.marked c x hx

/-- What a reader takes is the entry of its position. -/
theorem Holds.read (h : Holds mark M slots log) (hlt : c < log.length) (hcap : log.length ≤ c + M)
    (hx : slots[c % M]? = some x) : log[c]? = some x := by
  rw [← h.recent c hlt hcap, hx]

end LapRing
