import Mathlib.Algebra.Group.Nat.Defs
import Mathlib.Data.List.Basic

/-! Records of one width in a byte queue with room for a whole number of them. Put whole
and taken in multiples of the width, they are a bounded queue of records. -/
namespace RecordQueue

variable {α β : Type} {enc : α → List β} {w n : Nat}

/-- A full queue loses the record. -/
def offer (n : Nat) (q : List α) (x : α) : List α := if q.length < n then q ++ [x] else q

theorem length_offer {q : List α} (h : q.length ≤ n) (x : α) : (offer n q x).length ≤ n := by
  unfold offer
  split
  · rw [List.length_append, List.length_singleton]
    omega
  · exact h

variable (hw : ∀ x, (enc x).length = w)
include hw

theorem length_flatMap (q : List α) : (q.flatMap enc).length = q.length * w := by
  induction q with
  | nil => exact (Nat.zero_mul w).symm
  | cons x q ih => rw [List.flatMap_cons, List.length_append, hw, ih, List.length_cons,
      Nat.succ_mul, Nat.add_comm]

theorem take_flatMap (q : List α) (k : Nat) :
    (q.flatMap enc).take (k * w) = (q.take k).flatMap enc := by
  induction q generalizing k with
  | nil => simp
  | cons x q ih =>
      cases k with
      | zero => simp
      | succ k =>
          have hsplit : (k + 1) * w = (enc x).length + k * w := by
            rw [hw, Nat.succ_mul, Nat.add_comm]
          rw [List.flatMap_cons, hsplit, List.take_length_add_append, ih, List.take_succ_cons,
            List.flatMap_cons]

theorem drop_flatMap (q : List α) (k : Nat) :
    (q.flatMap enc).drop (k * w) = (q.drop k).flatMap enc := by
  induction q generalizing k with
  | nil => simp
  | cons x q ih =>
      cases k with
      | zero => simp
      | succ k =>
          have hsplit : (k + 1) * w = (enc x).length + k * w := by
            rw [hw, Nat.succ_mul, Nat.add_comm]
          rw [List.flatMap_cons, hsplit, List.drop_length_add_append, ih, List.drop_succ_cons]

/-- A put that takes what fits takes a record or nothing. -/
theorem put_flatMap {q : List α} (h : q.length ≤ n) (x : α) :
    q.flatMap enc ++ (enc x).take (n * w - (q.flatMap enc).length) = (offer n q x).flatMap enc := by
  rw [length_flatMap hw, ← Nat.sub_mul]
  unfold offer
  split
  · next hroom =>
      have hfits : (enc x).length ≤ (n - q.length) * w := by
        rw [hw]
        exact Nat.le_mul_of_pos_left w (Nat.sub_pos_of_lt hroom)
      rw [List.take_of_length_le hfits, List.flatMap_append, List.flatMap_singleton]
  · next hfull =>
      have hnone : n - q.length = 0 := by omega
      rw [hnone, Nat.zero_mul, List.take_zero, List.append_nil]

end RecordQueue
