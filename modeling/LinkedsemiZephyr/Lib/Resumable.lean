import Mathlib.Data.List.Basic

/-! Resumable scanners. A scanner looks at the front of a buffer and asks for more
input, discards a prefix or emits a prefix. A verdict other than `more` must survive
any later input, and that alone makes the emitted pieces independent of how the
stream was cut into deliveries. -/
namespace Resumable

inductive Verdict where
  | more
  | skip (n : Nat)
  | emit (n : Nat)
  deriving DecidableEq, Repr

/-- The bounds make every decided step consume input; `stable` is the monotonicity. -/
structure Scanner (α : Type) where
  next : List α → Verdict
  skip_bound : ∀ {b n}, next b = .skip n → 0 < n ∧ n ≤ b.length
  emit_bound : ∀ {b n}, next b = .emit n → 0 < n ∧ n ≤ b.length
  stable : ∀ {b} (c), next b ≠ .more → next (b ++ c) = next b

variable {α : Type}

/-- Decide until more input is needed: the pieces emitted and the undecided rest. -/
def Scanner.scan (S : Scanner α) (b : List α) : List (List α) × List α :=
  match _h : S.next b with
  | .more => ([], b)
  | .skip n => S.scan (b.drop n)
  | .emit n => (b.take n :: (S.scan (b.drop n)).1, (S.scan (b.drop n)).2)
termination_by b.length
decreasing_by
  all_goals simp only [List.length_drop]
  · have := S.skip_bound _h; omega
  · have := S.emit_bound _h; omega

def Scanner.pieces (S : Scanner α) (b : List α) : List (List α) := (S.scan b).1

variable {S : Scanner α}

theorem Scanner.scan_more {b : List α} (h : S.next b = .more) : S.scan b = ([], b) := by
  rw [Scanner.scan]
  split <;> simp_all

theorem Scanner.scan_skip {b : List α} {n : Nat} (h : S.next b = .skip n) :
    S.scan b = S.scan (b.drop n) := by
  rw [Scanner.scan]
  split <;> simp_all

theorem Scanner.scan_emit {b : List α} {n : Nat} (h : S.next b = .emit n) :
    S.scan b = (b.take n :: (S.scan (b.drop n)).1, (S.scan (b.drop n)).2) := by
  rw [Scanner.scan]
  split <;> simp_all

theorem Scanner.next_append {b : List α} {v : Verdict} (h : S.next b = v) (hv : v ≠ .more)
    (c : List α) : S.next (b ++ c) = v := by
  rw [S.stable c (by rw [h]; exact hv), h]

theorem Scanner.scan_skip_append {b : List α} {n : Nat} (h : S.next b = .skip n) (c : List α) :
    S.scan (b ++ c) = S.scan (b.drop n ++ c) := by
  rw [Scanner.scan_skip (Scanner.next_append h (by simp) c),
    List.drop_append_of_le_length (S.skip_bound h).2]

theorem Scanner.scan_emit_append {b : List α} {n : Nat} (h : S.next b = .emit n) (c : List α) :
    S.scan (b ++ c) = (b.take n :: (S.scan (b.drop n ++ c)).1, (S.scan (b.drop n ++ c)).2) := by
  have hn := S.emit_bound h
  rw [Scanner.scan_emit (Scanner.next_append h (by simp) c),
    List.drop_append_of_le_length hn.2, List.take_append_of_le_length hn.2]

theorem Scanner.pieces_more {b : List α} (h : S.next b = .more) : S.pieces b = [] := by
  rw [Scanner.pieces, Scanner.scan_more h]

theorem Scanner.pieces_skip {b : List α} {n : Nat} (h : S.next b = .skip n) (c : List α) :
    S.pieces (b ++ c) = S.pieces (b.drop n ++ c) := by
  rw [Scanner.pieces, Scanner.scan_skip_append h, Scanner.pieces]

theorem Scanner.pieces_emit {b : List α} {n : Nat} (h : S.next b = .emit n) (c : List α) :
    S.pieces (b ++ c) = b.take n :: S.pieces (b.drop n ++ c) := by
  rw [Scanner.pieces, Scanner.scan_emit_append h, Scanner.pieces]

end Resumable
