import LinkedsemiZephyr.Lib.Octets
import Mathlib.Algebra.BigOperators.Group.List.Basic
import Mathlib.Tactic.Ring

/-! Octet strings as the bits they are shifted in, least significant first, and the shift
registers such bits pass through. -/
namespace BitStream
open Octets

/-- The low `n` bits of a number. -/
def natBits (n x : Nat) : List Bool := (List.range n).map x.testBit

def bits : List UInt8 → List Bool
  | [] => []
  | b :: bs => natBits 8 b.toNat ++ bits bs

def value : List Bool → Nat
  | [] => 0
  | b :: l => b.toNat + 2 * value l

/-- The first `n` octets of a bit string; bits it lacks are zero. -/
def pack : Nat → List Bool → List UInt8
  | 0, _ => []
  | n + 1, l => UInt8.ofNat (value (l.take 8)) :: pack n (l.drop 8)

section Numbers
variable {m n x y : Nat} {bs : List UInt8}

@[simp] theorem length_natBits (n x : Nat) : (natBits n x).length = n := by
  rw [natBits, List.length_map, List.length_range]

@[simp] theorem length_bits (bs : List UInt8) : (bits bs).length = 8 * bs.length := by
  induction bs with
  | nil => rfl
  | cons b bs ih =>
      rw [bits, List.length_append, ih, length_natBits, List.length_cons]
      omega

@[simp] theorem length_pack (n : Nat) (l : List Bool) : (pack n l).length = n := by
  induction n generalizing l with
  | zero => rfl
  | succ n ih => rw [pack, List.length_cons, ih]

theorem natBits_succ (n x : Nat) : natBits (n + 1) x = x.testBit 0 :: natBits n (x / 2) := by
  rw [natBits, List.range_succ_eq_map, List.map_cons, List.map_map]
  apply congrArg (x.testBit 0 :: ·)
  apply List.map_congr_left
  intro i _
  exact Nat.testBit_add_one x i

/-- The bits of a number above those of another. -/
theorem natBits_add (hx : x < 2 ^ n) :
    natBits (n + m) (x + 2 ^ n * y) = natBits n x ++ natBits m y := by
  rw [natBits, List.range_add, List.map_append, List.map_map, Nat.add_comm x]
  congr 1
  · apply List.map_congr_left
    intro i hi
    rw [Nat.testBit_two_pow_mul_add y hx, if_pos (List.mem_range.mp hi)]
  · apply List.map_congr_left
    intro i _
    rw [Function.comp_apply, Nat.testBit_two_pow_mul_add y hx, if_neg (by omega),
      Nat.add_sub_cancel_left]

theorem take_natBits (hmn : m ≤ n) : (natBits n x).take m = natBits m x := by
  rw [natBits, ← List.map_take, List.take_range, Nat.min_eq_left hmn]
  rfl

theorem drop_natBits (hmn : m ≤ n) : (natBits n x).drop m = natBits (n - m) (x / 2 ^ m) := by
  obtain ⟨k, rfl⟩ := Nat.exists_eq_add_of_le hmn
  rw [natBits, List.range_add, List.map_append,
    List.drop_left' (by rw [List.length_map, List.length_range]), List.map_map,
    Nat.add_sub_cancel_left]
  apply List.map_congr_left
  intro i _
  rw [Function.comp_apply, Nat.testBit_div_two_pow, Nat.add_comm]

theorem value_natBits (hx : x < 2 ^ n) : value (natBits n x) = x := by
  induction n generalizing x with
  | zero =>
      rw [Nat.pow_zero, Nat.lt_one_iff] at hx
      rw [hx]
      rfl
  | succ n ih =>
      rw [natBits_succ, value, ih (by omega), Nat.testBit_zero]
      rcases Nat.mod_two_eq_zero_or_one x with h | h <;> rw [h] <;> simp <;> omega

theorem natBits_mod (n x : Nat) : natBits n (x % 2 ^ n) = natBits n x := by
  apply List.map_congr_left
  intro i hi
  rw [Nat.testBit_mod_two_pow, decide_eq_true (List.mem_range.mp hi), Bool.true_and]

/-- Bits agree as far as the numbers do. -/
theorem mod_eq_of_natBits (h : natBits n x = natBits n y) : x % 2 ^ n = y % 2 ^ n := by
  rw [← natBits_mod n x, ← natBits_mod n y] at h
  rw [← value_natBits (Nat.mod_lt x (Nat.two_pow_pos n)), h,
    value_natBits (Nat.mod_lt y (Nat.two_pow_pos n))]

/-- The bits of an octet string are those of the number it stands for. -/
theorem bits_eq (bs : List UInt8) : bits bs = natBits (8 * bs.length) (leNat bs) := by
  induction bs with
  | nil => rfl
  | cons b bs ih =>
      have hb : b.toNat < 2 ^ 8 := b.toNat_lt
      rw [bits, leNat, ih, List.length_cons, Nat.mul_succ, Nat.add_comm (8 * bs.length)]
      exact (natBits_add hb).symm

theorem bits_append (bs cs : List UInt8) : bits (bs ++ cs) = bits bs ++ bits cs := by
  induction bs with
  | nil => rfl
  | cons b bs ih => rw [List.cons_append, bits, bits, ih, List.append_assoc]

theorem prefix_pack (l : List Bool) (hn : bs.length ≤ n) : bs <+: pack n (bits bs ++ l) := by
  induction bs generalizing n with
  | nil => exact List.nil_prefix
  | cons b bs ih =>
      obtain ⟨m, rfl⟩ :=
        Nat.exists_eq_add_one_of_ne_zero (Nat.ne_of_gt (Nat.lt_of_lt_of_le (Nat.succ_pos _) hn))
      rw [pack, bits, List.append_assoc, List.take_left' (length_natBits 8 _),
        List.drop_left' (length_natBits 8 _), value_natBits b.toNat_lt, UInt8.ofNat_toNat]
      exact (List.prefix_cons_inj b).mpr (ih (Nat.le_of_succ_le_succ hn))

theorem value_lt (l : List Bool) : value l < 2 ^ l.length := by
  induction l with
  | nil => exact Nat.one_pos
  | cons b l ih =>
      have hb := b.toNat_le
      rw [value, List.length_cons, Nat.pow_succ]
      omega

theorem natBits_value {l : List Bool} (hl : l.length ≤ n) : l <+: natBits n (value l) := by
  induction l generalizing n with
  | nil => exact List.nil_prefix
  | cons b l ih =>
      obtain ⟨m, rfl⟩ :=
        Nat.exists_eq_add_one_of_ne_zero (Nat.ne_of_gt (Nat.lt_of_lt_of_le (Nat.succ_pos _) hl))
      have hdiv : (b.toNat + 2 * value l) / 2 = value l := by
        have hb := b.toNat_lt
        omega
      have hbit : (b.toNat + 2 * value l).testBit 0 = b := by
        rw [Nat.testBit_zero, Nat.add_mul_mod_self_left]
        cases b <;> rfl
      rw [value, natBits_succ, hbit, hdiv]
      exact (List.prefix_cons_inj b).mpr (ih (Nat.le_of_succ_le_succ hl))

/-- What was packed is still there bit by bit. -/
theorem bits_pack {l : List Bool} (hl : l.length ≤ 8 * n) : l <+: bits (pack n l) := by
  induction n generalizing l with
  | zero =>
      rw [List.length_eq_zero_iff.mp (Nat.le_zero.mp hl)]
      exact List.nil_prefix
  | succ n ih =>
      have hlow : (l.take 8).length ≤ 8 := List.length_take_le 8 l
      have hfirst := natBits_value hlow
      have hoctet : (UInt8.ofNat (value (l.take 8))).toNat = value (l.take 8) := by
        have hlt := Nat.lt_of_lt_of_le (value_lt (l.take 8)) (Nat.pow_le_pow_right Nat.two_pos hlow)
        exact UInt8.toNat_ofNat_of_lt' hlt
      rw [pack, bits, hoctet]
      by_cases hlong : 8 ≤ l.length
      · have heq := hfirst.eq_of_length (by rw [List.length_take, length_natBits]; omega)
        rw [← heq]
        have hrest := ih (l := l.drop 8) (by rw [List.length_drop]; omega)
        have hall := (List.prefix_append_right_inj (l.take 8)).mpr hrest
        rwa [List.take_append_drop] at hall
      · rw [List.take_of_length_le (by omega)] at hfirst ⊢
        exact hfirst.trans (List.prefix_append _ _)

end Numbers

/-- A list cut into pieces of given lengths. -/
def pieces {α : Type} : List Nat → List α → List (List α)
  | [], _ => []
  | n :: ns, l => l.take n :: pieces ns (l.drop n)

section Pieces
variable {α : Type}

theorem pieces_flatten (ls : List (List α)) (l : List α) :
    pieces (ls.map List.length) (ls.flatten ++ l) = ls := by
  induction ls with
  | nil => rfl
  | cons a ls ih =>
      rw [List.map_cons, pieces, List.flatten_cons, List.append_assoc, List.take_left,
        List.drop_left, ih]

theorem flatten_pieces {ns : List Nat} {l : List α} (h : l.length = ns.sum) :
    (pieces ns l).flatten = l := by
  induction ns generalizing l with
  | nil => exact (List.length_eq_zero_iff.mp h).symm
  | cons n ns ih =>
      rw [List.sum_cons] at h
      rw [pieces, List.flatten_cons, ih (by rw [List.length_drop]; omega), List.take_append_drop]

variable {ls : List (List α)} {m : Nat}

theorem length_flatten_of (hm : ∀ a ∈ ls, a.length = m) : ls.flatten.length = ls.length * m := by
  induction ls with
  | nil => exact (Nat.zero_mul m).symm
  | cons a ls ih =>
      rw [List.flatten_cons, List.length_append, ih fun a ha => hm a (List.mem_cons_of_mem _ ha),
        hm a List.mem_cons_self, List.length_cons, Nat.succ_mul, Nat.add_comm]

/-- Lists of one length behind one another, read by their places. -/
theorem map_window (hm : ∀ a ∈ ls, a.length = m) (l : List α) :
    ((List.range ls.length).map fun i => ((ls.flatten ++ l).drop (i * m)).take m) = ls := by
  induction ls with
  | nil => rfl
  | cons a ls ih =>
      have ha := hm a List.mem_cons_self
      rw [List.length_cons, List.range_succ_eq_map, List.map_cons, List.map_map, List.flatten_cons,
        List.append_assoc, Nat.zero_mul, List.drop_zero, List.take_left' ha]
      apply congrArg (a :: ·)
      refine Eq.trans ?_ (ih fun a ha => hm a (List.mem_cons_of_mem _ ha))
      apply List.map_congr_left
      intro i _
      rw [Function.comp_apply, Nat.succ_mul, Nat.add_comm (i * m), ← List.drop_drop,
        List.drop_left' ha]

end Pieces

end BitStream
