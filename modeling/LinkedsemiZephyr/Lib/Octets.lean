import Mathlib.Algebra.Group.Nat.Defs
import Mathlib.Data.List.Basic

/-! Octet strings with half-open slices and little-endian naturals. A slice past
the end is cut short; an encoding keeps the low octets of its argument, so every
injectivity statement carries the range in which nothing is lost. -/
namespace Octets

abbrev Bytes := List UInt8

/-- An octet string whose length is part of its type. -/
abbrev Sized (n : Nat) := { b : Bytes // b.length = n }

def slice {α : Type} (b : List α) (i j : Nat) : List α := (b.drop i).take (j - i)

@[simp] theorem length_slice {α : Type} (b : List α) (i j : Nat) :
    (slice b i j).length = min (j - i) (b.length - i) := by
  simp only [slice, List.length_take, List.length_drop]

theorem slice_prefix {α : Type} {a : List α} (c : List α) {j : Nat} (h : a.length = j) :
    slice (a ++ c) 0 j = a := by
  simp only [slice, List.drop_zero, Nat.sub_zero, List.take_left' h]

theorem slice_middle {α : Type} {a b : List α} (c : List α) {i j : Nat} (hi : a.length = i)
    (hj : i + b.length = j) : slice (a ++ (b ++ c)) i j = b := by
  rw [slice, List.drop_left' hi, List.take_left' (by omega)]

theorem slice_suffix {α : Type} {a b : List α} {i j : Nat} (hi : a.length = i)
    (hj : i + b.length ≤ j) : slice (a ++ b) i j = b := by
  rw [slice, List.drop_left' hi, List.take_of_length_le (by omega)]

theorem take_append_slice {α : Type} (b : List α) {i j : Nat} (h : i ≤ j) :
    b.take i ++ slice b i j = b.take j := by
  obtain ⟨n, rfl⟩ := Nat.exists_eq_add_of_le h
  rw [slice, Nat.add_sub_cancel_left, List.take_add]

/-- The low `n` octets of a natural, least significant first. -/
def leBytes : Nat → Nat → Bytes
  | 0, _ => []
  | n + 1, v => UInt8.ofNat v :: leBytes n (v / 256)

def leNat : Bytes → Nat
  | [] => 0
  | b :: bs => b.toNat + 256 * leNat bs

@[simp] theorem length_leBytes (n v : Nat) : (leBytes n v).length = n := by
  induction n generalizing v with
  | zero => rfl
  | succ n ih => simp only [leBytes, List.length_cons, ih]

theorem leNat_leBytes {n v : Nat} (h : v < 256 ^ n) : leNat (leBytes n v) = v := by
  induction n generalizing v with
  | zero =>
      have hv : v = 0 := by simpa using h
      rw [hv]; rfl
  | succ n ih =>
      have hq : v / 256 < 256 ^ n := by
        rw [Nat.pow_succ] at h
        exact Nat.div_lt_of_lt_mul (by rwa [Nat.mul_comm] at h)
      simp only [leBytes, leNat, ih hq, UInt8.toNat_ofNat']
      omega

theorem leNat_lt (bs : Bytes) : leNat bs < 256 ^ bs.length := by
  induction bs with
  | nil => exact Nat.one_pos
  | cons b bs ih =>
      have hb := b.toNat_lt
      rw [leNat, List.length_cons, Nat.pow_succ]
      omega

theorem leNat_zeros (n : Nat) : leNat (List.replicate n 0) = 0 := by
  induction n with
  | zero => rfl
  | succ n ih =>
      rw [List.replicate_succ, leNat, ih]
      rfl

theorem leBytes_injective {n v w : Nat} (hv : v < 256 ^ n) (hw : w < 256 ^ n)
    (h : leBytes n v = leBytes n w) : v = w := by
  rw [← leNat_leBytes hv, h, leNat_leBytes hw]

/-- Exclusive-or of a mask into the front of a string, the tail untouched. -/
def xorFront (b mask : Bytes) : Bytes :=
  List.zipWith (fun x y => x ^^^ y) b mask ++ b.drop mask.length

theorem octet_xor_cancel {x y z : UInt8} (h : x ^^^ y = x ^^^ z) : y = z := by
  have hb := congrArg UInt8.toBitVec h
  simp only [UInt8.toBitVec_xor] at hb
  exact UInt8.toBitVec_inj.mp ((BitVec.xor_right_inj _).mp hb)

theorem zipWith_xor_injective {b m k : Bytes} (hm : m.length ≤ b.length) (hl : m.length = k.length)
    (h : List.zipWith (fun x y => x ^^^ y) b m = List.zipWith (fun x y => x ^^^ y) b k) :
    m = k := by
  induction m generalizing b k with
  | nil => exact (List.length_eq_zero_iff.mp hl.symm).symm
  | cons y m ih =>
      cases b with
      | nil => simp at hm
      | cons x b =>
          cases k with
          | nil => simp at hl
          | cons z k =>
              simp only [List.zipWith_cons_cons, List.cons.injEq] at h
              simp only [List.length_cons, Nat.add_le_add_iff_right,
                Nat.add_right_cancel_iff] at hm hl
              rw [octet_xor_cancel h.1, ih hm hl h.2]

theorem xorFront_injective {b m k : Bytes} (hm : m.length ≤ b.length) (hl : m.length = k.length)
    (h : xorFront b m = xorFront b k) : m = k := by
  refine zipWith_xor_injective hm hl (List.append_inj_left h ?_)
  simp only [List.length_zipWith, hl]

/-- A self-delimiting code: the end of a coded string can be seen in what follows it. -/
def delimit : Bytes → Bytes
  | [] => [0]
  | x :: b => 1 :: x :: delimit b

theorem delimit_append_injective {a b c d : Bytes} (h : delimit a ++ c = delimit b ++ d) :
    a = b ∧ c = d := by
  induction a generalizing b with
  | nil =>
      cases b with
      | nil => exact ⟨rfl, by simpa [delimit] using h⟩
      | cons y b => simp [delimit] at h
  | cons x a ih =>
      cases b with
      | nil => simp [delimit] at h
      | cons y b =>
          simp only [delimit, List.cons_append, List.cons.injEq, true_and] at h
          obtain ⟨rfl, hcd⟩ := ih h.2
          exact ⟨by rw [h.1], hcd⟩

end Octets
