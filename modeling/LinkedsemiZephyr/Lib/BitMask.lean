import Mathlib.Data.List.Basic

/-! Machine words as sets of bit numbers, with the loops that set and clear a list of bits. -/
namespace BitMask

variable {w : Nat}

/-- `BIT(n)`; a shift past the word gives no bit. -/
def bit (w n : Nat) : BitVec w := BitVec.twoPow w n

def setBits (m : BitVec w) (ns : List Nat) : BitVec w := ns.foldl (fun m n => m ||| bit w n) m

def clearBits (m : BitVec w) (ns : List Nat) : BitVec w := ns.foldl (fun m n => m &&& ~~~bit w n) m

theorem getLsbD_bit (n i : Nat) : (bit w n).getLsbD i = true ↔ n < w ∧ i = n := by
  rw [bit, BitVec.getLsbD_twoPow, Bool.and_eq_true, decide_eq_true_iff, decide_eq_true_iff]
  exact and_congr_right fun _ => eq_comm

/-- The test of one bit. -/
theorem bit_and_ne_zero {m : BitVec w} {n : Nat} : bit w n &&& m ≠ 0#w ↔ m.getLsbD n = true := by
  constructor
  · intro h
    by_contra hn
    refine h (BitVec.eq_of_getLsbD_eq fun i hi => ?_)
    rw [BitVec.getLsbD_and, BitVec.getLsbD_zero]
    by_cases hin : i = n
    · rw [hin, Bool.eq_false_iff.mpr hn, Bool.and_false]
    · have hbit : (bit w n).getLsbD i = false :=
        Bool.eq_false_iff.mpr fun hb => hin ((getLsbD_bit n i).mp hb).2
      rw [hbit, Bool.false_and]
  · intro h hz
    have hn : n < w := BitVec.lt_of_getLsbD h
    have hb : (bit w n &&& m).getLsbD n = true := by
      rw [BitVec.getLsbD_and, h, (getLsbD_bit n n).mpr ⟨hn, rfl⟩]
      rfl
    rw [hz, BitVec.getLsbD_zero] at hb
    cases hb

theorem getLsbD_setBits {m : BitVec w} {ns : List Nat} (hns : ∀ n ∈ ns, n < w) (i : Nat) :
    (setBits m ns).getLsbD i = true ↔ m.getLsbD i = true ∨ i ∈ ns := by
  induction ns generalizing m with
  | nil => simp [setBits]
  | cons n ns ih =>
      have hn := hns n List.mem_cons_self
      have hrest : ∀ k ∈ ns, k < w := fun k hk => hns k (List.mem_cons_of_mem n hk)
      change (setBits (m ||| bit w n) ns).getLsbD i = true ↔ _
      rw [ih hrest, BitVec.getLsbD_or, Bool.or_eq_true, getLsbD_bit, List.mem_cons, or_assoc]
      exact or_congr Iff.rfl (or_congr ⟨fun h => h.2, fun h => ⟨hn, h⟩⟩ Iff.rfl)

theorem getLsbD_clearBits {m : BitVec w} {ns : List Nat} (hns : ∀ n ∈ ns, n < w) (i : Nat) :
    (clearBits m ns).getLsbD i = true ↔ m.getLsbD i = true ∧ i ∉ ns := by
  induction ns generalizing m with
  | nil => simp [clearBits]
  | cons n ns ih =>
      have hn := hns n List.mem_cons_self
      have hrest : ∀ k ∈ ns, k < w := fun k hk => hns k (List.mem_cons_of_mem n hk)
      have hone : (m &&& ~~~bit w n).getLsbD i = true ↔ m.getLsbD i = true ∧ i ≠ n := by
        rw [BitVec.getLsbD_and, Bool.and_eq_true, BitVec.getLsbD_not, Bool.and_eq_true,
          decide_eq_true_iff, Bool.not_eq_true', Bool.eq_false_iff, Ne, getLsbD_bit]
        constructor
        · rintro ⟨hm, -, hb⟩
          exact ⟨hm, fun h => hb ⟨hn, h⟩⟩
        · rintro ⟨hm, hne⟩
          exact ⟨hm, BitVec.lt_of_getLsbD hm, fun h => hne h.2⟩
      change (clearBits (m &&& ~~~bit w n) ns).getLsbD i = true ↔ _
      rw [ih hrest, hone, List.mem_cons, not_or, and_assoc]

/-! Inclusion and disjointness, bit by bit. -/

theorem and_not_eq_zero_iff {a b : BitVec w} :
    a &&& ~~~b = 0 ↔ ∀ i, a.getLsbD i = true → b.getLsbD i = true := by
  constructor
  · intro h i ha
    have hi := BitVec.lt_of_getLsbD ha
    have hbit := congrArg (fun v : BitVec w => v.getLsbD i) h
    simpa [ha, hi] using hbit
  · intro h
    apply BitVec.eq_of_getLsbD_eq
    intro i hi
    cases ha : a.getLsbD i with
    | false => simp [ha]
    | true => simp [ha, h i ha]

theorem and_eq_zero_iff {a b : BitVec w} :
    a &&& b = 0 ↔ ∀ i, a.getLsbD i = true → b.getLsbD i = false := by
  constructor
  · intro h i ha
    have hbit := congrArg (fun v : BitVec w => v.getLsbD i) h
    simpa [ha] using hbit
  · intro h
    apply BitVec.eq_of_getLsbD_eq
    intro i hi
    cases ha : a.getLsbD i with
    | false => simp [ha]
    | true => simp [ha, h i ha]

/-! A mask on a combined word. -/

theorem or_and (a b m : UInt32) : (a ||| b) &&& m = (a &&& m) ||| (b &&& m) := by
  apply UInt32.toNat_inj.mp
  simp only [UInt32.toNat_and, UInt32.toNat_or, Nat.and_or_distrib_right]

theorem xor_and (a b m : UInt32) : (a ^^^ b) &&& m = (a &&& m) ^^^ (b &&& m) := by
  apply UInt32.toNat_inj.mp
  simp only [UInt32.toNat_and, UInt32.toNat_xor, Nat.and_xor_distrib_right]

end BitMask
