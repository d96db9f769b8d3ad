import LinkedsemiZephyr.Jtag.ScanTest
import Mathlib.Algebra.Order.Ring.Nat
import Mathlib.Tactic.IntervalCases
import Mathlib.Tactic.Ring

/-! The instruction that `jtag_test` scans in reaches every device of the chain. -/
namespace LinkedsemiZephyr.Jtag
open BitStream Octets

section Shifts
variable {bs : Bytes} {b c : UInt8} {n L v : Nat}

theorem carry_toNat (b : UInt8) :
    (if b &&& 0x80 ≠ 0 then (1 : UInt8) else 0).toNat = b.toNat / 128 := by
  obtain ⟨⟨⟨b, hb⟩⟩⟩ := b
  revert b
  decide +kernel

theorem shifted_toNat (b : UInt8) (hc : c = 0 ∨ c = 1) :
    ((b <<< 1) ||| c).toNat = (2 * b.toNat + c.toNat) % 256 := by
  obtain ⟨⟨⟨b, hb⟩⟩⟩ := b
  rcases hc with rfl | rfl <;> revert b <;> decide +kernel

@[simp] theorem length_shiftLeftFrom (c : UInt8) (bs : Bytes) :
    (shiftLeftFrom c bs).length = bs.length := by
  induction bs generalizing c with
  | nil => rfl
  | cons b bs ih => rw [shiftLeftFrom, List.length_cons, ih, List.length_cons]

/-- The carry between the bytes is that of doubling the number they stand for. -/
theorem leNat_shiftLeftFrom (hc : c = 0 ∨ c = 1) (bs : Bytes) :
    leNat (shiftLeftFrom c bs) = (2 * leNat bs + c.toNat) % 256 ^ bs.length := by
  induction bs generalizing c with
  | nil =>
      rw [List.length_nil, Nat.pow_zero, Nat.mod_one]
      rfl
  | cons b bs ih =>
      have hnext : (if b &&& 0x80 ≠ 0 then (1 : UInt8) else 0) = 0 ∨
          (if b &&& 0x80 ≠ 0 then (1 : UInt8) else 0) = 1 := by
        split_ifs
        · exact Or.inr rfl
        · exact Or.inl rfl
      have hsmall : c.toNat ≤ 1 := by
        rcases hc with rfl | rfl <;> decide
      have hb := b.toNat_lt
      rw [shiftLeftFrom, leNat, ih hnext, shifted_toNat b hc, carry_toNat, leNat,
        List.length_cons, Nat.pow_succ, Nat.mul_comm (256 ^ bs.length), Nat.mod_mul]
      have hlow : (2 * (b.toNat + 256 * leNat bs) + c.toNat) % 256 =
        (2 * b.toNat + c.toNat) % 256 := by omega
      have hhigh : (2 * (b.toNat + 256 * leNat bs) + c.toNat) / 256 =
        2 * leNat bs + b.toNat / 128 := by omega
      rw [hlow, hhigh]

theorem shiftLeft_iterate (n : Nat) (bs : Bytes) : (shiftLeft^[n] bs).length = bs.length ∧
    leNat (shiftLeft^[n] bs) = 2 ^ n * leNat bs % 256 ^ bs.length := by
  induction n generalizing bs with
  | zero =>
      refine ⟨rfl, ?_⟩
      rw [Nat.pow_zero, Nat.one_mul, Nat.mod_eq_of_lt (leNat_lt bs)]
      rfl
  | succ n ih =>
      have hlen : (shiftLeft bs).length = bs.length := length_shiftLeftFrom 0 bs
      have hval : leNat (shiftLeft bs) = 2 * leNat bs % 256 ^ bs.length :=
        leNat_shiftLeftFrom (Or.inl rfl) bs
      rw [Function.iterate_succ_apply]
      refine ⟨(ih _).1.trans hlen, ?_⟩
      rw [(ih _).2, hlen, hval, Nat.mul_mod_mod, ← Nat.mul_assoc, Nat.pow_succ]

theorem leNat_set (hne : bs ≠ []) (v : UInt8) :
    leNat (bs.set 0 v) = leNat bs - leNat bs % 256 + v.toNat := by
  cases bs with
  | nil => exact absurd rfl hne
  | cons b bs =>
      have hb := b.toNat_lt
      rw [List.set_cons_zero, leNat, leNat]
      omega

end Shifts

/-- `k` fields of `L` bits with the same value. -/
def repeated (L v : Nat) : Nat → Nat
  | 0 => 0
  | k + 1 => v + 2 ^ L * repeated L v k

section Fields
variable {L v k n : Nat}

theorem repeated_lt (hv : v < 2 ^ L) (k : Nat) : repeated L v k < 2 ^ (k * L) := by
  induction k with
  | zero => rw [Nat.zero_mul]; exact Nat.one_pos
  | succ k ih =>
      have hmul := Nat.mul_le_mul_left (2 ^ L) (Nat.succ_le_of_lt ih)
      rw [repeated, Nat.succ_mul, Nat.add_comm (k * L), Nat.pow_add]
      rw [Nat.mul_succ] at hmul
      omega

theorem dvd_repeated (k : Nat) : v ∣ repeated L v k := by
  induction k with
  | zero => exact Nat.dvd_zero v
  | succ k ih => exact Nat.dvd_add (Nat.dvd_refl v) (Nat.dvd_mul_left_of_dvd ih _)

theorem natBits_repeated (hv : v < 2 ^ L) (k : Nat) :
    natBits (k * L) (repeated L v k) = (List.replicate k (natBits L v)).flatten := by
  induction k with
  | zero => rw [Nat.zero_mul]; rfl
  | succ k ih =>
      rw [Nat.succ_mul, Nat.add_comm (k * L), repeated, natBits_add hv, ih, List.replicate_succ,
        List.flatten_cons]

/-- The bytes after `k` devices. -/
def commandRound (L v : Nat) (c : Bytes) : Bytes := (shiftLeft^[L] c).set 0 (UInt8.ofNat v)

theorem length_commandRound (L v : Nat) (c : Bytes) : (commandRound L v c).length = c.length := by
  rw [commandRound, List.length_set, (shiftLeft_iterate L c).1]

theorem leNat_commandRound {c : Bytes} (hc : c ≠ []) (hv : v < 256) :
    leNat (commandRound L v c) = 2 ^ L * leNat c % 256 ^ c.length - 2 ^ L * leNat c % 256 ^
      c.length % 256 + v := by
  have hlen := (shiftLeft_iterate L c).1
  have hne : shiftLeft^[L] c ≠
    [] := fun h => hc (List.length_eq_zero_iff.mp (hlen.symm.trans (congrArg List.length h)))
  rw [commandRound, leNat_set hne, (shiftLeft_iterate L c).2, UInt8.toNat_ofNat_of_lt' hv]

theorem length_rounds (L v : Nat) (c : Bytes) (k : Nat) :
    ((commandRound L v)^[k] c).length = c.length := by
  induction k with
  | zero => rfl
  | succ k ih => rw [Function.iterate_succ_apply', length_commandRound, ih]

theorem length_rounds_zeros (L v s k : Nat) :
    ((commandRound L v)^[k] (List.replicate s 0)).length = s :=
  (length_rounds L v _ k).trans List.length_replicate

theorem rounds_ne_nil {s : Nat} (hs : 0 < s) (L v k : Nat) :
    (commandRound L v)^[k] (List.replicate s 0) ≠ [] := by
  apply List.ne_nil_of_length_pos
  rw [length_rounds_zeros]
  exact hs

/-- The value does not disturb the fields it is put below. -/
theorem leNat_rounds {s : Nat} (hv : v < 256) (hfit : v < 2 ^ L) (hL : 0 < L)
    (hcond : n ≤ 1 ∨ 256 ∣ v * 2 ^ L) (hs : n * L ≤ 8 * s) (hk : k ≤ n) :
    leNat ((commandRound L v)^[k] (List.replicate s 0)) = repeated L v k := by
  induction k with
  | zero => exact leNat_zeros s
  | succ k ih =>
      have hpos : 0 < s := by
        have hone := Nat.mul_le_mul hk hL
        omega
      have hbound : 2 ^ L * repeated L v k < 256 ^ s := by
        have hlt := repeated_lt hfit (k + 1)
        have hpow : 2 ^ ((k + 1) * L) ≤ (2 ^ 8) ^ s := by
          rw [← Nat.pow_mul]
          exact Nat.pow_le_pow_right Nat.two_pos ((Nat.mul_le_mul_right L hk).trans hs)
        rw [repeated] at hlt
        exact Nat.lt_of_le_of_lt (Nat.le_add_left _ v) (Nat.lt_of_lt_of_le hlt hpow)
      have hclear : 2 ^ L * repeated L v k % 256 = 0 := by
        cases k with
        | zero => rw [repeated, Nat.mul_zero]
        | succ k =>
            have hdvd := hcond.resolve_left (by omega)
            exact Nat.mod_eq_zero_of_dvd
              (Nat.mul_comm v _ ▸ hdvd |>.trans (Nat.mul_dvd_mul_left _ (dvd_repeated _)))
      rw [Function.iterate_succ_apply', leNat_commandRound (rounds_ne_nil hpos L v k) hv,
        length_rounds_zeros, ih (Nat.le_of_succ_le hk), Nat.mod_eq_of_lt hbound, hclear,
        Nat.sub_zero, repeated, Nat.add_comm]

/-- Where the value was put last, it stands; what it was put over is gone. -/
theorem leNat_rounds_mod {s : Nat} (hs : 0 < s) (hv : v < 256) (hk : 0 < k) :
    leNat ((commandRound L v)^[k] (List.replicate s 0)) % 256 = v := by
  obtain ⟨k, rfl⟩ := Nat.exists_eq_add_one_of_ne_zero (Nat.ne_of_gt hk)
  rw [Function.iterate_succ_apply', leNat_commandRound (rounds_ne_nil hs L v k) hv]
  omega

/-- Two fields agree with a value put over the low byte only where it leaves the second alone. -/
theorem dvd_of_fields {x r : Nat} (hL : 0 < L) (hv : v < 256) (hfit : v < 2 ^ L)
    (hlow : x % 256 = v) (hfields : x % 2 ^ (2 * L) = (v + 2 ^ L * (v + 2 ^ L * r)) % 2 ^ (2 * L)) :
    256 ∣ v * 2 ^ L := by
  by_cases hbyte : 8 ≤ L
  · exact Nat.dvd_mul_left_of_dvd (Nat.pow_dvd_pow 2 hbyte) v
  · interval_cases L <;> omega

end Fields

variable {chain : Chain} {L v : Nat}

theorem map_irLength (hlen : ∀ d ∈ chain, d.irLength = L) :
    chain.map Device.irLength = List.replicate chain.length L :=
  List.eq_replicate_iff.mpr ⟨List.length_map _, fun _ h => by
    obtain ⟨d, hd, rfl⟩ := List.mem_map.mp h
    exact hlen d hd⟩

/-- The bits scanned in, as those of one number. -/
theorem scanned_eq (n L v : Nat) :
    (bits (irCommand n L v)).take (L * n) =
      natBits (n * L) (leNat ((commandRound L v)^[n] (List.replicate ((n * L + 7) / 8) 0))) := by
  have hlen : (irCommand n L v).length = (n * L + 7) / 8 := length_rounds_zeros L v _ n
  rw [bits_eq, hlen, Nat.mul_comm L n, take_natBits (by omega)]
  rfl

theorem latched_repeated (hlen : ∀ d ∈ chain, d.irLength = L) (hL : 0 < L) (hv : v < 256)
    (hfit : v < 2 ^ L) (hcond : chain.length ≤ 1 ∨ 256 ∣ v * 2 ^ L) :
    chain.latched ((bits (irCommand chain.length L v)).take (L * chain.length)) =
      List.replicate chain.length (natBits L v) := by
  rw [scanned_eq, leNat_rounds hv hfit hL hcond (by omega) (Nat.le_refl _),
    natBits_repeated hfit chain.length]
  have hpieces := pieces_flatten (List.replicate chain.length (natBits L v)) []
  rw [List.map_replicate, length_natBits, List.append_nil, ← map_irLength hlen] at hpieces
  exact hpieces

/-- Every device latches the value just when there is one device, or when putting the value into
the lowest byte leaves the fields above it alone. -/
theorem instruction_reaches_iff (chain : Chain) (L v : Nat) (hlen : ∀ d ∈ chain, d.irLength = L)
    (hL : 0 < L) (hv : v < 256) (hfit : v < 2 ^ L) :
    chain.latched ((bits (irCommand chain.length L v)).take (L * chain.length)) =
        List.replicate chain.length (natBits L v) ↔
      chain.length ≤ 1 ∨ 256 ∣ v * 2 ^ L := by
  refine ⟨fun h => ?_, latched_repeated hlen hL hv hfit⟩
  by_contra hcond
  rw [not_or, Nat.not_le] at hcond
  obtain ⟨r, hr⟩ := Nat.exists_eq_add_of_le' hcond.1
  have hcut (x : Nat) : (chain.latched (natBits (chain.length * L) x)).flatten =
      natBits (chain.length * L) x := by
    apply flatten_pieces
    rw [map_irLength hlen, length_natBits]
    exact (List.sum_replicate chain.length L).symm
  rw [scanned_eq] at h
  -- The first two fields tell what the value put into the lowest byte has done to the second.
  have heq := congrArg (List.take (2 * L) ∘ List.flatten) h
  rw [Function.comp_apply, Function.comp_apply, hcut, ← natBits_repeated hfit chain.length,
    take_natBits (Nat.mul_le_mul_right L hcond.1),
    take_natBits (Nat.mul_le_mul_right L hcond.1)] at heq
  have htwo : repeated L v chain.length = v + 2 ^ L * (v + 2 ^ L * repeated L v r) := by
    rw [hr]
    rfl
  have hmod := mod_eq_of_natBits heq
  rw [htwo, show Nat.succ 1 = 2 from rfl] at hmod
  refine hcond.2 (dvd_of_fields hL hv hfit (leNat_rounds_mod ?_ hv ?_) hmod)
  · have hone := Nat.mul_le_mul hcond.1 hL
    omega
  · omega

theorem instruction_reaches_iff_twoDevices :
    twoDevices.latched ((bits (irCommand 2 8 2)).take 16) = List.replicate 2 (natBits 8 2) ↔
      2 ≤ 1 ∨ 256 ∣ 2 * 2 ^ 8 :=
  instruction_reaches_iff twoDevices 8 2
    (List.forall_mem_cons.mpr ⟨rfl, List.forall_mem_cons.mpr ⟨rfl, nofun⟩⟩)
    (by decide) (by decide) (by decide)

end LinkedsemiZephyr.Jtag
