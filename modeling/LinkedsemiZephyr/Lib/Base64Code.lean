import Mathlib.Algebra.Group.Nat.Defs
import Mathlib.Data.List.Basic

/-! The base64 code over any alphabet: three bytes as four groups of six bits, what is left
at the end filled up with zero bits and padding. -/
namespace Base64Code

variable {α : Type}

/-- The low six bits. -/
def low (n : Nat) : Fin 64 := ⟨n % 64, Nat.mod_lt n (by decide)⟩

def first (a : UInt8) : Fin 64 := low (a.toNat / 4)

def second (a b : UInt8) : Fin 64 := low (a.toNat % 4 * 16 + b.toNat / 16)

def third (b c : UInt8) : Fin 64 := low (b.toNat % 16 * 4 + c.toNat / 64)

def fourth (c : UInt8) : Fin 64 := low (c.toNat % 64)

def encode (alphabet : Fin 64 → α) (pad : α) : List UInt8 → List α
  | [] => []
  | [a] => [alphabet (first a), alphabet (second a 0), pad, pad]
  | [a, b] => [alphabet (first a), alphabet (second a b), alphabet (third b 0), pad]
  | a :: b :: c :: s =>
    alphabet (first a) :: alphabet (second a b) :: alphabet (third b c) :: alphabet (fourth c) ::
      encode alphabet pad s

/-- The eight bits that end `k` bits from the end of an accumulator, whatever was in it
before the last two groups. -/
def window (acc : Nat) (x y : Fin 64) (k : Nat) : Nat :=
  (acc * 64 * 64 + x.val * 64 + y.val) / 2 ^ k % 256

theorem window_first (acc : Nat) (a b : UInt8) : window acc (first a) (second a b) 4 = a.toNat := by
  have ha := a.toNat_lt
  have hb := b.toNat_lt
  simp only [window, first, second, low]
  omega

theorem window_second (acc : Nat) (a b c : UInt8) :
    window acc (second a b) (third b c) 2 = b.toNat := by
  have ha := a.toNat_lt
  have hb := b.toNat_lt
  have hc := c.toNat_lt
  simp only [window, second, third, low]
  omega

theorem window_third (acc : Nat) (b c : UInt8) : window acc (third b c) (fourth c) 0 = c.toNat := by
  have hb := b.toNat_lt
  have hc := c.toNat_lt
  simp only [window, third, fourth, low]
  omega

end Base64Code
