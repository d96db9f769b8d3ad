import LinkedsemiZephyr.Lib.Base64Code
import LinkedsemiZephyr.Lib.CString

/-! `base64_decode` of the sample's HTTPS server. -/
namespace LinkedsemiZephyr.Http
open Base64Code CString

def b64 : List UInt8 := literal "ABCDEFGHIJKLMNOPQRSTUVWXYZabcdefghijklmnopqrstuvwxyz0123456789+/"

def padding : UInt8 := 61

/-- `strchr(b64, c) - b64` as an `unsigned char`; outside the alphabet it is what a null
pointer less the address of the table leaves. -/
def b64Index (junk c : UInt8) : UInt8 :=
  match b64.idxOf? c with
  | some i => UInt8.ofNat i
  | none => junk

/-- The loop of `base64_decode` over what `in` points to, with what it writes to `out`. -/
def base64DecodeFrom (junk : UInt8) : UInt32 → Int → List UInt8 → Option (List UInt8)
  | _, _, [] => none
  | val, valb, c :: cs =>
    if c = 0 ∨ c = padding then some []
    else
      let val := val <<< 6 + (b64Index junk c).toUInt32
      let valb := valb + 6
      if 0 ≤ valb then
        -- `valb` is five at most, so that the sign bits an arithmetic shift brings are masked
        (base64DecodeFrom junk val (valb - 8) cs).map
          ((val >>> UInt32.ofNat valb.toNat).toUInt8 :: ·)
      else base64DecodeFrom junk val valb cs

def base64Decode (junk : UInt8) (input : List UInt8) : Option (List UInt8) :=
  base64DecodeFrom junk 0 (-8) input

def decoded (junk : UInt8) (w : List UInt8) : List UInt8 := (base64Decode junk (w ++ [0])).getD []

section Decode
variable {junk : UInt8} {val : UInt32} {valb : Int} {w : List UInt8}

theorem base64DecodeFrom_cons {c : UInt8} {cs : List UInt8} (hend : ¬ (c = 0 ∨ c = padding)) :
    base64DecodeFrom junk val valb (c :: cs) =
      if 0 ≤ valb + 6 then
        (base64DecodeFrom junk (val <<< 6 + (b64Index junk c).toUInt32) (valb + 6 - 8) cs).map
          (((val <<< 6 + (b64Index junk c).toUInt32) >>> UInt32.ofNat (valb + 6).toNat).toUInt8 ::
            ·)
      else base64DecodeFrom junk (val <<< 6 + (b64Index junk c).toUInt32) (valb + 6) cs := by
  rw [base64DecodeFrom, if_neg hend]

/-- Nothing behind the NUL is read, and each byte read writes one at most. -/
theorem base64DecodeFrom_string (junk : UInt8) (val : UInt32) (valb : Int) (w : List UInt8) :
    ∃ out, (∀ l, base64DecodeFrom junk val valb (w ++ 0 :: l) = some out) ∧
      out.length ≤ w.length := by
  induction w generalizing val valb with
  | nil => exact ⟨[], fun l => if_pos (.inl rfl), Nat.le_refl 0⟩
  | cons c cs ih =>
      by_cases hend : c = 0 ∨ c = padding
      · exact ⟨[], fun l => if_pos hend, Nat.zero_le _⟩
      · by_cases hbyte : 0 ≤ valb + 6
        · obtain ⟨out, hout, hlen⟩ := ih (val <<< 6 + (b64Index junk c).toUInt32) (valb + 6 - 8)
          refine ⟨((val <<< 6 + (b64Index junk c).toUInt32) >>>
            UInt32.ofNat (valb + 6).toNat).toUInt8 :: out, fun l => ?_, Nat.succ_le_succ hlen⟩
          rw [List.cons_append, base64DecodeFrom_cons hend, if_pos hbyte, hout l, Option.map_some]
        · obtain ⟨out, hout, hlen⟩ := ih (val <<< 6 + (b64Index junk c).toUInt32) (valb + 6)
          refine ⟨out, fun l => ?_, Nat.le_succ_of_le hlen⟩
          rw [List.cons_append, base64DecodeFrom_cons hend, if_neg hbyte, hout l]

theorem base64Decode_string (junk : UInt8) (w l : List UInt8) :
    base64Decode junk (w ++ 0 :: l) = some (decoded junk w) := by
  obtain ⟨out, hout, -⟩ := base64DecodeFrom_string junk 0 (-8) w
  rw [decoded, base64Decode, base64Decode, hout l, hout [], Option.getD_some]

theorem length_decoded_le (junk : UInt8) (w : List UInt8) : (decoded junk w).length ≤ w.length := by
  obtain ⟨out, hout, hlen⟩ := base64DecodeFrom_string junk 0 (-8) w
  rw [decoded, base64Decode, hout [], Option.getD_some]
  exact hlen

/-- Without a byte that ends it the loop runs past the object. -/
theorem base64DecodeFrom_overrun (hw : ∀ c ∈ w, ¬ (c = 0 ∨ c = padding)) :
    base64DecodeFrom junk val valb w = none := by
  induction w generalizing val valb with
  | nil => rfl
  | cons c cs ih =>
      have hrest : ∀ c ∈ cs, ¬ (c = 0 ∨ c = padding) := fun x hx => hw x (List.mem_cons_of_mem c hx)
      rw [base64DecodeFrom_cons (hw c List.mem_cons_self), ih hrest, ih hrest,
        Option.map_none, ite_self]

end Decode

/-- The standard encoding, padded. -/
def b64Char (i : Fin 64) : UInt8 := b64.getD i 0

def base64Encode (s : List UInt8) : List UInt8 := encode b64Char padding s

def push (val : UInt32) (i : Fin 64) : UInt32 := val <<< 6 + (UInt8.ofNat i).toUInt32

section Inverse
variable {junk : UInt8} {val : UInt32} {valb : Int} {cs : List UInt8}

theorem idxOf_b64Char (i : Fin 64) : b64.idxOf? (b64Char i) = some i.val := by
  revert i
  decide +kernel

theorem b64Char_not_end (i : Fin 64) : ¬ (b64Char i = 0 ∨ b64Char i = padding) := by
  revert i
  decide +kernel

theorem b64Index_b64Char (i : Fin 64) : b64Index junk (b64Char i) = UInt8.ofNat i := by
  rw [b64Index, idxOf_b64Char]

theorem push_toNat (val : UInt32) (i : Fin 64) :
    (push val i).toNat = (val.toNat * 64 + i.val) % 2 ^ 32 := by
  have hi : i.val % 256 = i.val := Nat.mod_eq_of_lt (Nat.lt_trans i.isLt (by decide))
  simp only [push, UInt32.toNat_add, UInt32.toNat_shiftLeft, UInt8.toNat_toUInt32,
    UInt8.toNat_ofNat', Nat.shiftLeft_eq, hi]
  change (val.toNat * 64 % 2 ^ 32 + i.val) % 2 ^ 32 = _
  omega

/-- Bits this low are not reached by the wrapping of the word. -/
theorem wrap_window (n : Nat) {k : Nat} (hk : k ≤ 24) :
    n % 2 ^ 32 / 2 ^ k % 256 = n / 2 ^ k % 256 := by
  have hdvd : 2 ^ k * 256 ∣ 2 ^ 32 := by
    rw [show 256 = 2 ^ 8 by rfl, ← Nat.pow_add]
    exact Nat.pow_dvd_pow 2 (by omega)
  rw [← Nat.mod_mul_right_div_self, ← Nat.mod_mul_right_div_self, Nat.mod_mod_of_dvd n hdvd]

/-- The accumulator is never masked, but what is written of it are bits of the last two
characters. -/
theorem written_window (val : UInt32) (x y : Fin 64) {k : Nat} (hk : k ≤ 24) :
    ((push (push val x) y >>> UInt32.ofNat k).toUInt8).toNat = window val.toNat x y k := by
  have hwrap : (push (push val x) y).toNat =
      (val.toNat * 64 * 64 + x.val * 64 + y.val) % 2 ^ 32 := by
    rw [push_toNat, push_toNat]
    omega
  have hshift : (UInt32.ofNat k).toNat % 32 = k := by
    rw [UInt32.toNat_ofNat_of_lt' (Nat.lt_of_le_of_lt hk (by decide)), Nat.mod_eq_of_lt (by omega)]
  rw [UInt32.toNat_toUInt8, UInt32.toNat_shiftRight, hshift, hwrap, Nat.shiftRight_eq_div_pow]
  exact wrap_window _ hk

theorem written_eq {val : UInt32} {x y : Fin 64} {k : Nat} {b : UInt8} (hk : k ≤ 24)
    (h : window val.toNat x y k = b.toNat) :
    (push (push val x) y >>> UInt32.ofNat k).toUInt8 = b := by
  apply UInt8.toNat_inj.mp
  rw [written_window val x y hk, h]

theorem base64DecodeFrom_silent (i : Fin 64) (h : valb + 6 < 0) :
    base64DecodeFrom junk val valb (b64Char i :: cs) =
      base64DecodeFrom junk (push val i) (valb + 6) cs := by
  rw [base64DecodeFrom_cons (b64Char_not_end i), if_neg (Int.not_le.mpr h), b64Index_b64Char]
  rfl

theorem base64DecodeFrom_write (i : Fin 64) (h : 0 ≤ valb + 6) :
    base64DecodeFrom junk val valb (b64Char i :: cs) =
      (base64DecodeFrom junk (push val i) (valb + 6 - 8) cs).map
        ((push val i >>> UInt32.ofNat (valb + 6).toNat).toUInt8 :: ·) := by
  rw [base64DecodeFrom_cons (b64Char_not_end i), if_pos h, b64Index_b64Char]
  rfl

/-- Two characters and an end give a byte. -/
theorem base64DecodeFrom_pair (val : UInt32) (a b : UInt8) (cs : List UInt8) :
    base64DecodeFrom junk val (-8) (b64Char (first a) :: b64Char (second a b) :: cs) =
      (base64DecodeFrom junk (push (push val (first a)) (second a b)) (-4) cs).map (a :: ·) := by
  rw [base64DecodeFrom_silent _ (by decide), base64DecodeFrom_write _ (by decide)]
  have hbyte : (push (push val (first a)) (second a b) >>> UInt32.ofNat 4).toUInt8 = a :=
    written_eq (by decide) (window_first _ a b)
  change (base64DecodeFrom junk _ (-4) cs).map
    ((push (push val (first a)) (second a b) >>> UInt32.ofNat 4).toUInt8 :: ·) = _
  rw [hbyte]

theorem base64DecodeFrom_third (val : UInt32) (a b c : UInt8) (cs : List UInt8) :
    base64DecodeFrom junk (push val (second a b)) (-4) (b64Char (third b c) :: cs) =
      (base64DecodeFrom junk (push (push val (second a b)) (third b c)) (-6) cs).map (b :: ·) := by
  rw [base64DecodeFrom_write _ (by decide)]
  have hbyte : (push (push val (second a b)) (third b c) >>> UInt32.ofNat 2).toUInt8 = b :=
    written_eq (by decide) (window_second _ a b c)
  change (base64DecodeFrom junk _ (-6) cs).map
    ((push (push val (second a b)) (third b c) >>> UInt32.ofNat 2).toUInt8 :: ·) = _
  rw [hbyte]

theorem base64DecodeFrom_fourth (val : UInt32) (b c : UInt8) (cs : List UInt8) :
    base64DecodeFrom junk (push val (third b c)) (-6) (b64Char (fourth c) :: cs) =
      (base64DecodeFrom junk (push (push val (third b c)) (fourth c)) (-8) cs).map (c :: ·) := by
  rw [base64DecodeFrom_write _ (by decide)]
  have hbyte : (push (push val (third b c)) (fourth c) >>> UInt32.ofNat 0).toUInt8 = c :=
    written_eq (by decide) (window_third _ b c)
  change (base64DecodeFrom junk _ (-8) cs).map
    ((push (push val (third b c)) (fourth c) >>> UInt32.ofNat 0).toUInt8 :: ·) = _
  rw [hbyte]

theorem base64DecodeFrom_padding (val : UInt32) (valb : Int) (cs : List UInt8) :
    base64DecodeFrom junk val valb (padding :: cs) = some [] := if_pos (.inr rfl)

/-- Whatever the accumulator holds at the start of a group, the bytes come out. -/
theorem base64DecodeFrom_encode (s cs : List UInt8) :
    base64DecodeFrom junk val (-8) (base64Encode s ++ 0 :: cs) = some s := by
  fun_induction encode b64Char padding s generalizing val with
  | case1 => exact if_pos (.inl rfl)
  | case2 a =>
      change base64DecodeFrom junk val (-8)
        (b64Char (first a) :: b64Char (second a 0) :: padding :: _) = _
      rw [base64DecodeFrom_pair, base64DecodeFrom_padding]
      rfl
  | case3 a b =>
      change base64DecodeFrom junk val (-8)
        (b64Char (first a) :: b64Char (second a b) :: b64Char (third b 0) :: padding :: _) = _
      rw [base64DecodeFrom_pair, base64DecodeFrom_third, base64DecodeFrom_padding]
      rfl
  | case4 a b c s ih =>
      change base64DecodeFrom junk val (-8)
        (b64Char (first a) :: b64Char (second a b) :: b64Char (third b c) ::
        b64Char (fourth c) :: (base64Encode s ++ 0 :: cs)) = _
      rw [base64DecodeFrom_pair, base64DecodeFrom_third, base64DecodeFrom_fourth, ih]
      rfl

/-- `valb + 8` counts the bits that are pending, below eight between two characters. -/
theorem length_base64DecodeFrom_le {w out : List UInt8} (hlow : -8 ≤ valb) (hhigh : valb < 0)
    (h : base64DecodeFrom junk val valb (w ++ 0 :: cs) = some out) :
    8 * out.length ≤ (valb + 8).toNat + 6 * w.length := by
  induction w generalizing val valb out with
  | nil =>
      cases (show some [] = some out from h)
      exact Nat.zero_le _
  | cons c w ih =>
      by_cases hend : c = 0 ∨ c = padding
      · have hempty : base64DecodeFrom junk val valb (c :: (w ++ 0 :: cs)) = some [] := if_pos hend
        cases hempty.symm.trans h
        exact Nat.zero_le _
      · rw [List.cons_append, base64DecodeFrom_cons hend] at h
        rw [List.length_cons]
        split at h
        · rename_i hbyte
          obtain ⟨rest, hrest, rfl⟩ := Option.map_eq_some_iff.mp h
          have hle := ih (by omega) (by omega) hrest
          rw [List.length_cons]
          omega
        · rename_i hsilent
          have hle := ih (by omega) (by omega) h
          omega

/-- `base64_decode` inverts the encoding, whatever lies behind the NUL, and of any string it
writes three bytes for four characters at most. -/
theorem base64Decode_inverts :
    (∀ (junk : UInt8) (s cs : List UInt8), base64Decode junk (base64Encode s ++ 0 :: cs) = some s) ∧
      ∀ (junk : UInt8) (w cs : List UInt8), ∃ out, base64Decode junk (w ++ 0 :: cs) = some out ∧
        out.length ≤ 3 * w.length / 4 := by
  constructor
  · intro junk s cs
    exact base64DecodeFrom_encode s cs
  · intro junk w cs
    have hout := base64Decode_string junk w cs
    refine ⟨decoded junk w, hout, ?_⟩
    have hle := length_base64DecodeFrom_le (by decide) (by decide) hout
    change 8 * (decoded junk w).length ≤ 0 + 6 * w.length at hle
    omega

end Inverse

example : decoded 0 (literal "cm9vdDp6ZXBoeXIwcGVuQm1j") = literal "root:zephyr0penBmc" := by
  decide +kernel

end LinkedsemiZephyr.Http
