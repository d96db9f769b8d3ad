import Mathlib.Data.List.Basic
import Mathlib.Data.List.Lex

/-! The string functions of C on an object of bytes: what a pointer sees of it, up to its
end. A function that does not stop before the end has run past the object. -/
namespace CString

/-- The bytes of a string literal, without the NUL. -/
def literal (s : String) : List UInt8 := s.toList.map fun c => UInt8.ofNat c.toNat

/-- `obj` after `s` was written to its start. -/
def overwrite (s obj : List UInt8) : List UInt8 := s ++ obj.drop s.length

theorem length_overwrite {s obj : List UInt8} (h : s.length ≤ obj.length) :
    (overwrite s obj).length = obj.length := by
  rw [overwrite, List.length_append, List.length_drop]
  omega

theorem prefix_append_cases {α : Type} {n s l : List α} (h : n <+: s ++ l) :
    n <+: s ∨ ∃ x xs, n = s ++ x :: xs ∧ x ∈ l := by
  obtain ⟨t, ht⟩ := h
  rcases List.append_eq_append_iff.mp ht with ⟨rest, hs, -⟩ | ⟨rest, hn, hl⟩
  · exact .inl ⟨rest, hs.symm⟩
  · cases rest with
    | nil => exact .inl ⟨[], by rw [hn, List.append_nil, List.append_nil]⟩
    | cons x xs =>
        exact .inr ⟨x, xs, hn, by rw [hl]; exact List.mem_append_left _ List.mem_cons_self⟩

/-- What `strstr` returns: the rest of the object from the place of the needle. -/
inductive Search where
  | found (rest : List UInt8)
  | notFound
  | overrun
  deriving DecidableEq, Repr

def strstr (needle : List UInt8) : List UInt8 → Search
  | [] => .overrun
  | c :: cs =>
    if needle <+: c :: cs then .found (c :: cs)
    else if c = 0 then .notFound
    else strstr needle cs

section Strstr
variable {n s l t : List UInt8}

theorem strstr_found (h : strstr n s = .found t) : n <+: t ∧ t <:+ s := by
  induction s with
  | nil => cases h
  | cons c cs ih =>
      rw [strstr] at h
      split_ifs at h with hpre hzero
      · cases h
        exact ⟨hpre, List.suffix_refl _⟩
      · exact ⟨(ih h).1, (ih h).2.trans (List.suffix_cons c cs)⟩

theorem strstr_notFound (h : strstr n s = .notFound) : 0 ∈ s := by
  induction s with
  | nil => cases h
  | cons c cs ih =>
      rw [strstr] at h
      split_ifs at h with hpre hzero
      · rw [hzero]
        exact List.mem_cons_self
      · exact List.mem_cons_of_mem c (ih h)

/-- What is found in the first bytes is found there whatever follows. -/
theorem strstr_append_found (h : strstr n s = .found t) (l : List UInt8) :
    strstr n (s ++ l) = .found (t ++ l) := by
  induction s with
  | nil => cases h
  | cons c cs ih =>
      rw [strstr] at h
      split_ifs at h with hpre hzero
      · cases h
        exact if_pos (hpre.trans (List.prefix_append _ l))
      · have hlong : ¬ n <+: c :: (cs ++ l) := by
          intro hn
          rcases prefix_append_cases (s := c :: cs) hn with hn | ⟨x, xs, hn, -⟩
          · exact hpre hn
          · obtain ⟨ht, hsuf⟩ := strstr_found h
            have hle := Nat.le_trans ht.length_le hsuf.length_le
            rw [hn, List.length_append, List.length_cons, List.length_cons] at hle
            omega
        rw [List.cons_append, strstr, if_neg hlong, if_neg hzero]
        exact ih h

/-- A NUL in the first bytes ends the search there. -/
theorem strstr_append_notFound (hnul : 0 ∉ n) (h : strstr n s = .notFound) (l : List UInt8) :
    strstr n (s ++ l) = .notFound := by
  induction s with
  | nil => cases h
  | cons c cs ih =>
      have hmem := strstr_notFound h
      rw [strstr] at h
      split_ifs at h with hpre hzero
      all_goals
        have hlong : ¬ n <+: c :: (cs ++ l) := by
          intro hn
          rcases prefix_append_cases (s := c :: cs) hn with hn | ⟨x, xs, hn, -⟩
          · exact hpre hn
          · exact hnul (by rw [hn]; exact List.mem_append_left _ hmem)
        rw [List.cons_append, strstr, if_neg hlong]
      · exact if_pos hzero
      · rw [if_neg hzero]
        exact ih h

/-- A search that needs more than the first bytes runs past an object filled up with
something else. -/
theorem strstr_append_overrun (hne : n ≠ []) (h : strstr n s = .overrun)
    (hl : ∀ x ∈ l, x ∉ n ∧ x ≠ 0) :
    strstr n (s ++ l) = .overrun := by
  induction s with
  | nil =>
      rw [List.nil_append]
      clear h
      induction l with
      | nil => rfl
      | cons c cs ih =>
          obtain ⟨hc, hzero⟩ := hl c List.mem_cons_self
          have hpre : ¬ n <+: c :: cs := by
            cases n with
            | nil => exact absurd rfl hne
            | cons a as =>
                exact fun hn =>
                  hc (by rw [(List.cons_prefix_cons.mp hn).1]; exact List.mem_cons_self)
          rw [strstr, if_neg hpre, if_neg hzero]
          exact ih fun x hx => hl x (List.mem_cons_of_mem c hx)
  | cons c cs ih =>
      rw [strstr] at h
      split_ifs at h with hpre hzero
      have hlong : ¬ n <+: c :: (cs ++ l) := by
        intro hn
        rcases prefix_append_cases (s := c :: cs) hn with hn | ⟨x, xs, hn, hx⟩
        · exact hpre hn
        · exact (hl x hx).1 (by rw [hn]; exact List.mem_append_right _ List.mem_cons_self)
      rw [List.cons_append, strstr, if_neg hlong, if_neg hzero]
      exact ih h

end Strstr

def isspace (c : UInt8) : Bool := c == 0x20 || 0x09 ≤ c && c ≤ 0x0d

def word : List UInt8 → Option (List UInt8)
  | [] => none
  | c :: cs => if isspace c || c == 0 then some [] else (word cs).map (c :: ·)

/-- `%s` of `sscanf`. -/
def scanWord : List UInt8 → Option (List UInt8)
  | [] => none
  | c :: cs => if isspace c then scanWord cs else word (c :: cs)

section Scan
variable {s l w : List UInt8}

theorem word_append (h : word s = some w) (l : List UInt8) : word (s ++ l) = some w := by
  induction s generalizing w with
  | nil => cases h
  | cons c cs ih =>
      rw [word] at h
      rw [List.cons_append, word]
      split_ifs at h ⊢ with hend
      · exact h
      · obtain ⟨rest, hrest, rfl⟩ := Option.map_eq_some_iff.mp h
        rw [ih hrest, Option.map_some]

theorem word_append_none (h : word s = none) (hl : ∀ c ∈ l, (isspace c || c == 0) = false) :
    word (s ++ l) = none := by
  induction s with
  | nil =>
      rw [List.nil_append]
      clear h
      induction l with
      | nil => rfl
      | cons c cs ih =>
          rw [word, hl c List.mem_cons_self, if_neg Bool.false_ne_true,
            ih fun x hx => hl x (List.mem_cons_of_mem c hx), Option.map_none]
  | cons c cs ih =>
      rw [word] at h
      rw [List.cons_append, word]
      split_ifs at h ⊢ with hend
      rw [ih (Option.map_eq_none_iff.mp h), Option.map_none]

theorem scanWord_append (h : scanWord s = some w) (l : List UInt8) :
    scanWord (s ++ l) = some w := by
  induction s with
  | nil => cases h
  | cons c cs ih =>
      rw [scanWord] at h
      rw [List.cons_append, scanWord]
      split_ifs at h ⊢ with hspace
      · exact ih h
      · exact word_append h l

theorem scanWord_append_none (h : scanWord s = none) (hl : ∀ c ∈ l, (isspace c || c == 0) = false) :
    scanWord (s ++ l) = none := by
  induction s with
  | nil =>
      rw [List.nil_append]
      cases l with
      | nil => rfl
      | cons c cs =>
          have hword : word ([] ++ c :: cs) = none := word_append_none rfl hl
          obtain ⟨hspace, -⟩ := Bool.or_eq_false_iff.mp (hl c List.mem_cons_self)
          rw [scanWord, hspace, if_neg Bool.false_ne_true]
          exact hword
  | cons c cs ih =>
      rw [scanWord] at h
      rw [List.cons_append, scanWord]
      split_ifs at h ⊢ with hspace
      · exact ih h
      · exact word_append_none h hl

end Scan

/-- The largest `long` of 32 bits. -/
def longMax : Int := 0x7fffffff

def longMin : Int := -0x80000000

def isdigit (c : UInt8) : Bool := 0x30 ≤ c && c ≤ 0x39

def digits (acc : Nat) : List UInt8 → Option Nat
  | [] => none
  | c :: cs => if isdigit c then digits (acc * 10 + (c.toNat - 0x30)) cs else some acc

/-- `strtol` to the base of ten. -/
def strtol : List UInt8 → Option Int
  | [] => none
  | c :: cs =>
    if isspace c then strtol cs
    else if c = 0x2d then (digits 0 cs).map fun n : Nat => max (-(n : Int)) longMin
    else (digits 0 (if c = 0x2b then cs else c :: cs)).map fun n : Nat => min (n : Int) longMax

section Strtol
variable {s : List UInt8} {v : Int}

theorem digits_append {acc n : Nat} (h : digits acc s = some n) (l : List UInt8) :
    digits acc (s ++ l) = some n := by
  induction s generalizing acc with
  | nil => cases h
  | cons c cs ih =>
      rw [digits] at h
      rw [List.cons_append, digits]
      split_ifs at h ⊢ with hdigit
      · exact ih h
      · exact h

theorem strtol_append (h : strtol s = some v) (l : List UInt8) : strtol (s ++ l) = some v := by
  induction s with
  | nil => cases h
  | cons c cs ih =>
      rw [strtol] at h
      rw [List.cons_append, strtol]
      split_ifs at h ⊢ with hspace hminus hplus
      · exact ih h
      all_goals
        obtain ⟨n, hn, rfl⟩ := Option.map_eq_some_iff.mp h
        have hdigits := digits_append hn l
      · rw [hdigits, Option.map_some]
      · rw [hdigits, Option.map_some]
      · rw [← List.cons_append, hdigits, Option.map_some]

theorem strtol_le (h : strtol s = some v) : v ≤ longMax := by
  induction s with
  | nil => cases h
  | cons c cs ih =>
      rw [strtol] at h
      split_ifs at h with hspace hminus hplus
      · exact ih h
      all_goals obtain ⟨n, hn, rfl⟩ := Option.map_eq_some_iff.mp h
      · rw [longMax, longMin]
        omega
      · exact Int.min_le_right _ _
      · exact Int.min_le_right _ _

end Strtol

def strcmp : List UInt8 → List UInt8 → Option Int
  | a :: as, b :: bs =>
    if a ≠ b then some (a.toNat - b.toNat) else if a = 0 then some 0 else strcmp as bs
  | _, _ => none

/-- Against a literal an object is equal when it starts with the literal and its NUL. -/
theorem strcmp_literal {s t : List UInt8} (hnul : 0 ∉ t) (hlen : t.length < s.length) :
    ∃ d, strcmp s (t ++ [0]) = some d ∧ (d = 0 ↔ t ++ [0] <+: s) := by
  have hdiff : ∀ a b : UInt8, a ≠ b → ((a.toNat : Int) - b.toNat) ≠ 0 := by
    intro a b hab hzero
    exact hab (UInt8.toNat_inj.mp (by omega))
  induction t generalizing s with
  | nil =>
      obtain ⟨a, as, rfl⟩ := List.exists_cons_of_length_pos hlen
      rw [List.nil_append, strcmp, List.cons_prefix_cons]
      split_ifs with hne ha
      · exact ⟨_, rfl, iff_of_false (hdiff a 0 hne) fun h => hne h.1.symm⟩
      · exact ⟨_, rfl, iff_of_true rfl ⟨ha.symm, List.nil_prefix⟩⟩
      · exact absurd (not_not.mp hne) ha
  | cons b bs ih =>
      obtain ⟨a, as, rfl⟩ :=
        List.exists_cons_of_length_pos (Nat.lt_of_le_of_lt (Nat.zero_le _) hlen)
      rw [List.cons_append, strcmp, List.cons_prefix_cons]
      split_ifs with hne ha
      · exact ⟨_, rfl, iff_of_false (hdiff a b hne) fun h => hne h.1.symm⟩
      · exact absurd (by rw [← ha, not_not.mp hne]; exact List.mem_cons_self) hnul
      · obtain ⟨d, hd, hiff⟩ :=
          ih (fun h => hnul (List.mem_cons_of_mem b h)) (Nat.lt_of_succ_lt_succ hlen)
        refine ⟨d, hd, hiff.trans ?_⟩
        rw [not_not.mp hne]
        exact (and_iff_right rfl).symm

/-- What `strcmp` returns, of the contents of two strings. -/
def order : List UInt8 → List UInt8 → Int
  | [], [] => 0
  | [], b :: _ => -b.toNat
  | a :: _, [] => a.toNat
  | a :: as, b :: bs => if a ≠ b then a.toNat - b.toNat else order as bs

theorem strcmp_terminated {s t : List UInt8} (hs : 0 ∉ s) (ht : 0 ∉ t) (x y : List UInt8) :
    strcmp (s ++ 0 :: x) (t ++ 0 :: y) = some (order s t) := by
  induction s generalizing t with
  | nil =>
      cases t with
      | nil => rfl
      | cons b bs =>
          have hb : (0 : UInt8) ≠ b := fun h => ht (h ▸ List.mem_cons_self)
          rw [List.nil_append, List.cons_append, strcmp, if_pos hb, order]
          exact congrArg some (Int.zero_sub _)
  | cons a as ih =>
      have ha : a ≠ 0 := fun h => hs (h ▸ List.mem_cons_self)
      cases t with
      | nil =>
          rw [List.nil_append, List.cons_append, strcmp, if_pos ha, order]
          exact congrArg some (Int.sub_zero _)
      | cons b bs =>
          rw [List.cons_append, List.cons_append, strcmp, order]
          split_ifs with hab
          · rfl
          · exact ih (fun h => hs (List.mem_cons_of_mem a h)) fun h => ht (List.mem_cons_of_mem b h)

theorem cons_le_cons_iff {a b : Nat} {as bs : List Nat} :
    a :: as ≤ b :: bs ↔ ¬(b < a ∨ b = a ∧ bs < as) := by
  rw [← List.cons_lt_cons_iff]
  exact not_lt.symm

/-- Without NULs in them strings are ordered as the lists of their octets. -/
theorem order_le_zero {s t : List UInt8} (hs : 0 ∉ s) :
    order s t ≤ 0 ↔ s.map UInt8.toNat ≤ t.map UInt8.toNat := by
  induction s generalizing t with
  | nil =>
      refine iff_of_true ?_ (not_lt.mp (List.not_lt_nil _))
      cases t with
      | nil => exact Int.le_refl 0
      | cons b bs =>
          rw [order]
          omega
  | cons a as ih =>
      have ha : a.toNat ≠ 0 := fun h =>
        hs (UInt8.toNat_inj.mp (h.trans UInt8.toNat_zero.symm) ▸ List.mem_cons_self)
      cases t with
      | nil =>
          rw [order, List.map_cons, List.map_nil]
          refine iff_of_false (by omega) ?_
          exact fun h => h.not_gt (List.nil_lt_cons _ _)
      | cons b bs =>
          rw [order, List.map_cons, List.map_cons, cons_le_cons_iff]
          split_ifs with hab
          · have hne : b.toNat ≠ a.toNat := fun h => hab (UInt8.toNat_inj.mp h.symm)
            rw [or_iff_left fun h => hne h.1]
            omega
          · rw [not_not.mp hab, ih fun h => hs (List.mem_cons_of_mem a h),
              or_iff_right (Nat.lt_irrefl _), and_iff_right rfl]
            exact not_lt.symm

theorem order_eq_zero {s t : List UInt8} (hs : 0 ∉ s) (ht : 0 ∉ t) : order s t = 0 ↔ s = t := by
  induction s generalizing t with
  | nil =>
      cases t with
      | nil => exact iff_of_true rfl rfl
      | cons b bs =>
          have hb : b.toNat ≠ 0 := fun h =>
            ht (UInt8.toNat_inj.mp (h.trans UInt8.toNat_zero.symm) ▸ List.mem_cons_self)
          rw [order]
          exact iff_of_false (by omega) (List.cons_ne_nil b bs).symm
  | cons a as ih =>
      have ha : a.toNat ≠ 0 := fun h =>
        hs (UInt8.toNat_inj.mp (h.trans UInt8.toNat_zero.symm) ▸ List.mem_cons_self)
      cases t with
      | nil =>
          rw [order]
          exact iff_of_false (by omega) (List.cons_ne_nil a as)
      | cons b bs =>
          rw [order, List.cons.injEq]
          split_ifs with hab
          · have hne : a.toNat ≠ b.toNat := fun h => hab (UInt8.toNat_inj.mp h)
            exact iff_of_false (by omega) fun h => hab h.1
          · rw [ih (fun h => hs (List.mem_cons_of_mem a h)) fun h => ht (List.mem_cons_of_mem b h)]
            exact (and_iff_right (not_not.mp hab)).symm

end CString
