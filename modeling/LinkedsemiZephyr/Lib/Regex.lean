import Mathlib.Data.List.Infix

/-! A backtracking matcher: the successes of a pattern in the order in which they are
tried, of which a search takes the first. -/
namespace Regex

variable {α : Type}

/-- `star` repeats a class, the longest repetition first; `group` captures. -/
inductive Pattern (α : Type) where
  | empty
  | cls (p : α → Bool)
  | star (p : α → Bool)
  | seq (a b : Pattern α)
  | group (a : Pattern α)

/-- The captures of a success, and what it leaves. -/
abbrev Match (α : Type) := List (List α) × List α

def repeats (p : α → Bool) : List α → List (List α)
  | [] => [[]]
  | c :: s => if p c then repeats p s ++ [c :: s] else [c :: s]

def Pattern.run : Pattern α → List α → List (Match α)
  | .empty, s => [([], s)]
  | .cls _, [] => []
  | .cls p, c :: s => if p c then [([], s)] else []
  | .star p, s => (repeats p s).map fun t => ([], t)
  | .seq a b, s => (a.run s).flatMap fun m => (b.run m.2).map fun m' => (m.1 ++ m'.1, m'.2)
  | .group a, s => (a.run s).map fun m => (s.take (s.length - m.2.length) :: m.1, m.2)

namespace Pattern

/-- One repetition at least. -/
def plus (p : α → Bool) : Pattern α := .seq (.cls p) (.star p)

def lit [DecidableEq α] : List α → Pattern α
  | [] => .empty
  | c :: w => .seq (.cls (· = c)) (lit w)

/-- The first success at the start of `s`. -/
def first (r : Pattern α) (s : List α) : Option (Match α) := (r.run s).head?

/-- The first success at the leftmost place that has one. -/
def search (r : Pattern α) : List α → Option (Match α)
  | [] => r.first []
  | c :: s => (r.first (c :: s)).or (r.search s)

/-- The captures of the successes that consume something, each behind the one before. -/
def findall (r : Pattern α) : List α → List (List (List α))
  | [] => []
  | c :: s =>
    match r.first (c :: s) with
    | some m => if m.2.length < s.length + 1 then m.1 :: r.findall m.2 else r.findall s
    | none => r.findall s
termination_by s => s.length

section First
variable {a b : Pattern α} {p : α → Bool} {s t u w : List α} {g g' : List (List α)} {c : α}

theorem first_cls (hc : p c = true) : (cls p).first (c :: s) = some ([], s) := by
  rw [first, run, if_pos hc]
  rfl

/-- The first successes of the parts make the first success of the whole. -/
theorem first_seq (ha : a.first s = some (g, t)) (hb : b.first t = some (g', u)) :
    (seq a b).first s = some (g ++ g', u) := by
  obtain ⟨as, has⟩ := List.head?_eq_some_iff.mp ha
  obtain ⟨bs, hbs⟩ := List.head?_eq_some_iff.mp hb
  rw [first, run, has, List.flatMap_cons, hbs]
  rfl

theorem first_group (ha : a.first (w ++ t) = some (g, t)) :
    (group a).first (w ++ t) = some (w :: g, t) := by
  obtain ⟨as, has⟩ := List.head?_eq_some_iff.mp ha
  have htake : (w ++ t).take ((w ++ t).length - t.length) = w := by
    rw [List.length_append, Nat.add_sub_cancel, List.take_left' rfl]
  rw [first, run, has, List.map_cons, List.head?_cons, htake]

theorem repeats_head (hw : ∀ c ∈ w, p c = true) (ht : ∀ c ∈ t.head?, p c = false) :
    (repeats p (w ++ t)).head? = some t := by
  induction w with
  | nil =>
      cases t with
      | nil => rfl
      | cons c t =>
          have hc : p c = false := ht c rfl
          rw [List.nil_append, repeats, hc]
          rfl
  | cons c w ih =>
      obtain ⟨rest, hrest⟩ :=
        List.head?_eq_some_iff.mp (ih fun x hx => hw x (List.mem_cons_of_mem c hx))
      rw [List.cons_append, repeats, if_pos (hw c List.mem_cons_self), hrest]
      rfl

/-- What ends a repetition. -/
theorem stops (hc : p c = false) (s : List α) : ∀ x ∈ (c :: s).head?, p x = false := by
  intro x hx
  cases hx
  exact hc

/-- A repetition takes all it can. -/
theorem first_star (hw : ∀ c ∈ w, p c = true) (ht : ∀ c ∈ t.head?, p c = false) :
    (star p).first (w ++ t) = some ([], t) := by
  rw [first, run, List.head?_map, repeats_head hw ht]
  rfl

theorem first_plus (hne : w ≠ []) (hw : ∀ c ∈ w, p c = true) (ht : ∀ c ∈ t.head?, p c = false) :
    (plus p).first (w ++ t) = some ([], t) := by
  obtain ⟨c, w, rfl⟩ := List.exists_cons_of_ne_nil hne
  have hstar : (star p).first (w ++ t) = some ([], t) :=
    first_star (fun x hx => hw x (List.mem_cons_of_mem c hx)) ht
  exact first_seq (first_cls (hw c List.mem_cons_self)) hstar

variable [DecidableEq α]

theorem first_lit (w t : List α) : (lit w).first (w ++ t) = some ([], t) := by
  induction w with
  | nil => rfl
  | cons c w ih =>
      have hc : (cls (· = c)).first (c :: (w ++ t)) = some ([], w ++ t) :=
        first_cls (decide_eq_true rfl)
      exact first_seq hc ih

theorem run_lit_none (h : ¬ w <+: s) : (lit w).run s = [] := by
  induction w generalizing s with
  | nil => exact absurd List.nil_prefix h
  | cons c w ih =>
      cases s with
      | nil => rfl
      | cons x s =>
          rw [lit, run, run]
          by_cases hx : x = c
          · have hrest : ¬ w <+: s := fun hw => h (List.cons_prefix_cons.mpr ⟨hx.symm, hw⟩)
            rw [if_pos (decide_eq_true hx), List.flatMap_singleton, ih hrest]
            rfl
          · rw [if_neg (by rwa [decide_eq_true_eq])]
            rfl

/-- Where the literal at its start is not, a pattern has no success. -/
theorem first_lit_none (h : ¬ w <+: s) : (seq (lit w) b).first s = none := by
  rw [first, run, run_lit_none h]
  rfl

end First

section Search
variable {r : Pattern α} {s pre w : List α} {m : Match α}

theorem search_first (h : r.first s = some m) : r.search s = some m := by
  cases s with
  | nil => exact h
  | cons c s => rw [search, h, Option.some_or]

theorem search_append (h : ∀ t, t ≠ [] → t <:+ pre → r.first (t ++ s) = none) :
    r.search (pre ++ s) = r.search s := by
  induction pre with
  | nil => rfl
  | cons c pre ih =>
      have hhere : r.first (c :: (pre ++ s)) = none :=
        h (c :: pre) (List.cons_ne_nil c pre) (List.suffix_refl _)
      rw [List.cons_append, search, hhere, Option.none_or]
      exact ih fun t hne ht => h t hne (ht.trans (List.suffix_cons c pre))

/-- Text in front of the literal is passed over when the literal does not begin in it. -/
theorem search_lit_append [DecidableEq α] {b : Pattern α}
    (hpre : ∀ t ∈ pre.tails, t ≠ [] → ¬ w <+: t ++ w) (hs : w <+: s) :
    (seq (lit w) b).search (pre ++ s) = (seq (lit w) b).search s := by
  apply search_append
  intro t hne ht
  apply first_lit_none
  intro hw
  have hlong : t ++ w <+: t ++ s := (List.prefix_append_right_inj t).mpr hs
  have hle : w.length ≤ (t ++ w).length := by
    rw [List.length_append]
    exact Nat.le_add_left _ _
  exact hpre t ((List.mem_tails t pre).mpr ht) hne (List.prefix_of_prefix_length_le hw hlong hle)

end Search

/-- In front of any text, `w` contributes the captures `gs`. -/
def Yields (r : Pattern α) (w : List α) (gs : List (List (List α))) : Prop :=
  ∀ s, r.findall (w ++ s) = gs ++ r.findall s

section Yields
variable {r : Pattern α} {w w' : List α} {gs gs' : List (List (List α))}

theorem Yields.nil : r.Yields [] [] := fun _ => rfl

theorem Yields.append (h : r.Yields w gs) (h' : r.Yields w' gs') :
    r.Yields (w ++ w') (gs ++ gs') := by
  intro s
  rw [List.append_assoc, List.append_assoc, h, h']

theorem Yields.findall_eq (h : r.Yields w gs) : r.findall w = gs := by
  have hall := h []
  rw [List.append_nil, findall, List.append_nil] at hall
  exact hall

/-- Text at which no success begins. -/
theorem Yields.skip (h : ∀ c ∈ w, ∀ s, r.first (c :: s) = none) : r.Yields w [] := by
  induction w with
  | nil => exact Yields.nil
  | cons c w ih =>
      intro s
      rw [List.cons_append, findall, h c List.mem_cons_self]
      exact ih (fun x hx => h x (List.mem_cons_of_mem c hx)) s

theorem Yields.single {g : List (List α)} (hne : w ≠ []) (h : ∀ s, r.first (w ++ s) = some (g, s)) :
    r.Yields w [g] := by
  obtain ⟨c, w, rfl⟩ := List.exists_cons_of_ne_nil hne
  intro s
  have hlen : s.length < (w ++ s).length + 1 := by
    rw [List.length_append]
    omega
  have hfirst := h s
  rw [List.cons_append] at hfirst ⊢
  rw [findall, hfirst]
  exact if_pos hlen

end Yields

end Pattern

end Regex
