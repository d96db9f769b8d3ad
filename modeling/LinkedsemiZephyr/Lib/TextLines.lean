import Mathlib.Data.List.Basic

/-! Text as lines: how it is divided into them, how pieces are joined, and how a text file
stores the ends of lines. -/
namespace TextLines

abbrev Text := List Char

/-- What holds of the parts and of the separator holds of the whole, if it can be put together. -/
theorem intercalate_induction {α β ι : Type} {P : List α → List β → Prop} (hnil : P [] [])
    (happend : ∀ {w w' gs gs'}, P w gs → P w' gs' → P (w ++ w') (gs ++ gs')) {sep : List α}
    (hsep : P sep []) {f : ι → List α} {g : ι → List β} {l : List ι} (h : ∀ i ∈ l, P (f i) (g i)) :
    P (sep.intercalate (l.map f)) (l.flatMap g) := by
  induction l with
  | nil => exact hnil
  | cons i l ih =>
      have hi : P (f i) (g i) := h i List.mem_cons_self
      have hl := ih fun j hj => h j (List.mem_cons_of_mem i hj)
      cases l with
      | nil =>
          rw [List.map_singleton, List.intercalate_singleton, List.flatMap_singleton]
          exact hi
      | cons j l =>
          have hwhole := happend (happend hi hsep) hl
          rw [List.append_nil] at hwhole
          rw [List.map_cons, List.map_cons, List.intercalate_cons_cons, List.flatMap_cons]
          exact hwhole

theorem forall_mem_intercalate {α ι : Type} {p : α → Prop} {sep : List α} (hsep : ∀ c ∈ sep, p c)
    {f : ι → List α} {l : List ι} (h : ∀ i ∈ l, ∀ c ∈ f i, p c) :
    ∀ c ∈ sep.intercalate (l.map f), p c :=
  intercalate_induction (β := Unit) (P := fun w _ => ∀ c ∈ w, p c)
    (fun _ hc => absurd hc List.not_mem_nil)
    (fun hw hw' => List.forall_mem_append.mpr ⟨hw, hw'⟩) hsep (g := fun _ => []) h

theorem not_mem_intercalate {α ι : Type} {x : α} {sep : List α} (hsep : x ∉ sep) {f : ι → List α}
    {l : List ι} (h : ∀ i ∈ l, x ∉ f i) : x ∉ sep.intercalate (l.map f) := by
  intro hmem
  exact forall_mem_intercalate (p := (· ≠ x)) (fun c hc heq => hsep (heq ▸ hc))
    (fun i hi c hc heq => h i hi (heq ▸ hc)) x hmem rfl

/-- `'\r'`, with which `splitlines` and a text file end a line as well. -/
def cr : Char := '\r'

def isLineBreak (c : Char) : Bool := c ∈ "\n\x0b\x0c\r\x1c\x1d\x1e".toList

/-- `splitlines` of ASCII text, behind the characters of a line. -/
def splitlinesFrom (line : Text) : Text → List Text
  | [] => if line = [] then [] else [line]
  | '\r' :: '\n' :: s => line :: splitlinesFrom [] s
  | c :: s => if isLineBreak c then line :: splitlinesFrom [] s else splitlinesFrom (line ++ [c]) s

def splitlines (s : Text) : List Text := splitlinesFrom [] s

theorem splitlinesFrom_no_cr {line s : Text} (hline : cr ∉ line) :
    ∀ l ∈ splitlinesFrom line s, cr ∉ l := by
  fun_induction splitlinesFrom line s with
  | case1 =>
      intro l hl
      cases hl
  | case2 line hne =>
      intro l hl
      rw [List.mem_singleton.mp hl]
      exact hline
  | case3 line s ih => exact List.forall_mem_cons.mpr ⟨hline, ih List.not_mem_nil⟩
  | case4 line c s hnext hbreak ih => exact List.forall_mem_cons.mpr ⟨hline, ih List.not_mem_nil⟩
  | case5 line c s hnext hkept ih =>
      apply ih
      intro hmem
      rcases List.mem_append.mp hmem with hold | hnew
      · exact hline hold
      · rw [← List.mem_singleton.mp hnew] at hkept
        exact hkept (by decide)

/-- What a text file is read as. -/
def universalNewlines : Text → Text
  | [] => []
  | '\r' :: '\n' :: s => '\n' :: universalNewlines s
  | c :: s => (if c = cr then '\n' else c) :: universalNewlines s

/-- `os.linesep`. -/
abbrev Linesep := { l : Text // l = ['\n'] ∨ l = ['\r', '\n'] }

/-- What is stored of a text. -/
def written (linesep : Linesep) (s : Text) : Text :=
  s.flatMap fun c => if c = '\n' then linesep.1 else [c]

theorem universalNewlines_cons {c : Char} (hc : c ≠ cr) (s : Text) :
    universalNewlines (c :: s) = c :: universalNewlines s := by
  rw [universalNewlines, if_neg hc]
  intro _ hcr
  exact absurd hcr hc

/-- Text without a carriage return is read as it was written. -/
theorem universalNewlines_written (linesep : Linesep) {s : Text} (h : cr ∉ s) :
    universalNewlines (written linesep s) = s := by
  induction s with
  | nil => rfl
  | cons c s ih =>
      have hc : cr ≠ c := List.ne_of_not_mem_cons h
      have hs : cr ∉ s := List.not_mem_of_not_mem_cons h
      change universalNewlines ((if c = '\n' then linesep.1 else [c]) ++ written linesep s) = c :: s
      by_cases hend : c = '\n'
      · rw [if_pos hend, hend]
        rcases linesep.2 with hlf | hcrlf
        · rw [hlf]
          exact (universalNewlines_cons (by decide) _).trans (congrArg ('\n' :: ·) (ih hs))
        · rw [hcrlf]
          exact congrArg ('\n' :: ·) (ih hs)
      · rw [if_neg hend]
        exact (universalNewlines_cons (Ne.symm hc) _).trans (congrArg (c :: ·) (ih hs))

end TextLines
