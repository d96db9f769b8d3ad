import Mathlib.Data.List.Basic

/-! Loops in which every pass writes one entry: an entry that is written holds what one of
the passes wrote, and the others are as before. -/
namespace LastWrite

variable {σ α κ β : Type}

/-- Pass `a` writes `val a` to the entry `key a`, as long as an invariant holds, which it
keeps. -/
structure Writes (Inv : σ → Prop) (read : σ → κ → β) (pass : σ → α → σ) (key : α → κ)
    (val : α → β) : Prop where
  keep : ∀ s a, Inv s → Inv (pass s a)
  self : ∀ s a, Inv s → read (pass s a) (key a) = val a
  other : ∀ s a k, k ≠ key a → read (pass s a) k = read s k

variable {Inv : σ → Prop} {read : σ → κ → β} {pass : σ → α → σ} {key : α → κ} {val : α → β} {s : σ}
  {l : List α} {k : κ}

theorem Writes.foldl_keep (h : Writes Inv read pass key val) (hs : Inv s) (l : List α) :
    Inv (l.foldl pass s) := by
  induction l generalizing s with
  | nil => exact hs
  | cons a l ih => exact ih (h.keep s a hs)

theorem Writes.foldl_other (h : Writes Inv read pass key val) (hk : k ∉ l.map key) :
    read (l.foldl pass s) k = read s k := by
  induction l generalizing s with
  | nil => rfl
  | cons a l ih =>
      rw [List.map_cons, List.mem_cons, not_or] at hk
      rw [List.foldl_cons, ih hk.2, h.other s a k hk.1]

/-- The last pass that writes an entry decides it. -/
theorem Writes.foldl_mem (h : Writes Inv read pass key val) (hs : Inv s) (hk : k ∈ l.map key) :
    ∃ a ∈ l, key a = k ∧ read (l.foldl pass s) k = val a := by
  induction l generalizing s with
  | nil => exact absurd hk List.not_mem_nil
  | cons a l ih =>
      rw [List.foldl_cons]
      by_cases hlater : k ∈ l.map key
      · obtain ⟨b, hb, hkey, hread⟩ := ih (h.keep s a hs) hlater
        exact ⟨b, List.mem_cons_of_mem a hb, hkey, hread⟩
      · have hfirst : k = key a := (List.mem_cons.mp hk).resolve_right hlater
        refine ⟨a, List.mem_cons_self, hfirst.symm, ?_⟩
        rw [h.foldl_other hlater, hfirst, h.self s a hs]

end LastWrite
