import LinkedsemiZephyr.Lib.Octets

/-! Ranges that follow each other without a gap, and functions that can be fed their input
in pieces. -/
namespace Tiling
open Octets

variable {σ α ε : Type}

/-- A start and a size. -/
abbrev Piece := Nat × Nat

/-- The pieces lead from one place to another, each from where the one before it ends. -/
def Tiles : Nat → List Piece → Nat → Prop
  | i, [], j => i = j
  | i, p :: ps, j => p.1 = i ∧ Tiles (i + p.2) ps j

def Piece.of (b : List α) (p : Piece) : List α := slice b p.1 (p.1 + p.2)

section Tiles
variable {i j k : Nat} {ps qs : List Piece}

theorem Tiles.append (hps : Tiles i ps j) (hqs : Tiles j qs k) : Tiles i (ps ++ qs) k := by
  induction ps generalizing i with
  | nil =>
      rw [Tiles] at hps
      rw [hps]
      exact hqs
  | cons p ps ih => exact ⟨hps.1, ih hps.2⟩

theorem Tiles.concat (hps : Tiles i ps j) (n : Nat) : Tiles i (ps ++ [(j, n)]) (j + n) :=
  hps.append ⟨rfl, rfl⟩

theorem Tiles.le (h : Tiles i ps j) : i ≤ j := by
  induction ps generalizing i with
  | nil => exact Nat.le_of_eq h
  | cons p ps ih => exact Nat.le_trans (Nat.le_add_right i p.2) (ih h.2)

/-- No piece reaches behind the end. -/
theorem Tiles.within (h : Tiles i ps j) : ∀ p ∈ ps, i ≤ p.1 ∧ p.1 + p.2 ≤ j := by
  induction ps generalizing i with
  | nil =>
      intro p hp
      cases hp
  | cons q ps ih =>
      obtain ⟨rfl, hrest⟩ := h
      intro p hp
      rcases List.mem_cons.mp hp with rfl | hp
      · exact ⟨Nat.le_refl _, hrest.le⟩
      · obtain ⟨hlow, hhigh⟩ := ih hrest p hp
        exact ⟨Nat.le_trans (Nat.le_add_right _ _) hlow, hhigh⟩

theorem slice_append (b : List α) (hij : i ≤ j) (hjk : j ≤ k) :
    slice b i j ++ slice b j k = slice b i k := by
  have hdrop : b.drop j = (b.drop i).drop (j - i) := by rw [List.drop_drop, Nat.add_sub_cancel' hij]
  have hsize : j - i + (k - j) = k - i := by omega
  rw [slice, slice, slice, hdrop, ← List.take_add, hsize]

/-- What the pieces hold is what lies between the two places. -/
theorem Tiles.flatMap_of (b : List α) (h : Tiles i ps j) :
    ps.flatMap (Piece.of b) = slice b i j := by
  induction ps generalizing i with
  | nil =>
      rw [Tiles] at h
      rw [h, List.flatMap_nil, slice, Nat.sub_self, List.take_zero]
  | cons p ps ih =>
      obtain ⟨rfl, hrest⟩ := h
      rw [List.flatMap_cons, ih hrest, Piece.of]
      exact slice_append b (Nat.le_add_right _ _) hrest.le

end Tiles

/-- A function that is fed with lists and tells whether it failed: nothing fed is nothing
done, and after one piece another is the two in a row. -/
structure Acts (ok : ε) (update : σ → List α → ε × σ) : Prop where
  nil : ∀ s, update s [] = (ok, s)
  append : ∀ s a b s', update s a = (ok, s') → update s (a ++ b) = update s' b

/-- Collecting what is fed is such a function. -/
example : Acts true (fun (s a : List α) => (true, s ++ a)) where
  nil := fun s => Prod.ext rfl (List.append_nil s)
  append := by
    intro s a b s' hfirst
    have hkept : s ++ a = s' := congrArg Prod.snd hfirst
    rw [← hkept, List.append_assoc]

end Tiling
