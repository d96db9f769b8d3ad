import Mathlib.Data.Finset.Card
import Mathlib.Data.Finset.Image
import Mathlib.Data.Finset.Range
import Mathlib.Logic.Function.Basic

/-! A fixed number of slots given out to clients, the first free one each time. While every
client keeps to the slot it was given, each sees its own content and nothing else. -/
namespace SlotPool

variable {ι σ : Type}

structure Slot (σ : Type) where
  content : σ
  inUse : Bool

def firstFree (slots : List (Slot σ)) : Option Nat := slots.findIdx? fun x => !x.inUse

/-- The open clients have slots of their own, with their content; no other slot is in use. -/
structure Serves (slots : List (Slot σ)) (place : ι → Nat) (view : ι → Option σ)
    (opened : Finset ι) : Prop where
  mem_opened : ∀ i, i ∈ opened ↔ (view i).isSome
  held : ∀ i s, view i = some s → slots[place i]? = some ⟨s, true⟩
  apart : ∀ i j, i ∈ opened → j ∈ opened → place i = place j → i = j
  used : ∀ k s, slots[k]? = some ⟨s, true⟩ → ∃ i ∈ opened, place i = k

variable {slots : List (Slot σ)} {place : ι → Nat} {view : ι → Option σ} {opened : Finset ι} {i : ι}
  {k : Nat} {s : σ}

theorem firstFree_some (h : firstFree slots = some k) : ∃ s, slots[k]? = some ⟨s, false⟩ := by
  obtain ⟨hlt, hfree, -⟩ := List.findIdx?_eq_some_iff_getElem.mp h
  refine ⟨slots[k].content, ?_⟩
  rw [List.getElem?_eq_getElem hlt]
  exact congrArg some (congrArg (Slot.mk _) ((Bool.not_eq_true' _).mp hfree))

theorem firstFree_none : firstFree slots = none ↔ ∀ x ∈ slots, x.inUse = true := by
  rw [firstFree, List.findIdx?_eq_none_iff]
  exact forall₂_congr fun x _ => iff_of_eq (Bool.not_eq_false' _)

theorem Serves.start (slots : List (Slot σ)) (place : ι → Nat) (h : ∀ x ∈ slots, x.inUse = false) :
    Serves slots place (fun _ => none) ∅ where
  mem_opened _ := iff_of_false (Finset.notMem_empty _) Bool.false_ne_true
  held _ _ h := absurd h.symm (Option.some_ne_none _)
  apart _ _ h := absurd h (Finset.notMem_empty _)
  used _ _ hk := absurd (h _ (List.mem_of_getElem? hk)) Bool.noConfusion

theorem Serves.place_lt (h : Serves slots place view opened) (hi : i ∈ opened) :
    place i < slots.length := by
  obtain ⟨s, hs⟩ := Option.isSome_iff_exists.mp ((h.mem_opened i).mp hi)
  exact (List.getElem?_eq_some_iff.mp (h.held i s hs)).1

theorem Serves.card_image (h : Serves slots place view opened) :
    (opened.image place).card = opened.card :=
  Finset.card_image_of_injOn fun i hi j hj heq => h.apart i j hi hj heq

theorem Serves.image_subset (h : Serves slots place view opened) :
    opened.image place ⊆ Finset.range slots.length := by
  intro k hk
  obtain ⟨i, hi, rfl⟩ := Finset.mem_image.mp hk
  exact Finset.mem_range.mpr (h.place_lt hi)

theorem Serves.card_le (h : Serves slots place view opened) : opened.card ≤ slots.length := by
  rw [← h.card_image, ← Finset.card_range slots.length]
  exact Finset.card_le_card h.image_subset

/-- No slot is free just when there are as many open clients as slots. -/
theorem Serves.full_iff (h : Serves slots place view opened) :
    firstFree slots = none ↔ opened.card = slots.length := by
  rw [firstFree_none]
  constructor
  · intro hall
    have hsub : Finset.range slots.length ⊆ opened.image place := by
      intro k hk
      have hlt := Finset.mem_range.mp hk
      have huse := hall slots[k] (List.getElem_mem hlt)
      obtain ⟨i, hi, rfl⟩ := h.used k slots[k].content (by
        rw [List.getElem?_eq_getElem hlt]
        exact congrArg some (congrArg (Slot.mk _) huse))
      exact Finset.mem_image_of_mem place hi
    rw [← h.card_image, Finset.Subset.antisymm h.image_subset hsub, Finset.card_range]
  · intro hcard x hx
    obtain ⟨k, hlt, rfl⟩ := List.mem_iff_getElem.mp hx
    have hsame : opened.image place = Finset.range slots.length := by
      apply Finset.eq_of_subset_of_card_le h.image_subset
      rw [h.card_image, hcard, Finset.card_range]
    obtain ⟨i, hi, hplace⟩ := Finset.mem_image.mp (hsame ▸ Finset.mem_range.mpr hlt)
    obtain ⟨s, hs⟩ := Option.isSome_iff_exists.mp ((h.mem_opened i).mp hi)
    have hslot := h.held i s hs
    rw [hplace, List.getElem?_eq_getElem hlt] at hslot
    exact congrArg Slot.inUse (Option.some.inj hslot)

/-- What happens to the content of a free slot is nobody's concern. -/
theorem Serves.spoil (h : Serves slots place view opened) (hfree : firstFree slots = some k) :
    Serves (slots.set k ⟨s, false⟩) place view opened := by
  obtain ⟨old, hold⟩ := firstFree_some hfree
  have hlt := (List.getElem?_eq_some_iff.mp hold).1
  refine ⟨h.mem_opened, fun j s' hj => ?_, h.apart, fun k' s' hk' => ?_⟩
  · have hslot := h.held j s' hj
    have hne : k ≠ place j := by
      rintro rfl
      exact Bool.false_ne_true (congrArg Slot.inUse (Option.some.inj (hold.symm.trans hslot)))
    rw [List.getElem?_set_ne hne]
    exact hslot
  · by_cases hk : k' = k
    · subst hk
      rw [List.getElem?_set_self hlt] at hk'
      exact absurd (congrArg Slot.inUse (Option.some.inj hk')) Bool.false_ne_true
    · rw [List.getElem?_set_ne (Ne.symm hk)] at hk'
      exact h.used k' s' hk'

variable [DecidableEq ι]

/-- A client opens with the first free slot. -/
theorem Serves.take (h : Serves slots place view opened) (hfree : firstFree slots = some k)
    (hi : i ∉ opened) :
    Serves (slots.set k ⟨s, true⟩) (Function.update place i k) (Function.update view i (some s))
      (insert i opened) := by
  obtain ⟨old, hold⟩ := firstFree_some hfree
  have hlt := (List.getElem?_eq_some_iff.mp hold).1
  have hother : ∀ j ∈ opened, j ≠ i ∧ place j ≠ k := by
    intro j hj
    refine ⟨fun heq => hi (heq ▸ hj), fun heq => ?_⟩
    obtain ⟨s', hs'⟩ := Option.isSome_iff_exists.mp ((h.mem_opened j).mp hj)
    have hslot := h.held j s' hs'
    rw [heq, hold] at hslot
    exact Bool.false_ne_true (congrArg Slot.inUse (Option.some.inj hslot))
  refine ⟨fun j => ?_, fun j s' hj => ?_, fun j j' hj hj' heq => ?_, fun k' s' hk' => ?_⟩
  · rw [Finset.mem_insert]
    by_cases hji : j = i
    · subst hji
      rw [Function.update_self]
      exact iff_of_true (Or.inl rfl) rfl
    · rw [Function.update_of_ne hji, h.mem_opened j]
      exact or_iff_right hji
  · by_cases hji : j = i
    · subst hji
      rw [Function.update_self] at hj ⊢
      cases hj
      exact List.getElem?_set_self hlt
    · rw [Function.update_of_ne hji] at hj ⊢
      have hj' := (h.mem_opened j).mpr (hj ▸ rfl)
      rw [List.getElem?_set_ne (hother j hj').2.symm]
      exact h.held j s' hj
  · rcases Finset.mem_insert.mp hj with rfl | hold <;>
      rcases Finset.mem_insert.mp hj' with rfl | hold'
    · rfl
    · rw [Function.update_self, Function.update_of_ne (hother j' hold').1] at heq
      exact absurd heq.symm (hother j' hold').2
    · rw [Function.update_self, Function.update_of_ne (hother j hold).1] at heq
      exact absurd heq (hother j hold).2
    · rw [Function.update_of_ne (hother j hold).1, Function.update_of_ne (hother j' hold').1] at heq
      exact h.apart j j' hold hold' heq
  · by_cases hk : k' = k
    · subst hk
      exact ⟨i, Finset.mem_insert_self i opened, Function.update_self ..⟩
    · rw [List.getElem?_set_ne (Ne.symm hk)] at hk'
      obtain ⟨j, hj, rfl⟩ := h.used k' s' hk'
      exact ⟨j, Finset.mem_insert_of_mem hj, Function.update_of_ne (hother j hj).1 ..⟩

/-- A client works on its slot. -/
theorem Serves.write (h : Serves slots place view opened) (hi : view i = some s) (s' : σ) :
    Serves (slots.set (place i) ⟨s', true⟩) place (Function.update view i (some s')) opened := by
  have hmem : i ∈ opened := (h.mem_opened i).mpr (hi ▸ rfl)
  refine ⟨fun j => ?_, fun j t hj => ?_, h.apart, fun k' t hk' => ?_⟩
  · by_cases hji : j = i
    · subst hji
      rw [Function.update_self]
      exact iff_of_true hmem rfl
    · rw [Function.update_of_ne hji]
      exact h.mem_opened j
  · by_cases hji : j = i
    · subst hji
      rw [Function.update_self] at hj
      cases hj
      exact List.getElem?_set_self (h.place_lt hmem)
    · rw [Function.update_of_ne hji] at hj
      have hj' := (h.mem_opened j).mpr (hj ▸ rfl)
      rw [List.getElem?_set_ne fun heq => hji (h.apart j i hj' hmem heq.symm)]
      exact h.held j t hj
  · by_cases hk : k' = place i
    · exact ⟨i, hmem, hk.symm⟩
    · rw [List.getElem?_set_ne (Ne.symm hk)] at hk'
      exact h.used k' t hk'

/-- A client closes. -/
theorem Serves.free (h : Serves slots place view opened) (hi : view i = some s) (s' : σ) :
    Serves (slots.set (place i) ⟨s', false⟩) place (Function.update view i none)
      (opened.erase i) := by
  have hmem : i ∈ opened := (h.mem_opened i).mpr (hi ▸ rfl)
  refine ⟨fun j => ?_, fun j t hj => ?_, fun j j' hj hj' => ?_, fun k' t hk' => ?_⟩
  · rw [Finset.mem_erase]
    by_cases hji : j = i
    · subst hji
      rw [Function.update_self]
      exact iff_of_false (fun h => h.1 rfl) Bool.false_ne_true
    · rw [Function.update_of_ne hji, h.mem_opened j]
      exact and_iff_right hji
  · have hji : j ≠ i := by
      rintro rfl
      rw [Function.update_self] at hj
      cases hj
    rw [Function.update_of_ne hji] at hj
    have hj' := (h.mem_opened j).mpr (hj ▸ rfl)
    rw [List.getElem?_set_ne fun heq => hji (h.apart j i hj' hmem heq.symm)]
    exact h.held j t hj
  · exact h.apart j j' (Finset.mem_of_mem_erase hj) (Finset.mem_of_mem_erase hj')
  · by_cases hk : k' = place i
    · rw [hk, List.getElem?_set_self (h.place_lt hmem)] at hk'
      exact absurd (congrArg Slot.inUse (Option.some.inj hk')) Bool.false_ne_true
    · rw [List.getElem?_set_ne (Ne.symm hk)] at hk'
      obtain ⟨j, hj, rfl⟩ := h.used k' t hk'
      exact ⟨j, Finset.mem_erase.mpr ⟨fun heq => hk (heq ▸ rfl), hj⟩, rfl⟩

end SlotPool
