import Mathlib.Data.List.Infix
import Mathlib.Logic.Relation

/-! One direction of a channel numbered by implicit counters. The sender spends numbers
in order; the receiver's counter moves on whether or not it accepts, and it accepts only
what was spent on its current number. Nothing else is needed for delivery without
duplicates and in order. -/
namespace CounterChannel

/-- Slot `i` of `spent` is what number `i` went to, if anything. -/
structure Direction (α : Type) where
  spent : List (Option α)
  next : Nat
  accepted : List α

inductive Direction.Step {α : Type} : Direction α → Direction α → Prop
  | spend (d : Direction α) (x : Option α) : Step d { d with spent := d.spent ++ [x] }
  | skip (d : Direction α) : Step d { d with next := d.next + 1 }
  | accept (d : Direction α) (x : α) : d.spent[d.next]? = some (some x) →
      Step d { d with next := d.next + 1, accepted := d.accepted ++ [x] }

variable {α : Type}

def Direction.Run : Direction α → Direction α → Prop := Relation.ReflTransGen Direction.Step

def Direction.Ordered (d : Direction α) : Prop :=
  (d.accepted.map some).Sublist (d.spent.take d.next)

theorem take_succ_of_getElem? {l : List α} {n : Nat} {x : α} (h : l[n]? = some x) :
    l.take (n + 1) = l.take n ++ [x] := by
  rw [List.take_add_one, h]
  rfl

theorem Direction.Step.ordered {d d' : Direction α} (h : Direction.Step d d') (hd : d.Ordered) :
    d'.Ordered := by
  cases h with
  | spend x => exact hd.trans (List.IsPrefix.take (List.prefix_append d.spent [x]) d.next).sublist
  | skip => exact hd.trans (List.take_prefix_take_left (Nat.le_succ d.next)).sublist
  | accept x hx =>
      change (List.map some (d.accepted ++ [x])).Sublist (d.spent.take (d.next + 1))
      rw [List.map_append, take_succ_of_getElem? hx]
      exact hd.append (List.Sublist.refl _)

theorem Direction.Run.ordered {d d' : Direction α} (h : d.Run d') (hd : d.Ordered) :
    d'.Ordered := by
  induction h with
  | refl => exact hd
  | tail _ hs ih => exact hs.ordered ih

/-- Accepted items are an in-order subsequence of the numbered ones. -/
theorem Direction.Ordered.sublist {d : Direction α} (h : d.Ordered) :
    d.accepted.Sublist (d.spent.filterMap id) := by
  have hs := (h.trans (List.take_sublist d.next d.spent)).filterMap id
  simpa only [List.filterMap_map, Function.comp_def, id_eq, List.filterMap_some] using hs

end CounterChannel
