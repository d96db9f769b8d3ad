import Mathlib.Data.List.Basic

/-! A buffer written from its front: each write lands behind what was written before it. -/
namespace Buffer

variable {α : Type} {p b buffer : List α} {i : Nat}

/-- `memcpy` to an index; what stood there before is gone, all else is kept. -/
def write (buffer : List α) (i : Nat) (b : List α) : List α :=
  buffer.take i ++ b ++ buffer.drop (i + b.length)

theorem prefix_write_zero (buffer b : List α) : b <+: write buffer 0 b := by
  rw [write, List.take_zero, List.nil_append]
  exact List.prefix_append b _

theorem prefix_write (h : p <+: buffer) (hi : i = p.length) : p ++ b <+: write buffer i b := by
  obtain ⟨rest, rfl⟩ := h
  rw [write, hi, List.take_left]
  exact List.prefix_append _ _

theorem take_of_isPrefix (h : p <+: buffer) : buffer.take p.length = p := by
  obtain ⟨rest, rfl⟩ := h
  exact List.take_left

theorem getD_of_isPrefix (h : p <+: buffer) (hi : i < p.length) (d : α) :
    buffer.getD i d = p[i] := by
  obtain ⟨rest, rfl⟩ := h
  rw [List.getD_eq_getElem?_getD, List.getElem?_append_left hi, List.getElem?_eq_getElem hi,
    Option.getD_some]

end Buffer
