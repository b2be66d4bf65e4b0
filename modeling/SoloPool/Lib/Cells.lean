import Mathlib.Algebra.BigOperators.Group.List.Basic
import Mathlib.Algebra.GroupWithZero.Nat
import Mathlib.Data.List.Basic

/-! A list of cells of which one is replaced at a time. -/

namespace Cells

open List

variable {α β : Type} {cells : List α} {i : Nat} {a b : α}

/-- Replacing a cell exchanges the old value for the new one. -/
theorem set_perm (h : cells[i]? = some a) (b : α) : (a :: cells.set i b).Perm (b :: cells) := by
  obtain ⟨hlt, rfl⟩ := List.getElem?_eq_some_iff.mp h
  calc (cells[i] :: cells.set i b).Perm (cells[i] :: b :: cells.eraseIdx i) :=
        (set_perm_cons_eraseIdx hlt b).cons _
    _ |>.Perm (b :: cells[i] :: cells.eraseIdx i) := .swap _ _ _
    _ |>.Perm (b :: cells) := (getElem_cons_eraseIdx_perm hlt).cons _

theorem sum_set (f : α → Nat) (h : cells[i]? = some a) (b : α) :
    f a + ((cells.set i b).map f).sum = f b + (cells.map f).sum := by
  have hsum := ((set_perm h b).map f).sum_eq
  rwa [map_cons, map_cons, sum_cons, sum_cons] at hsum

theorem flatMap_set (f : α → List β) (h : cells[i]? = some a) (b : α) :
    (f a ++ (cells.set i b).flatMap f).Perm (f b ++ cells.flatMap f) := by
  have hperm := (set_perm h b).flatMap_right f
  rwa [flatMap_cons, flatMap_cons] at hperm

/-- The cells in front of any place, when one cell grows by at most `d`. -/
theorem sum_take_set_le (f : α → Nat) {d : Nat} (h : cells[i]? = some a) (hle : f b ≤ f a + d) (k : Nat) :
    (((cells.set i b).take k).map f).sum ≤ ((cells.take k).map f).sum + d := by
  rw [take_set]
  by_cases hk : i < k
  · have htaken : (cells.take k)[i]? = some a := by rw [getElem?_take_of_lt hk, h]
    have hsum := sum_set f htaken b
    omega
  · rw [set_eq_of_length_le]
    · omega
    · rw [length_take]
      omega

theorem forall_set {p : α → Prop} (hall : ∀ cell ∈ cells, p cell) (hb : p b) : ∀ cell ∈ cells.set i b, p cell := by
  intro cell hmem
  rcases mem_or_eq_of_mem_set hmem with hold | rfl
  · exact hall cell hold
  · exact hb

end Cells
