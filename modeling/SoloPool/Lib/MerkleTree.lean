import Mathlib.Data.List.Basic

/-! Hash trees over lists of leaves, an odd level completed with a copy of its last node. -/

namespace MerkleTree

open List

variable {α : Type} (combine : α → α → α)

def completed (level : List α) : List α :=
  if level.length % 2 ≠ 0 then level ++ level.getLast?.toList else level

/-- Neighbours combined, over a level of even length. -/
def collapse : List α → List α
  | left :: right :: rest => combine left right :: collapse rest
  | _ => []

/-- The loop up to a level of one node; `fuel` bounds its turns. -/
def climb : Nat → List α → List α
  | 0, level => level
  | fuel + 1, level => if level.length > 1 then climb fuel (collapse combine (completed level)) else level

/-- The same loop, keeping the second node of each level it leaves. -/
def siblings : Nat → List α → List α
  | 0, _ => []
  | fuel + 1, level =>
    if level.length > 1 then
      (completed level)[1]?.toList ++ siblings fuel (collapse combine (completed level))
    else []

theorem collapse_length (level : List α) : (collapse combine level).length = level.length / 2 := by
  induction level using collapse.induct with
  | case1 left right rest ih =>
    simp only [collapse, length_cons, ih]
    omega
  | case2 level hshort =>
    have hlength : level.length < 2 := by
      match level, hshort with
      | [], _ => simp
      | [_], _ => simp
      | left :: right :: rest, hshort => exact (hshort left right rest rfl).elim
    unfold collapse
    split
    · exact (hshort _ _ _ rfl).elim
    · simp only [length_nil]
      omega

theorem completed_length {level : List α} (hpos : 0 < level.length) :
    (completed level).length = level.length + level.length % 2 := by
  unfold completed
  split
  · rw [length_append, getLast?_eq_some_getLast (ne_nil_of_length_pos hpos)]
    simp only [Option.toList_some, length_singleton]
    omega
  · omega

/-- Enough turns reach the root. -/
theorem climb_length {fuel : Nat} {level : List α} (hpos : 0 < level.length) (hfuel : level.length ≤ fuel + 1) :
    (climb combine fuel level).length = 1 := by
  induction fuel generalizing level with
  | zero =>
    simp only [climb]
    omega
  | succ fuel ih =>
    unfold climb
    split
    · have hlength := completed_length hpos
      have hcollapsed := collapse_length combine (completed level)
      exact ih (by omega) (by omega)
    · omega

/-- The second node of a level, and what follows it, do not depend on the first. -/
theorem completed_cons {others : List α} (hpos : 0 < others.length) :
    ∃ sibling rest, ∀ first, completed (first :: others) = first :: sibling :: rest := by
  obtain ⟨second, tail, rfl⟩ := exists_cons_of_length_pos hpos
  by_cases hodd : (tail.length + 1 + 1) % 2 ≠ 0
  · refine ⟨second, tail ++ (second :: tail).getLast?.toList, fun first => ?_⟩
    simp only [completed, length_cons, if_pos hodd, getLast?_cons_cons, cons_append]
  · refine ⟨second, tail, fun first => ?_⟩
    simp only [completed, length_cons, if_neg hodd]

/-- The path kept for one first leaf leads to the root over any other. -/
theorem climb_head (fuel : Nat) (placeholder first : α) (others : List α) :
    (climb combine fuel (first :: others)).head? =
      some ((siblings combine fuel (placeholder :: others)).foldl combine first) := by
  induction fuel generalizing placeholder first others with
  | zero => rfl
  | succ fuel ih =>
    by_cases hpos : 0 < others.length
    · obtain ⟨sibling, rest, hcompleted⟩ := completed_cons hpos
      have hmore (node : α) : (node :: others).length > 1 := by
        rw [length_cons]
        omega
      rw [siblings, climb, if_pos (hmore placeholder), if_pos (hmore first), hcompleted, hcompleted, foldl_append]
      exact ih (combine placeholder sibling) (combine first sibling) (collapse combine rest)
    · have hnil : others = [] := eq_nil_of_length_eq_zero (by omega)
      subst hnil
      rfl

end MerkleTree
