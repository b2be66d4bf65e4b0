import Mathlib.Data.List.Basic

/-! Lists written as fields between separators. -/

namespace Delimited

open List

variable {α : Type}

theorem intercalate_eq_flatMap (sep : α) (field : List α) (fields : List (List α)) :
    [sep].intercalate (field :: fields) = field ++ fields.flatMap (fun field => sep :: field) := by
  induction fields generalizing field with
  | nil => simp
  | cons next fields ih =>
    rw [intercalate_cons_cons, ih, flatMap_cons]
    simp

/-- Fields free of the separator are determined by the text they are written as. -/
theorem fields_inj [DecidableEq α] {sep : α} {field field' : List α} {fields fields' : List (List α)}
    (hfree : ∀ text ∈ field :: fields, sep ∉ text) (hfree' : ∀ text ∈ field' :: fields', sep ∉ text)
    (h : field ++ fields.flatMap (fun field => sep :: field) = field' ++ fields'.flatMap (fun field => sep :: field)) :
    field = field' ∧ fields = fields' := by
  rw [← intercalate_eq_flatMap, ← intercalate_eq_flatMap] at h
  have hsplit := congrArg (splitOn sep) h
  rw [splitOn_intercalate sep hfree (cons_ne_nil _ _),
    splitOn_intercalate sep hfree' (cons_ne_nil _ _)] at hsplit
  exact cons_eq_cons.mp hsplit

/-- As many fields of any content are determined as well, once those on one side are free of
the separator. -/
theorem fields_inj_of_free [DecidableEq α] {sep : α} {fields fields' : List (List α)}
    (hlength : fields.length = fields'.length) (hfree' : ∀ text ∈ fields', sep ∉ text)
    (h : fields.flatMap (fun field => sep :: field) = fields'.flatMap (fun field => sep :: field)) :
    fields = fields' := by
  -- The separators inside the fields are those in the text, less one for each field.
  have hcount (fields : List (List α)) : (fields.flatMap (fun field => sep :: field)).count sep =
      fields.length + fields.flatten.count sep := by
    induction fields with
    | nil => rfl
    | cons field fields ih =>
      simp only [flatMap_cons, cons_append, count_cons_self, count_append, ih, length_cons,
        flatten_cons]
      omega
  have hnone' : fields'.flatten.count sep = 0 := by
    rw [count_eq_zero, List.mem_flatten]
    rintro ⟨text, htext, hmem⟩
    exact hfree' text htext hmem
  have hnone : fields.flatten.count sep = 0 := by
    have hcounts := congrArg (List.count sep) h
    rw [hcount, hcount] at hcounts
    omega
  have hfree : ∀ text ∈ fields, sep ∉ text := by
    intro text htext hmem
    exact count_eq_zero.mp hnone (List.mem_flatten.mpr ⟨text, htext, hmem⟩)
  have hempty : sep ∉ ([] : List α) := not_mem_nil
  exact (fields_inj (forall_mem_cons.mpr ⟨hempty, hfree⟩) (forall_mem_cons.mpr ⟨hempty, hfree'⟩) h).2

/-- A marked section between two unmarked ones is found again, and with it the first section
if that one never stands alone. -/
theorem sections_inj {marked : α → Bool} {first first' middle middle' last last' : List α}
    (hfirst : ∀ x ∈ first, marked x = false) (hfirst' : ∀ x ∈ first', marked x = false)
    (hmiddle : ∀ x ∈ middle, marked x = true) (hmiddle' : ∀ x ∈ middle', marked x = true)
    (hlast : ∀ x ∈ last, marked x = false) (hlast' : ∀ x ∈ last', marked x = false)
    (hpaired : first ≠ [] → middle ≠ []) (hpaired' : first' ≠ [] → middle' ≠ [])
    (h : first ++ middle ++ last = first' ++ middle' ++ last') : first = first' ∧ middle = middle' ∧ last = last' := by
  have hfilter {a b c : List α} (ha : ∀ x ∈ a, marked x = false) (hb : ∀ x ∈ b, marked x = true)
      (hc : ∀ x ∈ c, marked x = false) : (a ++ b ++ c).filter marked = b := by
    rw [filter_append, filter_append, filter_eq_self.mpr hb,
      filter_eq_nil_iff.mpr (fun x hx => by rw [ha x hx]; exact Bool.false_ne_true),
      filter_eq_nil_iff.mpr (fun x hx => by rw [hc x hx]; exact Bool.false_ne_true), nil_append,
      append_nil]
  have htake {a b c : List α} (ha : ∀ x ∈ a, marked x = false) (hb : ∀ x ∈ b, marked x = true) (hne : b ≠ []) :
      (a ++ b ++ c).takeWhile (fun x => !marked x) = a := by
    obtain ⟨x, rest, rfl⟩ := exists_cons_of_ne_nil hne
    rw [append_assoc, takeWhile_append_of_pos (fun y hy => by rw [ha y hy]; rfl), cons_append,
      takeWhile_cons_of_neg (by rw [hb x mem_cons_self]; exact Bool.false_ne_true), append_nil]
  have hmiddles : middle = middle' := by
    rw [← hfilter hfirst hmiddle hlast, h, hfilter hfirst' hmiddle' hlast']
  subst hmiddles
  by_cases hempty : middle = []
  · have hnone : first = [] := not_not.mp fun hne => hpaired hne hempty
    have hnone' : first' = [] := not_not.mp fun hne => hpaired' hne hempty
    subst hempty hnone hnone'
    exact ⟨rfl, rfl, h⟩
  · have hfirsts : first = first' := by
      rw [← htake hfirst hmiddle hempty, h, htake hfirst' hmiddle' hempty]
    subst hfirsts
    exact ⟨rfl, rfl, append_cancel_left h⟩

section Cut

variable [DecidableEq α] {sep : α} {field rest text : List α}

theorem takeWhile_field (hfree : sep ∉ field) (rest : List α) : (field ++ sep :: rest).takeWhile (· ≠ sep) = field := by
  have hall : ∀ x ∈ field, decide (x ≠ sep) = true := by
    intro x hmem
    apply decide_eq_true
    rintro rfl
    exact hfree hmem
  rw [takeWhile_append_of_pos hall, takeWhile_cons_of_neg (by simp), append_nil]

theorem dropWhile_field (hfree : sep ∉ field) (rest : List α) :
    (field ++ sep :: rest).dropWhile (· ≠ sep) = sep :: rest := by
  have hwhole := takeWhile_append_dropWhile (p := (· ≠ sep)) (l := field ++ sep :: rest)
  rw [takeWhile_field hfree] at hwhole
  exact append_cancel_left hwhole

/-- What is behind the first separator is behind a field without it. -/
theorem eq_of_tail_dropWhile (h : (text.dropWhile (· ≠ sep)).tail? = some rest) :
    text = text.takeWhile (· ≠ sep) ++ sep :: rest := by
  cases hdrop : text.dropWhile (· ≠ sep) with
  | nil =>
    rw [hdrop] at h
    cases h
  | cons first others =>
    rw [hdrop] at h
    obtain rfl : others = rest := Option.some.inj h
    have hfirst := head_dropWhile_not (· ≠ sep) (l := text) (by rw [hdrop]; exact cons_ne_nil _ _)
    simp only [hdrop, head_cons, decide_eq_false_iff_not, not_not] at hfirst
    have hwhole := takeWhile_append_dropWhile (p := (· ≠ sep)) (l := text)
    rw [hdrop, hfirst] at hwhole
    exact hwhole.symm

end Cut

end Delimited
