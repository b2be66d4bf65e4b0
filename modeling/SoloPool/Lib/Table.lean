import Mathlib.Data.List.AList
import Mathlib.Data.List.Perm.Basic
import Mathlib.Data.List.Sort

/-! Finite maps with one type of values, over Mathlib's association lists: the values
they hold, entries dropped or changed in place, and maps of maps. -/

abbrev Table (κ α : Type) := AList (fun _ : κ => α)

namespace Table

open List

variable {κ α β : Type}

def values (t : Table κ α) : List α := t.entries.map Sigma.snd

/-- An entry changed or dropped by `f`. -/
def pick (f : κ → α → Option β) (entry : Sigma fun _ : κ => α) : Option (Sigma fun _ : κ => β) :=
  (f entry.1 entry.2).map fun b => ⟨entry.1, b⟩

theorem pick_keys_sublist (f : κ → α → Option β) (entries : List (Sigma fun _ : κ => α)) :
    (entries.filterMap (pick f)).keys.Sublist entries.keys := by
  induction entries with
  | nil => exact .slnil
  | cons entry entries ih =>
    rw [filterMap_cons, pick]
    cases f entry.1 entry.2 with
    | none => exact ih.cons _
    | some b => exact ih.cons_cons _

def filterMap (f : κ → α → Option β) (t : Table κ α) : Table κ β where
  entries := t.entries.filterMap (pick f)
  nodupKeys := (pick_keys_sublist f t.entries).nodup t.nodupKeys

theorem keys_filterMap_sublist (f : κ → α → Option β) (t : Table κ α) : (filterMap f t).keys.Sublist t.keys :=
  pick_keys_sublist f t.entries

/-- What the values stand for shrinks as each of them does. -/
theorem flatMap_filterMap_sublist {γ : Type} {f : κ → α → Option β} {g : α → List γ} {g' : β → List γ}
    (hf : ∀ k a b, f k a = some b → (g' b).Sublist (g a)) (t : Table κ α) :
    ((values (filterMap f t)).flatMap g').Sublist ((values t).flatMap g) := by
  change (((t.entries.filterMap (pick f)).map Sigma.snd).flatMap g').Sublist ((t.entries.map Sigma.snd).flatMap g)
  induction t.entries with
  | nil => exact .slnil
  | cons entry entries ih =>
    rw [filterMap_cons, pick, map_cons, flatMap_cons]
    cases hpick : f entry.1 entry.2 with
    | none => exact ih.trans (sublist_append_right _ _)
    | some b => exact (hf _ _ _ hpick).append ih

/-- Dropping entries and changing none. -/
theorem values_filterMap_sublist {f : κ → α → Option α} (hf : ∀ k a b, f k a = some b → b = a) (t : Table κ α) :
    (values (filterMap f t)).Sublist (values t) := by
  have hsublist : ((values (filterMap f t)).flatMap ([·])).Sublist ((values t).flatMap ([·])) := by
    apply flatMap_filterMap_sublist
    intro k a b hpick
    rw [hf k a b hpick]
  rwa [flatMap_singleton', flatMap_singleton'] at hsublist

variable [DecidableEq κ]

variable {t : Table κ α} {k : κ}

theorem mem_values {a : α} : a ∈ values t ↔ ∃ k, t.lookup k = some a := by
  constructor
  · intro h
    obtain ⟨⟨k, a⟩, hentry, rfl⟩ := mem_map.mp h
    exact ⟨k, AList.mem_lookup_iff.mpr hentry⟩
  · rintro ⟨k, hk⟩
    exact mem_map.mpr ⟨⟨k, a⟩, AList.mem_lookup_iff.mp hk, rfl⟩

theorem keys_insert_absent (h : t.lookup k = none) (a : α) :
    (t.insert k a).keys = k :: t.keys := by
  rw [AList.keys_insert, erase_of_not_mem (AList.lookup_eq_none.mp h)]

theorem length_insert_present {b : α} (h : t.lookup k = some b) (a : α) :
    (t.insert k a).keys.length = t.keys.length := by
  have hkey : k ∈ t.keys := AList.lookup_isSome.mp (by rw [h]; rfl)
  rw [AList.keys_insert, length_cons, length_erase_add_one hkey]

theorem values_insert (t : Table κ α) (k : κ) (a : α) : values (t.insert k a) = a :: values (t.erase k) := by
  rw [values, AList.entries_insert]
  rfl

theorem values_erase_absent (h : t.lookup k = none) : values (t.erase k) = values t := by
  have habsent : k ∉ t.entries.keys := AList.lookup_eq_none.mp h
  change (t.entries.kerase k).map _ = _
  rw [kerase_of_notMem_keys habsent, values]

/-- What is erased comes back in front. -/
theorem values_erase {a : α} (h : t.lookup k = some a) :
    (a :: values (t.erase k)).Perm (values t) := by
  have hkey : k ∈ t.entries.keys := AList.lookup_isSome.mp (by rw [h]; rfl)
  obtain ⟨b, front, back, hfront, hentries, herase⟩ := exists_of_kerase hkey
  have hvalue : t.lookup k = some b := by
    apply AList.mem_lookup_iff.mpr
    rw [hentries]
    exact mem_append_right _ mem_cons_self
  obtain rfl : a = b := Option.some.inj (h.symm.trans hvalue)
  change (a :: (t.entries.kerase k).map _).Perm (t.entries.map _)
  rw [herase, hentries, map_append, map_append, map_cons]
  exact perm_middle.symm

theorem lookup_filterMap (f : κ → α → Option β) (t : Table κ α) (k : κ) :
    (filterMap f t).lookup k = (t.lookup k).bind (f k) := by
  ext b
  rw [Option.bind_eq_some_iff]
  constructor
  · intro h
    obtain ⟨⟨k', a⟩, hentry, hpick⟩ := mem_filterMap.mp (AList.mem_lookup_iff.mp h)
    obtain ⟨b', hb, heq⟩ := Option.map_eq_some_iff.mp hpick
    cases heq
    exact ⟨a, AList.mem_lookup_iff.mpr hentry, hb⟩
  · rintro ⟨a, ha, hb⟩
    apply AList.mem_lookup_iff.mpr
    refine mem_filterMap.mpr ⟨⟨k, a⟩, AList.mem_lookup_iff.mp ha, ?_⟩
    exact Option.map_eq_some_iff.mpr ⟨b, hb, rfl⟩

section Nested

variable {ι : Type} [DecidableEq ι]

/-- The inner map of a key, empty where the key has none. -/
def inner (t : Table κ (Table ι α)) (k : κ) : Table ι α := (t.lookup k).getD ∅

def find (t : Table κ (Table ι α)) (k : κ) (i : ι) : Option α := (inner t k).lookup i

def store (t : Table κ (Table ι α)) (k : κ) (i : ι) (a : α) : Table κ (Table ι α) :=
  t.insert k ((inner t k).insert i a)

theorem inner_store (t : Table κ (Table ι α)) (k k' : κ) (i : ι) (a : α) :
    inner (store t k i a) k' = if k' = k then (inner t k).insert i a else inner t k' := by
  unfold store
  split
  · rename_i heq
    rw [heq, inner, AList.lookup_insert]
    rfl
  · rename_i hne
    rw [inner, AList.lookup_insert_ne hne]
    rfl

theorem find_store_self (t : Table κ (Table ι α)) (k : κ) (i : ι) (a : α) : find (store t k i a) k i = some a := by
  rw [find, inner_store, if_pos rfl, AList.lookup_insert]

theorem find_store_ne (t : Table κ (Table ι α)) {k k' : κ} {i i' : ι} (a : α) (hne : (k', i') ≠ (k, i)) :
    find (store t k i a) k' i' = find t k' i' := by
  rw [find, inner_store]
  split
  · rename_i heq
    subst heq
    have hinner : i' ≠ i := fun heq => hne (by rw [heq])
    rw [AList.lookup_insert_ne hinner]
    rfl
  · rfl

theorem find_of_mem_inner {t : Table κ (Table ι α)} {k : κ} {i : ι} (h : i ∈ (inner t k).keys) :
    ∃ a, find t k i = some a := Option.isSome_iff_exists.mp (AList.lookup_isSome.mpr h)

/-- The entries in the order `le` of their keys. -/
def ordered (le : κ → κ → Bool) (t : Table κ α) : List (Sigma fun _ : κ => α) :=
  t.entries.insertionSort fun entry entry' => le entry.1 entry'.1 = true

variable (le : κ → κ → Bool) (le' : ι → ι → Bool)

omit [DecidableEq κ] in
theorem ordered_perm (t : Table κ α) : (ordered le t).Perm t.entries := perm_insertionSort _ _

theorem mem_ordered {t : Table κ α} {k : κ} {a : α} : ⟨k, a⟩ ∈ ordered le t ↔ t.lookup k = some a :=
  (ordered_perm le t).mem_iff.trans AList.mem_lookup_iff.symm

/-- The entries of the inner maps, in the order of both keys. -/
def flatten (t : Table κ (Table ι α)) : List (κ × ι × α) :=
  (ordered le t).flatMap fun outer => (ordered le' outer.2).map fun entry => (outer.1, entry.1, entry.2)

theorem mem_flatten {t : Table κ (Table ι α)} {k : κ} {i : ι} {a : α} :
    (k, i, a) ∈ flatten le le' t ↔ find t k i = some a := by
  rw [flatten, mem_flatMap]
  constructor
  · rintro ⟨⟨k', m⟩, houter, hentry⟩
    obtain ⟨⟨i', a'⟩, hinner, heq⟩ := mem_map.mp hentry
    cases heq
    rw [find, inner, (mem_ordered le).mp houter]
    exact (mem_ordered le').mp hinner
  · intro hfind
    cases hlookup : t.lookup k with
    | none =>
      rw [find, inner, hlookup] at hfind
      cases hfind
    | some m =>
      rw [find, inner, hlookup] at hfind
      exact ⟨⟨k, m⟩, (mem_ordered le).mpr hlookup, mem_map.mpr ⟨⟨i, a⟩, (mem_ordered le').mpr hfind, rfl⟩⟩

omit [DecidableEq κ] in
theorem ordered_keys_nodup (t : Table κ α) : ((ordered le t).map Sigma.fst).Nodup :=
  ((ordered_perm le t).map Sigma.fst).nodup_iff.mpr t.nodupKeys

omit [DecidableEq κ] [DecidableEq ι] in
/-- No pair of keys comes twice. -/
theorem flatten_nodup (t : Table κ (Table ι α)) : ((flatten le le' t).map fun row => (row.1, row.2.1)).Nodup := by
  rw [flatten, map_flatMap, nodup_flatMap]
  constructor
  · intro outer _
    have hinner := (ordered_keys_nodup le' outer.2).map (Prod.mk_right_injective outer.1)
    rw [map_map] at hinner ⊢
    exact hinner
  · apply (pairwise_map.mp (ordered_keys_nodup le t)).imp
    intro outer outer' hne pair hmem hmem'
    obtain ⟨row, hrow, rfl⟩ := mem_map.mp hmem
    obtain ⟨row', hrow', heq⟩ := mem_map.mp hmem'
    obtain ⟨entry, _, rfl⟩ := mem_map.mp hrow
    obtain ⟨entry', _, rfl⟩ := mem_map.mp hrow'
    exact hne (congrArg Prod.fst heq).symm

end Nested

end Table
