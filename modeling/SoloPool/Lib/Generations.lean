import Mathlib.Data.Finset.Card
import Mathlib.Data.Finset.Insert
import Mathlib.Data.Finset.Lattice.Lemmas

/-- A set of remembered keys kept in two generations: new keys enter `current`,
and a rotation demotes `current` to `previous`, discarding what `previous` held. -/
structure Generations (K : Type) where
  current : Finset K
  previous : Finset K
deriving DecidableEq

namespace Generations

variable {K : Type} [DecidableEq K]

def empty : Generations K := ⟨∅, ∅⟩

/-- Membership in either generation. -/
def Remembers (g : Generations K) (k : K) : Prop := k ∈ g.current ∨ k ∈ g.previous

instance (g : Generations K) (k : K) : Decidable (g.Remembers k) :=
  inferInstanceAs (Decidable (k ∈ g.current ∨ k ∈ g.previous))

def rotate (g : Generations K) : Generations K := ⟨∅, g.current⟩

/-- Rotation that is skipped when there is nothing to demote. -/
def rotateIfNonempty (g : Generations K) : Generations K :=
  if g.current = ∅ then g else g.rotate

/-- Insert a fresh key, rotating first when `current` has reached `capacity`.
A key that is still remembered is refused and changes nothing. -/
def remember (capacity : Nat) (g : Generations K) (k : K) : Bool × Generations K :=
  if g.Remembers k then (false, g)
  else
    let g' := if capacity ≤ g.current.card then g.rotate else g
    (true, { g' with current := insert k g'.current })

theorem remember_refused_iff (capacity : Nat) (g : Generations K) (k : K) :
    (remember capacity g k).1 = false ↔ g.Remembers k := by
  unfold remember
  split <;> simp_all

variable {capacity base credits : Nat} {g : Generations K} {k : K}

theorem remember_refused (hk : g.Remembers k) :
    remember capacity g k = (false, g) := by
  simp [remember, hk]

/-- After an insertion attempt the key is remembered, whether it was fresh or not. -/
theorem remember_remembers (capacity : Nat) (g : Generations K) (k : K) :
    (remember capacity g k).2.Remembers k := by
  unfold remember
  split
  · assumption
  · simp [Remembers]

/-- Below capacity an insertion forgets nothing. -/
theorem remember_keeps (k : K) {k' : K}
    (hroom : g.current.card < capacity) (hk' : g.Remembers k') :
    (remember capacity g k).2.Remembers k' := by
  unfold remember
  split
  · exact hk'
  · simp only [Nat.not_le.mpr hroom, if_false]
    rcases hk' with h | h
    · exact .inl (Finset.mem_insert_of_mem h)
    · exact .inr h

/-- A rotation keeps exactly the live generation. -/
theorem rotate_remembers_iff (g : Generations K) (k : K) : g.rotate.Remembers k ↔ k ∈ g.current := by
  simp [rotate, Remembers]

/-- A key survives a conditional rotation unless only the older generation holds it. -/
theorem rotateIfNonempty_keeps (hk : g.Remembers k)
    (hlive : g.current ≠ ∅ → k ∈ g.previous → k ∈ g.current) : g.rotateIfNonempty.Remembers k := by
  unfold rotateIfNonempty
  split
  · exact hk
  · rename_i hne
    exact (rotate_remembers_iff g k).mpr (hk.elim id (hlive hne))

/-- A rotation brings no key back. -/
theorem rotateIfNonempty_remembers (hk : g.rotateIfNonempty.Remembers k) :
    g.Remembers k := by
  unfold rotateIfNonempty at hk
  split at hk
  · exact hk
  · exact .inl ((rotate_remembers_iff g k).mp hk)

theorem remember_card_le (capacity : Nat) (g : Generations K) (k : K) :
    (remember capacity g k).2.current.card ≤ g.current.card + 1 := by
  unfold remember
  split
  · exact Nat.le_succ _
  · split
    · simp [rotate]
    · exact Finset.card_insert_le _ _

theorem rotateIfNonempty_card_le (g : Generations K) : g.rotateIfNonempty.current.card ≤ g.current.card := by
  unfold rotateIfNonempty rotate
  split <;> simp

/-- A key has at most one credit beyond `base`, and is remembered from that one on. -/
def CreditedOnce (g : Generations K) (k : K) (base credits : Nat) : Prop :=
  credits ≤ base ∨ credits = base + 1 ∧ g.Remembers k

omit [DecidableEq K] in
theorem CreditedOnce.le (h : g.CreditedOnce k base credits) :
    credits ≤ base + 1 :=
  h.elim (fun h => h.trans (Nat.le_succ _)) (fun h => h.1.le)

omit [DecidableEq K] in
/-- Credits that do not grow and a key that is not forgotten keep the bound. -/
theorem CreditedOnce.keep {g' : Generations K} {credits' : Nat}
    (h : g.CreditedOnce k base credits) (hle : credits' ≤ credits) (hkeep : g.Remembers k → g'.Remembers k) :
    g'.CreditedOnce k base credits' := by
  rcases h with h | ⟨h, hk⟩
  · exact .inl (hle.trans h)
  · rcases (h ▸ hle).lt_or_eq with hlt | heq
    · exact .inl (Nat.lt_succ_iff.mp hlt)
    · exact .inr ⟨heq, hkeep hk⟩

/-- A credit is given only for a fresh key, which is then remembered. -/
theorem CreditedOnce.remember {k' : K} {credits' : Nat}
    (h : g.CreditedOnce k base credits) (hroom : g.current.card < capacity) (hfresh : ¬ g.Remembers k')
    (hle : credits' ≤ credits + if k' = k then 1 else 0) :
    (g.remember capacity k').2.CreditedOnce k base credits' := by
  by_cases hk : k' = k
  · -- the key was not remembered, so nothing beyond `base` has been credited yet
    subst hk
    rw [if_pos rfl] at hle
    have hbase : credits ≤ base := h.resolve_right (fun h => hfresh h.2)
    rcases (hle.trans (Nat.succ_le_succ hbase)).lt_or_eq with hlt | heq
    · exact .inl (Nat.lt_succ_iff.mp hlt)
    · exact .inr ⟨heq, remember_remembers ..⟩
  · rw [if_neg hk] at hle
    exact h.keep hle (remember_keeps k' hroom)

end Generations
