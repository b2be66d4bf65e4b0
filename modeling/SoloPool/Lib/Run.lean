import Mathlib.Data.List.Basic

namespace Transition

variable {S E : Type} (step : S → E → S)

/-- The state reached from `s` by taking the events of `es` in order. -/
def run (s : S) (es : List E) : S :=
  es.foldl step s

@[simp] theorem run_nil (s : S) : run step s [] = s := rfl

@[simp] theorem run_cons (s : S) (e : E) (es : List E) :
    run step s (e :: es) = run step (step s e) es := rfl

theorem run_append (s : S) (es fs : List E) :
    run step s (es ++ fs) = run step (run step s es) fs := by
  simp [run]

/-- One event more is the last one or one of those before it. -/
theorem exists_mem_concat {e : E} {es : List E} {p : E → Prop} :
    (∃ x ∈ es ++ [e], p x) ↔ (∃ x ∈ es, p x) ∨ p e := by
  simp [or_and_right, exists_or]

/-- Every event of the run satisfies `guard` in the state it is taken from. -/
def Guarded (guard : S → E → Prop) : S → List E → Prop
  | _, [] => True
  | s, e :: es => guard s e ∧ Guarded guard (step s e) es

/-- `p` holds in every state the run visits, its first and last included. -/
def Throughout (p : S → Prop) : S → List E → Prop
  | s, [] => p s
  | s, e :: es => p s ∧ Throughout p (step s e) es

instance Guarded.decidable (guard : S → E → Prop) [∀ s e, Decidable (guard s e)] :
    ∀ s es, Decidable (Guarded step guard s es)
  | _, [] => inferInstanceAs (Decidable True)
  | s, e :: es =>
    have := Guarded.decidable guard (step s e) es
    inferInstanceAs (Decidable (_ ∧ _))

instance Throughout.decidable (p : S → Prop) [DecidablePred p] : ∀ s es, Decidable (Throughout step p s es)
  | s, [] => inferInstanceAs (Decidable (p s))
  | s, e :: es =>
    have := Throughout.decidable p (step s e) es
    inferInstanceAs (Decidable (_ ∧ _))

variable {step} {es : List E} {guard : S → E → Prop} {s : S} {p inv : S → Prop}

theorem guarded_append {fs : List E} :
    Guarded step guard s (es ++ fs) ↔
      Guarded step guard s es ∧ Guarded step guard (run step s es) fs := by
  induction es generalizing s with
  | nil => simp [Guarded]
  | cons e es ih => simp [Guarded, ih, and_assoc]

theorem guarded_true (s : S) (es : List E) : Guarded step (fun _ _ => True) s es := by
  induction es generalizing s with
  | nil => trivial
  | cons e es ih => exact ⟨trivial, ih _⟩

/-- A condition on the events alone. -/
theorem guarded_of_forall {p : E → Prop} (h : ∀ e ∈ es, p e) (s : S) :
    Guarded step (fun _ e => p e) s es := by
  induction es generalizing s with
  | nil => trivial
  | cons e es ih => exact ⟨h e List.mem_cons_self, ih (fun e' he' => h e' (List.mem_cons_of_mem _ he')) _⟩

theorem Throughout.first (h : Throughout step p s es) : p s := by
  cases es with
  | nil => exact h
  | cons e es => exact h.1

/-- The invariant rule: what every guarded step preserves, every guarded run
preserves. -/
theorem run_invariant (hstep : ∀ s e, inv s → guard s e → inv (step s e))
    (hs : inv s) (hguard : Guarded step guard s es) : inv (run step s es) := by
  induction es generalizing s with
  | nil => exact hs
  | cons e es ih => exact ih (hstep s e hs hguard.1) hguard.2

/-- The invariant rule without a guard. -/
theorem run_invariant_always (hstep : ∀ s e, inv s → inv (step s e))
    (es : List E) (hs : inv s) : inv (run step s es) :=
  run_invariant (fun s e h _ => hstep s e h) hs (guarded_true s es)

/-- An invariant of guarded steps holds in every state of a guarded run. -/
theorem throughout_invariant (hstep : ∀ s e, inv s → guard s e → inv (step s e))
    (hs : inv s) (hguard : Guarded step guard s es) : Throughout step inv s es := by
  induction es generalizing s with
  | nil => exact hs
  | cons e es ih => exact ⟨hs, ih (hstep s e hs hguard.1) hguard.2⟩

theorem Throughout.mono {q : S → Prop} (himp : ∀ s, p s → q s)
    (h : Throughout step p s es) : Throughout step q s es := by
  induction es generalizing s with
  | nil => exact himp s h
  | cons e es ih => exact ⟨himp s h.1, ih h.2⟩

/-- What a guarded step preserves as long as `p` holds on both sides of it
survives every guarded run that stays inside `p`. -/
theorem run_invariant_while (hstep : ∀ s e, inv s → guard s e → p s → p (step s e) → inv (step s e))
    (hs : inv s) (hguard : Guarded step guard s es) (hp : Throughout step p s es) :
    inv (run step s es) := by
  induction es generalizing s with
  | nil => exact hs
  | cons e es ih => exact ih (hstep s e hs hguard.1 hp.1 hp.2.first) hguard.2 hp.2

/-- The rule for a ghost value that every step can extend: one value serves the whole
run, in that it agrees at each state with one that fits the state. -/
theorem run_ghost {G : Type} (inv : G → S → Prop) (agrees : S → G → G → Prop) (hrefl : ∀ s g, agrees s g g)
    (htrans : ∀ s e g g' g'', agrees s g g' → agrees (step s e) g' g'' → agrees s g g'')
    (hstep : ∀ s e g, inv g s → ∃ g', agrees s g g' ∧ inv g' (step s e)) {g : G} (es : List E)
    (hs : inv g s) : ∃ whole, agrees s g whole ∧
      ∀ before, before <+: es → ∃ g', inv g' (run step s before) ∧ agrees (run step s before) g' whole := by
  induction es generalizing s g with
  | nil =>
    refine ⟨g, hrefl s g, fun before hbefore => ?_⟩
    rw [List.prefix_nil.mp hbefore]
    exact ⟨g, hs, hrefl s g⟩
  | cons e es ih =>
    obtain ⟨g', hagrees, hinv⟩ := hstep s e g hs
    obtain ⟨whole, hwhole, hall⟩ := ih hinv
    have hfirst := htrans s e g g' whole hagrees hwhole
    refine ⟨whole, hfirst, fun before hbefore => ?_⟩
    cases before with
    | nil => exact ⟨g, hs, hfirst⟩
    | cons e' before =>
      obtain ⟨rfl, hrest⟩ := List.cons_prefix_cons.mp hbefore
      exact hall before hrest

/-- A bound on a quantity that never falls holds after every step of a run that ends
below it. -/
theorem guarded_of_bound {f : S → Nat} (hmono : ∀ s e, f s ≤ f (step s e)) {bound : Nat}
    (hend : f (run step s es) < bound) : Guarded step (fun s e => f (step s e) < bound) s es := by
  have hrun (s : S) (es : List E) : f s ≤ f (run step s es) := by
    induction es generalizing s with
    | nil => exact Nat.le_refl _
    | cons e es ih => exact Nat.le_trans (hmono s e) (ih _)
  induction es generalizing s with
  | nil => trivial
  | cons e es ih => exact ⟨Nat.lt_of_le_of_lt (hrun _ es) hend, ih hend⟩

theorem guarded_and {guard' : S → E → Prop} (h : Guarded step guard s es)
    (h' : Guarded step guard' s es) : Guarded step (fun s e => guard s e ∧ guard' s e) s es := by
  induction es generalizing s with
  | nil => trivial
  | cons e es ih => exact ⟨⟨h.1, h'.1⟩, ih h.2 h'.2⟩

end Transition
