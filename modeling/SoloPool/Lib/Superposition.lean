import Mathlib.Logic.Function.Iterate

/-! Folds whose step is additive: what the parts of a state contribute can be run apart. -/

namespace Superposition

open List

variable {σ ν : Type} {add : σ → σ → σ} {step : σ → ν → σ} {blank : σ → σ}

/-- One part of the state takes all the symbols; the other only advances. -/
theorem foldl_add (h : ∀ part state symbol, step (add part state) symbol = add (blank part) (step state symbol))
    (symbols : List ν) (part state : σ) :
    symbols.foldl step (add part state) = add (blank^[symbols.length] part) (symbols.foldl step state) := by
  induction symbols generalizing part state with
  | nil => rfl
  | cons symbol symbols ih =>
    rw [foldl_cons, h, ih, length_cons, Function.iterate_succ_apply, foldl_cons]

/-- A changed symbol adds what its difference has become by the end. -/
theorem foldl_changed (h : ∀ part state symbol, step (add part state) symbol = add (blank part) (step state symbol))
    (after : List ν) {before : List ν} {symbol symbol' : ν} {start difference : σ}
    (hchanged : step (before.foldl step start) symbol' = add difference (step (before.foldl step start) symbol)) :
    (before ++ symbol' :: after).foldl step start =
      add (blank^[after.length] difference) ((before ++ symbol :: after).foldl step start) := by
  rw [foldl_append, foldl_cons, hchanged, foldl_add h, foldl_append, foldl_cons]

end Superposition
